import Mathlib.Data.Finset.Card
import Mathlib.Data.List.Count

/-!
# Dictionaries in insertion order

A Python dictionary is a list of pairs in which a key keeps the place where it was first inserted.
`Dict.groups` collects values under their keys, as `d.setdefault(key, []).append(value)` does: its
items are exactly the nonempty groups (`mem_groups`). How often a value occurs in a list is a
number of positions (`card_positions`), which is how the groups of votes are counted against a set
of positions.
-/

namespace Foundations

variable {α β : Type*}

namespace Dict

variable [DecidableEq α]

/-! ## Insertion -/

/-- Change the value of a key, which is added at the end if it is new. -/
def alter (f : Option β → β) (k : α) : List (α × β) → List (α × β)
  | [] => [(k, f none)]
  | (k', v) :: d => if k' = k then (k', f (some v)) :: d else (k', v) :: alter f k d

/-- `d[key] = value`. -/
def insert (k : α) (v : β) (d : List (α × β)) : List (α × β) := alter (fun _ => v) k d

@[simp] theorem lookup_alter_self (f : Option β → β) (k : α) (d : List (α × β)) :
    (alter f k d).lookup k = some (f (d.lookup k)) := by
  induction d with
  | nil => simp [alter]
  | cons x d ih =>
    obtain ⟨k', v⟩ := x
    by_cases h : k' = k
    · subst h
      simp [alter]
    · have h' : (k == k') = false := by simpa using Ne.symm h
      simp only [alter, if_neg h, List.lookup_cons, h', ih]

theorem lookup_alter_of_ne (f : Option β → β) {k k' : α} (h : k' ≠ k) (d : List (α × β)) :
    (alter f k d).lookup k' = d.lookup k' := by
  induction d with
  | nil => simp [alter, h]
  | cons x d ih =>
    obtain ⟨k'', v⟩ := x
    by_cases hk : k'' = k
    · subst hk
      have h' : (k' == k'') = false := by simpa using h
      simp only [alter, if_pos, List.lookup_cons, h']
    · simp only [alter, if_neg hk, List.lookup_cons, ih]

theorem keys_alter (f : Option β → β) (k : α) (d : List (α × β)) :
    (alter f k d).map Prod.fst =
      if k ∈ d.map Prod.fst then d.map Prod.fst else d.map Prod.fst ++ [k] := by
  induction d with
  | nil => simp [alter]
  | cons x d ih =>
    obtain ⟨k', v⟩ := x
    by_cases h : k' = k
    · simp [alter, h]
    · have hk : k ∈ (k', v).1 :: d.map Prod.fst ↔ k ∈ d.map Prod.fst := by
        simp [Ne.symm h]
      simp only [alter, if_neg h, List.map_cons, ih, hk]
      split_ifs <;> rfl

theorem nodup_keys_alter (f : Option β → β) (k : α) {d : List (α × β)}
    (h : (d.map Prod.fst).Nodup) : ((alter f k d).map Prod.fst).Nodup := by
  rw [keys_alter]
  split_ifs with hk
  · exact h
  · exact List.nodup_append.mpr ⟨h, List.nodup_singleton k, by grind⟩

/-- With distinct keys an item is what its key looks up. -/
theorem mem_iff_lookup {k : α} {v : β} {d : List (α × β)} (h : (d.map Prod.fst).Nodup) :
    (k, v) ∈ d ↔ d.lookup k = some v := by
  induction d with
  | nil => simp
  | cons x d ih =>
    obtain ⟨k', v'⟩ := x
    obtain ⟨hk, hd⟩ := List.nodup_cons.mp h
    by_cases heq : k = k'
    · subst heq
      have hnot : (k, v) ∉ d := fun hmem => hk (List.mem_map.mpr ⟨_, hmem, rfl⟩)
      simp [hnot, eq_comm]
    · have heq' : (k == k') = false := by simpa using heq
      simp [List.lookup_cons, heq', heq, ih hd]

/-! ## Groups -/

/-- The values of each key, keys in the order in which they first occur. -/
def groups (pairs : List (α × β)) : List (α × List β) :=
  pairs.foldl (fun d x => alter (fun vs => vs.getD [] ++ [x.2]) x.1 d) []

/-- The values that the pairs have under a key. -/
def valuesOf (k : α) (pairs : List (α × β)) : List β :=
  (pairs.filter fun x => x.1 = k).map Prod.snd

@[simp] theorem valuesOf_nil (k : α) : valuesOf k ([] : List (α × β)) = [] := rfl

theorem valuesOf_append (k : α) (pairs pairs' : List (α × β)) :
    valuesOf k (pairs ++ pairs') = valuesOf k pairs ++ valuesOf k pairs' := by
  simp [valuesOf]

theorem groups_concat (pairs : List (α × β)) (x : α × β) :
    groups (pairs ++ [x]) = alter (fun vs => vs.getD [] ++ [x.2]) x.1 (groups pairs) := by
  simp [groups]

theorem nodup_keys_groups (pairs : List (α × β)) : ((groups pairs).map Prod.fst).Nodup := by
  induction pairs using List.reverseRecOn with
  | nil => simp [groups]
  | append_singleton pairs x ih =>
    rw [groups_concat]
    exact nodup_keys_alter _ _ ih

theorem lookup_groups (k : α) (pairs : List (α × β)) :
    (groups pairs).lookup k = if valuesOf k pairs = [] then none else some (valuesOf k pairs) := by
  induction pairs using List.reverseRecOn with
  | nil => simp [groups]
  | append_singleton pairs x ih =>
    rw [groups_concat, valuesOf_append]
    by_cases hk : x.1 = k
    · subst hk
      rw [lookup_alter_self, ih]
      have hx : valuesOf x.1 [x] = [x.2] := by simp [valuesOf]
      split_ifs with h <;> simp_all
    · have hx : valuesOf k [x] = [] := by simp [valuesOf, hk]
      rw [lookup_alter_of_ne _ (Ne.symm hk), ih, hx, List.append_nil]

/-- **The items of a grouping are the nonempty groups.** -/
theorem mem_groups {k : α} {vs : List β} {pairs : List (α × β)} :
    (k, vs) ∈ groups pairs ↔ vs = valuesOf k pairs ∧ vs ≠ [] := by
  rw [mem_iff_lookup (nodup_keys_groups pairs), lookup_groups]
  split_ifs with h
  · simp [h]
  · constructor
    · intro heq
      obtain rfl := Option.some.inj heq
      exact ⟨rfl, h⟩
    · rintro ⟨rfl, -⟩
      rfl

theorem mem_keys_groups {k : α} {pairs : List (α × β)} :
    k ∈ (groups pairs).map Prod.fst ↔ k ∈ pairs.map Prod.fst := by
  have hvalues : valuesOf k pairs ≠ [] ↔ k ∈ pairs.map Prod.fst := by
    simp [valuesOf, List.filter_eq_nil_iff]
  rw [← hvalues]
  constructor
  · intro h
    obtain ⟨⟨k', vs⟩, hmem, rfl⟩ := List.mem_map.mp h
    obtain ⟨rfl, hne⟩ := mem_groups.mp hmem
    exact hne
  · intro hne
    exact List.mem_map.mpr ⟨_, mem_groups.mpr ⟨rfl, hne⟩, rfl⟩

/-- The keys of a grouping stand in the order in which they first occur. -/
theorem pairwise_keys_groups (pairs : List (α × β)) :
    ((groups pairs).map Prod.fst).Pairwise fun k k' =>
      (pairs.map Prod.fst).idxOf k < (pairs.map Prod.fst).idxOf k' := by
  induction pairs using List.reverseRecOn with
  | nil => simp [groups]
  | append_singleton pairs x ih =>
    -- a key that occurred before keeps its first position
    have hold : ∀ k ∈ (groups pairs).map Prod.fst,
        ((pairs ++ [x]).map Prod.fst).idxOf k = (pairs.map Prod.fst).idxOf k := by
      intro k hk
      rw [List.map_append, List.idxOf_append_of_mem (mem_keys_groups.mp hk)]
    have ih' : ((groups pairs).map Prod.fst).Pairwise fun k k' =>
        ((pairs ++ [x]).map Prod.fst).idxOf k < ((pairs ++ [x]).map Prod.fst).idxOf k' := by
      refine ih.imp_of_mem fun hk hk' hlt => ?_
      rw [hold _ hk, hold _ hk']
      exact hlt
    rw [groups_concat, keys_alter]
    split_ifs with hx
    · exact ih'
    · refine List.pairwise_append.mpr ⟨ih', List.pairwise_singleton _ _, ?_⟩
      intro k hk k' hk'
      obtain rfl := List.mem_singleton.mp hk'
      rw [hold k hk, List.map_append,
        List.idxOf_append_of_notMem fun hmem => hx (mem_keys_groups.mpr hmem)]
      have hlt := List.idxOf_lt_length_of_mem (mem_keys_groups.mp hk)
      exact hlt.trans_le (Nat.le_add_right _ _)

/-- Of two items of a grouping the one whose key occurs first stands first. -/
theorem idxOf_key_le {_ : BEq (α × List β)} [LawfulBEq (α × List β)] {x y : α × List β}
    {pairs : List (α × β)} (hx : x ∈ groups pairs) (hy : y ∈ groups pairs)
    (h : (groups pairs).idxOf x ≤ (groups pairs).idxOf y) :
    (pairs.map Prod.fst).idxOf x.1 ≤ (pairs.map Prod.fst).idxOf y.1 := by
  rcases h.eq_or_lt with heq | hlt
  · rw [(List.idxOf_inj hx).mp heq]
  · have hpair := List.pairwise_map.mp (pairwise_keys_groups pairs)
    have hget := List.pairwise_iff_getElem.mp hpair _ _ (List.idxOf_lt_length_of_mem hx)
      (List.idxOf_lt_length_of_mem hy) hlt
    rw [List.getElem_idxOf, List.getElem_idxOf] at hget
    exact hget.le

theorem groups_eq_nil {pairs : List (α × β)} : groups pairs = [] ↔ pairs = [] := by
  constructor
  · intro h
    cases pairs with
    | nil => rfl
    | cons x pairs =>
      have hx : (x.1, valuesOf x.1 (x :: pairs)) ∈ groups (x :: pairs) :=
        mem_groups.mpr ⟨rfl, by simp [valuesOf]⟩
      rw [h] at hx
      exact absurd hx List.not_mem_nil
  · rintro rfl
    rfl

/-! ## Groups and pairs -/

/-- The pairs that a grouping stands for. -/
def ungroup (d : List (α × List β)) : List (α × β) := d.flatMap fun x => x.2.map fun v => (x.1, v)

theorem ungroup_alter (k : α) (v : β) (d : List (α × List β)) :
    (ungroup (alter (fun vs => vs.getD [] ++ [v]) k d)).Perm (ungroup d ++ [(k, v)]) := by
  induction d with
  | nil => simp [alter, ungroup]
  | cons x d ih =>
    obtain ⟨k', vs⟩ := x
    by_cases h : k' = k
    · subst h
      simp only [alter, if_pos, ungroup, List.flatMap_cons, Option.getD_some, List.map_append,
        List.map_singleton, List.append_assoc]
      exact List.Perm.append_left _ List.perm_append_comm
    · simp only [alter, if_neg h, ungroup, List.flatMap_cons, List.append_assoc]
      exact List.Perm.append_left _ ih

/-- **A grouping has the pairs that were grouped.** -/
theorem ungroup_groups (pairs : List (α × β)) : (ungroup (groups pairs)).Perm pairs := by
  induction pairs using List.reverseRecOn with
  | nil => simp [groups, ungroup]
  | append_singleton pairs x ih =>
    rw [groups_concat]
    exact (ungroup_alter x.1 x.2 (groups pairs)).trans (ih.append_right [x])

omit [DecidableEq α] in
/-- Some of the groups have the pairs with their keys. -/
theorem ungroup_filter (p : α → Bool) (d : List (α × List β)) :
    ungroup (d.filter fun x => p x.1) = (ungroup d).filter fun x => p x.1 := by
  induction d with
  | nil => rfl
  | cons x d ih =>
    obtain ⟨k, vs⟩ := x
    have hgroup : ((vs.map fun v => (k, v)).filter fun x => p x.1) =
        if p k then vs.map fun v => (k, v) else [] := by
      induction vs with
      | nil => simp
      | cons v vs ih =>
        rw [List.map_cons, List.filter_cons, ih]
        split_ifs <;> rfl
    simp only [ungroup, List.flatMap_cons, List.filter_append, hgroup] at ih ⊢
    rw [List.filter_cons, ← ih]
    split_ifs with h
    · rfl
    · rfl

/-- Inserting pairs with distinct keys adds each at the end. -/
theorem foldl_insert_of_nodup {pairs : List (α × β)} (h : (pairs.map Prod.fst).Nodup) :
    pairs.foldl (fun d x => insert x.1 x.2 d) [] = pairs := by
  induction pairs using List.reverseRecOn with
  | nil => rfl
  | append_singleton pairs x ih =>
    rw [List.map_append, List.map_singleton, List.nodup_append] at h
    obtain ⟨hpairs, -, hnew⟩ := h
    rw [List.foldl_concat, ih hpairs]
    have hat : ∀ d : List (α × β), x.1 ∉ d.map Prod.fst → insert x.1 x.2 d = d ++ [x] := by
      intro d
      induction d with
      | nil => intro _; rfl
      | cons y d ihd =>
        intro hx
        rw [List.map_cons, List.mem_cons, not_or] at hx
        rw [insert, alter, if_neg (Ne.symm hx.1), List.cons_append]
        congr 1
        exact ihd hx.2
    exact hat pairs fun hx => hnew _ hx _ (List.mem_singleton_self _) rfl

end Dict

/-! ## Counting positions -/

/-- The positions at which a list has a value. -/
def positions [DecidableEq α] (a : α) (l : List α) : Finset ℕ :=
  (Finset.range l.length).filter fun i => l[i]? = some a

@[simp] theorem mem_positions [DecidableEq α] {a : α} {l : List α} {i : ℕ} :
    i ∈ positions a l ↔ l[i]? = some a := by
  simp only [positions, Finset.mem_filter, Finset.mem_range, and_iff_right_iff_imp]
  intro h
  exact (List.getElem?_eq_some_iff.mp h).1

/-- A value occurs as often as it has positions. -/
theorem card_positions [DecidableEq α] [BEq α] [LawfulBEq α] (a : α) (l : List α) :
    (positions a l).card = l.count a := by
  induction l using List.reverseRecOn with
  | nil => simp [positions]
  | append_singleton l b ih =>
    have hrest : (Finset.range l.length).filter (fun i => (l ++ [b])[i]? = some a) =
        positions a l := by
      ext i
      simp only [positions, Finset.mem_filter, Finset.mem_range]
      refine and_congr_right fun hi => ?_
      rw [List.getElem?_append_left hi]
    rw [positions, List.length_append, List.length_singleton, Finset.range_add_one,
      Finset.filter_insert, hrest, List.count_append]
    by_cases hb : b = a
    · rw [if_pos (by simp [hb]), Finset.card_insert_of_notMem (by simp), ih]
      simp [hb]
    · rw [if_neg (by simp [hb]), ih]
      simp [hb]

end Foundations
