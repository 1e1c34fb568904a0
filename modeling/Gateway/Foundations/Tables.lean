import Mathlib.Algebra.BigOperators.Group.List.Basic
import Mathlib.Data.List.Nodup
import Mathlib.Logic.Function.Basic

/-!
# Tables and the sessions over them

A table is a list of rows with distinct primary keys. A session works on copies of rows: a
`Tracked` row is the copy as it was read or last flushed (`base`) together with its current
value (`cur`), and flushing it writes over the stored row exactly the columns in which the two
differ (`writeBackAs`), after a check of their values (`checkBack`). `Table.flush` writes a
session's tracked rows over a table.
-/

namespace Foundations

/-- Rows that carry a primary key. -/
class Keyed (α : Type*) (κ : outParam Type*) where
  key : α → κ

/-- Rows with distinct primary keys. -/
structure Table (α : Type*) {κ : Type*} [Keyed α κ] where
  rows : List α
  nodup : (rows.map Keyed.key).Nodup

/-- A session's copy of a row. -/
structure Tracked (α : Type*) where
  base : α
  cur : α

/-- Write a column that changed over the stored one, in the form in which the column stores it,
and leave one that did not. -/
def writeBackAs {τ : Type*} [DecidableEq τ] (store : τ → τ) (base cur stored : τ) : τ :=
  if cur = base then stored else store cur

/-- Write back a column that is stored as it is. -/
abbrev writeBack {τ : Type*} [DecidableEq τ] (base cur stored : τ) : τ :=
  writeBackAs (fun q => q) base cur stored

/-- Does a changed column pass the check of its type? -/
def checkBack {τ : Type*} [DecidableEq τ] (fits : τ → Bool) (base cur : τ) : Bool :=
  cur = base || fits cur

section WriteBack

variable {τ : Type*} [DecidableEq τ] {store : τ → τ} {fits : τ → Bool}

@[simp] theorem writeBackAs_clean (base stored : τ) :
    writeBackAs store base base stored = stored := if_pos rfl

/-- Over a stored column that is still the one that was read, the current value is written. -/
theorem writeBackAs_fresh {cur : τ} (hs : store cur = cur) (base : τ) :
    writeBackAs store base cur base = cur := by
  unfold writeBackAs
  split_ifs with h
  · exact h.symm
  · exact hs

@[simp] theorem writeBack_fresh (base cur : τ) : writeBack base cur base = cur :=
  writeBackAs_fresh rfl base

@[simp] theorem checkBack_clean (base : τ) : checkBack fits base base := by
  simp [checkBack]

theorem checkBack_dirty {base cur : τ} (h : cur ≠ base) : checkBack fits base cur = fits cur := by
  simp [checkBack, h]

end WriteBack

namespace Tracked

variable {α : Type*}

/-- A copy just read. -/
def load (row : α) : Tracked α := ⟨row, row⟩

/-- The copy after its changes have been flushed. -/
def sync (t : Tracked α) : Tracked α := ⟨t.cur, t.cur⟩

/-- Change the current value. -/
def set (t : Tracked α) (cur : α) : Tracked α := ⟨t.base, cur⟩

@[simp] theorem load_base (row : α) : (load row).base = row := rfl
@[simp] theorem load_cur (row : α) : (load row).cur = row := rfl
@[simp] theorem sync_base (t : Tracked α) : t.sync.base = t.cur := rfl
@[simp] theorem sync_cur (t : Tracked α) : t.sync.cur = t.cur := rfl
@[simp] theorem set_base (t : Tracked α) (cur : α) : (t.set cur).base = t.base := rfl
@[simp] theorem set_cur (t : Tracked α) (cur : α) : (t.set cur).cur = cur := rfl

theorem sync_of_clean {t : Tracked α} (h : t.cur = t.base) : t.sync = t := by
  cases t
  cases h
  rfl

end Tracked

/-- Pairs are distinct if the second components are, among those with one first component. -/
theorem nodup_of_groups {κ β : Type*} [DecidableEq κ] {l : List (κ × β)}
    (h : ∀ k, ((l.filter fun x => x.1 = k).map Prod.snd).Nodup) : l.Nodup := by
  induction l with
  | nil => exact List.nodup_nil
  | cons x l ih =>
    have hx := h x.1
    rw [List.filter_cons_of_pos (by simp), List.map_cons, List.nodup_cons] at hx
    refine List.nodup_cons.mpr ⟨fun hmem => hx.1 ?_, ih fun k => ?_⟩
    · exact List.mem_map_of_mem (List.mem_filter.mpr ⟨hmem, by simp⟩)
    · exact (h k).sublist (((List.sublist_cons_self x l).filter _).map _)

/-- Among the sessions that are under way after one of them has moved on or ended, another is as
before. -/
theorem eq_some_of_update {ι α : Type*} [DecidableEq ι] {f : ι → Option α} {i j : ι}
    {v : Option α} {a : α} (h : Function.update f i v j = some a) :
    (j = i ∧ v = some a) ∨ (j ≠ i ∧ f j = some a) := by
  by_cases hj : j = i
  · subst hj
    rw [Function.update_self] at h
    exact .inl ⟨rfl, h⟩
  · rw [Function.update_of_ne hj] at h
    exact .inr ⟨hj, h⟩

namespace Table

variable {α κ : Type*} [Keyed α κ]

theorem eq_of_key_eq (t : Table α) {r r' : α} (h : r ∈ t.rows) (h' : r' ∈ t.rows)
    (hk : Keyed.key r = Keyed.key r') : r = r' :=
  List.inj_on_of_nodup_map t.nodup h h' hk

variable [DecidableEq κ]

/-- The row with a primary key. -/
def find? (t : Table α) (k : κ) : Option α := t.rows.find? fun r => Keyed.key r = k

theorem find?_eq_some {t : Table α} {k : κ} {r : α} :
    t.find? k = some r ↔ r ∈ t.rows ∧ Keyed.key r = k := by
  constructor
  · intro h
    exact ⟨List.mem_of_find?_eq_some h, by simpa using List.find?_some h⟩
  · rintro ⟨hr, rfl⟩
    cases h : t.find? (Keyed.key r) with
    | none =>
      have := List.find?_eq_none.mp h r hr
      simp at this
    | some r' =>
      have hr' : Keyed.key r' = Keyed.key r := by simpa using List.find?_some h
      rw [t.eq_of_key_eq (List.mem_of_find?_eq_some h) hr hr']

theorem find?_eq_none {t : Table α} {k : κ} :
    t.find? k = none ↔ ∀ r ∈ t.rows, Keyed.key r ≠ k := by
  simp [find?]

theorem find?_of_mem {t : Table α} {r : α} (h : r ∈ t.rows) :
    t.find? (Keyed.key r) = some r := find?_eq_some.mpr ⟨h, rfl⟩

/-- Change rows without changing their keys. -/
def update (t : Table α) (f : α → α) (hf : ∀ r, Keyed.key (f r) = Keyed.key r) : Table α where
  rows := t.rows.map f
  nodup := by
    have : (t.rows.map f).map Keyed.key = t.rows.map Keyed.key := by
      rw [List.map_map]
      exact List.map_congr_left fun r _ => hf r
    rw [this]
    exact t.nodup

theorem find?_update (t : Table α) (f : α → α) (hf : ∀ r, Keyed.key (f r) = Keyed.key r) (k : κ) :
    (t.update f hf).find? k = (t.find? k).map f := by
  cases h : t.find? k with
  | none =>
    refine find?_eq_none.mpr fun r hr => ?_
    obtain ⟨r₀, hr₀, rfl⟩ := List.mem_map.mp hr
    rw [hf]
    exact find?_eq_none.mp h r₀ hr₀
  | some r =>
    obtain ⟨hr, rfl⟩ := find?_eq_some.mp h
    exact find?_eq_some.mpr ⟨List.mem_map_of_mem hr, hf r⟩

/-- Insert a row; `none` when its primary key is taken. -/
def insert? (t : Table α) (r : α) : Option (Table α) :=
  if h : Keyed.key r ∈ t.rows.map Keyed.key then none
  else some
    { rows := t.rows ++ [r]
      nodup := by
        rw [List.map_append, List.map_singleton, List.nodup_append]
        refine ⟨t.nodup, List.nodup_singleton _, ?_⟩
        intro a ha b hb
        obtain rfl := List.mem_singleton.mp hb
        rintro rfl
        exact h ha }

theorem insert?_eq_some {t t' : Table α} {r : α} (h : t.insert? r = some t') :
    t.find? (Keyed.key r) = none ∧ t'.rows = t.rows ++ [r] := by
  unfold insert? at h
  split_ifs at h with hk
  obtain rfl := Option.some.inj h
  refine ⟨find?_eq_none.mpr fun r' hr' he => hk ?_, rfl⟩
  rw [← he]
  exact List.mem_map_of_mem hr'

theorem find?_insert? {t t' : Table α} {r : α} (h : t.insert? r = some t') (k : κ) :
    t'.find? k = if Keyed.key r = k then some r else t.find? k := by
  obtain ⟨hn, hrows⟩ := insert?_eq_some h
  have hfind : t'.find? k = (t.find? k).or (if Keyed.key r = k then some r else none) := by
    rw [find?, hrows, List.find?_append]
    congr 1
    by_cases hk : Keyed.key r = k <;> simp [hk]
  rw [hfind]
  split_ifs with hk
  · subst hk
    rw [hn, Option.none_or]
  · rw [Option.or_none]

theorem insert?_eq_none {t : Table α} {r : α} (h : t.insert? r = none) :
    ∃ r', t.find? (Keyed.key r) = some r' := by
  unfold insert? at h
  split_ifs at h with hk
  obtain ⟨r', hr', he⟩ := List.mem_map.mp hk
  exact ⟨r', find?_eq_some.mpr ⟨hr', he⟩⟩

/-- Write a row over the one with its key, or insert it. -/
def put (t : Table α) (r : α) : Table α :=
  match t.insert? r with
  | some t' => t'
  | none => t.update (fun stored => if Keyed.key stored = Keyed.key r then r else stored)
      fun stored => by
        split_ifs with h
        · exact h.symm
        · rfl

theorem find?_put (t : Table α) (r : α) (k : κ) :
    (t.put r).find? k = if Keyed.key r = k then some r else t.find? k := by
  unfold put
  cases h : t.insert? r with
  | some t' => exact find?_insert? h k
  | none =>
    simp only [find?_update]
    obtain ⟨r', hr'⟩ := insert?_eq_none h
    split_ifs with hk
    · subst hk
      simp [hr', (find?_eq_some.mp hr').2]
    · cases hf : t.find? k with
      | none => rfl
      | some r₁ =>
        obtain ⟨-, rfl⟩ := find?_eq_some.mp hf
        rw [Option.map_some, if_neg (Ne.symm hk)]

/-- Write the tracked copies of a session over the stored rows. -/
def flush (t : Table α) (copies : κ → Option (Tracked α)) (write : Tracked α → α → α)
    (hw : ∀ c r, Keyed.key (write c r) = Keyed.key r) : Table α :=
  t.update (fun r => (copies (Keyed.key r)).elim r (write · r))
    fun r => by cases copies (Keyed.key r) <;> simp [hw]

theorem find?_flush (t : Table α) (copies : κ → Option (Tracked α)) (write : Tracked α → α → α)
    (hw : ∀ c r, Keyed.key (write c r) = Keyed.key r) (k : κ) :
    (t.flush copies write hw).find? k =
      (t.find? k).map fun r => (copies k).elim r (write · r) := by
  rw [flush, find?_update]
  cases h : t.find? k with
  | none => rfl
  | some r =>
    obtain ⟨-, rfl⟩ := find?_eq_some.mp h
    rfl

/-- A sum over items that each belong to a row is the sum over the rows of the items of each. -/
theorem sum_rows {M β : Type*} [AddCommMonoid M] (t : Table α) (g : β → κ) (w : β → M) (l : List β)
    (hl : ∀ b ∈ l, ∃ r ∈ t.rows, Keyed.key r = g b) :
    (t.rows.map fun r => ((l.filter fun b => g b = Keyed.key r).map w).sum).sum =
      (l.map w).sum := by
  classical
  induction l with
  | nil => simp
  | cons b l ih =>
    obtain ⟨r₀, hr₀, hk₀⟩ := hl b (by simp)
    -- only the row of `b` sees the new item
    have hsplit : ∀ r ∈ t.rows, (((b :: l).filter fun b => g b = Keyed.key r).map w).sum =
        (if r = r₀ then w b else 0) + ((l.filter fun b => g b = Keyed.key r).map w).sum := by
      intro r hr
      by_cases hrr : g b = Keyed.key r
      · obtain rfl := t.eq_of_key_eq hr hr₀ (hrr.symm.trans hk₀.symm)
        simp [hrr]
      · have hne : r ≠ r₀ := fun he => hrr (by rw [he, hk₀])
        simp [hrr, hne]
    have hone : (t.rows.map fun r => if r = r₀ then w b else 0).sum = w b := by
      have hnd : t.rows.Nodup := List.Nodup.of_map _ t.nodup
      rw [List.sum_map_eq_nsmul_single r₀ _ fun r hr _ => if_neg hr,
        List.count_eq_one_of_mem hnd hr₀, one_nsmul, if_pos rfl]
    rw [List.map_congr_left hsplit, List.sum_map_add, hone, List.map_cons, List.sum_cons,
      ih fun b hb => hl b (by simp [hb])]

end Table

end Foundations
