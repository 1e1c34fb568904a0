import Mathlib.Data.List.Basic

/-!
# The first match of a loop that may raise

`firstMatch f l` is the loop that runs over `l`, returns the first result that `f` finds and
moves on where `f` finds nothing. The outer option says whether the loop raised, the inner one
whether there was a match. A loop over nested collections is `firstMatch` of `firstMatch`.
-/

namespace Foundations

variable {α β γ : Type*}

/-- Return the first match of `f` in the list; `none` when `f` raises before one is found. -/
def firstMatch (f : α → Option (Option β)) : List α → Option (Option β)
  | [] => some none
  | a :: l =>
    match f a with
    | none => none
    | some (some b) => some (some b)
    | some none => firstMatch f l

variable {f : α → Option (Option β)}

@[simp] theorem firstMatch_nil : firstMatch f [] = some none := rfl

theorem firstMatch_cons_of_match {a : α} {b : β} (h : f a = some (some b)) (l : List α) :
    firstMatch f (a :: l) = some (some b) := by
  simp [firstMatch, h]

theorem firstMatch_cons_of_none {a : α} (h : f a = some none) (l : List α) :
    firstMatch f (a :: l) = firstMatch f l := by
  simp [firstMatch, h]

/-- A match comes from an element before which nothing matched or raised. -/
theorem firstMatch_eq_match {l : List α} {b : β} (h : firstMatch f l = some (some b)) :
    ∃ pre a post, l = pre ++ a :: post ∧ (∀ x ∈ pre, f x = some none) ∧ f a = some (some b) := by
  induction l with
  | nil => simp at h
  | cons a l ih =>
    rcases ha : f a with _ | _ | b'
    · simp [firstMatch, ha] at h
    · rw [firstMatch_cons_of_none ha] at h
      obtain ⟨pre, a', post, rfl, hpre, hb⟩ := ih h
      exact ⟨a :: pre, a', post, rfl, by simpa [ha] using hpre, hb⟩
    · rw [firstMatch_cons_of_match ha] at h
      exact ⟨[], a, l, rfl, by simp, by rw [ha, h]⟩

/-- What holds of every match of `f` on the list holds of the match of the loop. -/
theorem firstMatch_sound {l : List α} {b : β} (h : firstMatch f l = some (some b)) :
    ∃ a ∈ l, f a = some (some b) := by
  obtain ⟨pre, a, post, rfl, -, hb⟩ := firstMatch_eq_match h
  exact ⟨a, by simp, hb⟩

/-- A loop whose body never raises does not raise. -/
theorem firstMatch_isSome {l : List α} (h : ∀ a ∈ l, (f a).isSome) : (firstMatch f l).isSome := by
  induction l with
  | nil => rfl
  | cons a l ih =>
    have ha := h a (by simp)
    rcases hfa : f a with _ | _ | b
    · simp [hfa] at ha
    · rw [firstMatch_cons_of_none hfa]
      exact ih fun x hx => h x (by simp [hx])
    · simp [firstMatch_cons_of_match hfa]

/-- A loop whose body never raises finds nothing exactly when the body finds nothing anywhere. -/
theorem firstMatch_eq_none {l : List α} :
    firstMatch f l = some none ↔ ∀ a ∈ l, f a = some none := by
  induction l with
  | nil => simp
  | cons a l ih =>
    rcases hfa : f a with _ | _ | b
    · simp [firstMatch, hfa]
    · rw [firstMatch_cons_of_none hfa, ih]
      simp [hfa]
    · simp [firstMatch_cons_of_match hfa, hfa]

theorem firstMatch_append {l l' : List α} : firstMatch f (l ++ l') =
    (firstMatch f l).bind fun r => r.elim (firstMatch f l') fun b => some (some b) := by
  induction l with
  | nil => rfl
  | cons a l ih =>
    rcases hfa : f a with _ | _ | b
    · simp [firstMatch, hfa]
    · rw [List.cons_append, firstMatch_cons_of_none hfa, firstMatch_cons_of_none hfa, ih]
    · rw [List.cons_append, firstMatch_cons_of_match hfa, firstMatch_cons_of_match hfa]
      rfl

theorem firstMatch_map (g : γ → α) (l : List γ) :
    firstMatch f (l.map g) = firstMatch (fun c => f (g c)) l := by
  induction l with
  | nil => rfl
  | cons c l ih => simp only [List.map_cons, firstMatch, ih]

/-- A loop over nested collections is a loop over the pairs. -/
theorem firstMatch_flatMap {g : γ → List α} {l : List γ} :
    firstMatch f (l.flatMap g) = firstMatch (fun c => firstMatch f (g c)) l := by
  induction l with
  | nil => rfl
  | cons c l ih =>
    rw [List.flatMap_cons, firstMatch_append]
    rcases hfc : firstMatch f (g c) with _ | _ | b
    · simp [firstMatch, hfc]
    · rw [firstMatch_cons_of_none (f := fun c => firstMatch f (g c)) hfc, ← ih]
      rfl
    · rw [firstMatch_cons_of_match (f := fun c => firstMatch f (g c)) hfc]
      rfl

/-- A loop whose body never raises finds the first element that satisfies a test. -/
theorem firstMatch_eq_find {p : α → Bool} {g : α → β} {l : List α}
    (h : ∀ a ∈ l, f a = some (if p a then some (g a) else none)) :
    firstMatch f l = some ((l.find? p).map g) := by
  induction l with
  | nil => rfl
  | cons a l ih =>
    have ha := h a List.mem_cons_self
    cases hp : p a with
    | true =>
      rw [firstMatch_cons_of_match (by rw [ha, hp]; rfl), List.find?_cons_of_pos hp]
      rfl
    | false =>
      rw [firstMatch_cons_of_none (by rw [ha, hp]; rfl), List.find?_cons_of_neg (by simp [hp])]
      exact ih fun b hb => h b (.tail _ hb)

/-- The same when only a part of each result is known. -/
theorem firstMatch_map_eq_find {p : α → Bool} {g : β → γ} {h : α → γ} {l : List α}
    (hf : ∀ a ∈ l, ∃ r, f a = some r ∧ r.map g = if p a then some (h a) else none) :
    ∃ r, firstMatch f l = some r ∧ r.map g = (l.find? p).map h := by
  induction l with
  | nil => exact ⟨none, rfl, rfl⟩
  | cons a l ih =>
    obtain ⟨r, hfa, hr⟩ := hf a List.mem_cons_self
    cases hp : p a with
    | true =>
      rw [hp, if_pos rfl] at hr
      obtain ⟨b, rfl, hb⟩ := Option.map_eq_some_iff.mp hr
      refine ⟨some b, firstMatch_cons_of_match hfa l, ?_⟩
      rw [List.find?_cons_of_pos hp, Option.map_some, hb, Option.map_some]
    | false =>
      rw [hp, if_neg (by simp)] at hr
      obtain rfl := Option.map_eq_none_iff.mp hr
      obtain ⟨r', hr', hfind⟩ := ih fun b hb => hf b (.tail _ hb)
      refine ⟨r', by rw [firstMatch_cons_of_none hfa, hr'], ?_⟩
      rw [List.find?_cons_of_neg (by simp [hp]), hfind]

/-- A stronger test finds the same element exactly when the element found passes it. -/
theorem find?_eq_iff_of_imp {p q : α → Bool} (himp : ∀ a, p a → q a) {l : List α} :
    l.find? p = l.find? q ↔ ∀ a, l.find? q = some a → p a := by
  constructor
  · intro heq a ha
    exact List.find?_some (heq.trans ha)
  · intro hfound
    induction l with
    | nil => rfl
    | cons a l ih =>
      by_cases hq : q a
      · have hp : p a := hfound a (List.find?_cons_of_pos hq)
        rw [List.find?_cons_of_pos hq, List.find?_cons_of_pos hp]
      · have hp : ¬ p a := fun hp => hq (himp a hp)
        rw [List.find?_cons_of_neg hq] at hfound ⊢
        rw [List.find?_cons_of_neg hp]
        exact ih hfound

/-! ## Loops that return -/

/-- The loop returned, with nothing or with a match that is good. -/
def Returns (good : β → Prop) (r : Option (Option β)) : Prop := ∃ m, r = some m ∧ ∀ b ∈ m, good b

/-- Every element is fine, up to and including the first one that stops the loop. -/
def UpToFirst (stop ok : α → Prop) : List α → Prop
  | [] => True
  | a :: l => ok a ∧ (¬ stop a → UpToFirst stop ok l)

theorem UpToFirst.congr {stop stop' ok ok' : α → Prop} {l : List α}
    (hok : ∀ a ∈ l, (ok a ↔ ok' a)) (hstop : ∀ a ∈ l, ok a → (stop a ↔ stop' a)) :
    UpToFirst stop ok l ↔ UpToFirst stop' ok' l := by
  induction l with
  | nil => rfl
  | cons a l ih =>
    have ih := ih (fun b hb => hok b (.tail _ hb)) fun b hb => hstop b (.tail _ hb)
    have ha := hok a List.mem_cons_self
    constructor
    · rintro ⟨h, hrest⟩
      refine ⟨ha.mp h, fun hn => ih.mp (hrest fun hs => hn ?_)⟩
      exact (hstop a List.mem_cons_self h).mp hs
    · rintro ⟨h, hrest⟩
      refine ⟨ha.mpr h, fun hn => ih.mpr (hrest fun hs => hn ?_)⟩
      exact (hstop a List.mem_cons_self (ha.mpr h)).mpr hs

theorem UpToFirst.imp {stop ok ok' : α → Prop} {l : List α} (himp : ∀ a ∈ l, ok a → ok' a)
    (h : UpToFirst stop ok l) : UpToFirst stop ok' l := by
  induction l with
  | nil => trivial
  | cons a l ih =>
    obtain ⟨ha, hrest⟩ := h
    refine ⟨himp a List.mem_cons_self ha, fun hn => ?_⟩
    exact ih (fun b hb => himp b (.tail _ hb)) (hrest hn)

/-- A loop finds the first element that satisfies a test, if its body applies the test up to
there. -/
theorem UpToFirst.firstMatch_eq_find {p : α → Bool} {g : α → β} {l : List α}
    (h : UpToFirst (fun a => ∃ b, f a = some (some b))
      (fun a => f a = some (if p a then some (g a) else none)) l) :
    firstMatch f l = some ((l.find? p).map g) := by
  induction l with
  | nil => rfl
  | cons a l ih =>
    obtain ⟨ha, hrest⟩ := h
    cases hp : p a with
    | true =>
      rw [firstMatch_cons_of_match (by rw [ha, hp]; rfl), List.find?_cons_of_pos hp]
      rfl
    | false =>
      have hnone : f a = some none := by
        rw [ha, hp]
        rfl
      rw [firstMatch_cons_of_none hnone, List.find?_cons_of_neg (by simp [hp])]
      apply ih
      apply hrest
      rintro ⟨b, hb⟩
      rw [hnone] at hb
      cases hb

/-- **A loop returns if and only if its body does, up to the first match.** -/
theorem returns_firstMatch_iff {good : β → Prop} {l : List α} :
    Returns good (firstMatch f l) ↔
      UpToFirst (fun a => ∃ b, f a = some (some b)) (fun a => Returns good (f a)) l := by
  induction l with
  | nil => exact iff_of_true ⟨none, rfl, nofun⟩ trivial
  | cons a l ih =>
    rcases hfa : f a with _ | _ | b
    · apply iff_of_false
      · rintro ⟨m, hm, -⟩
        simp [firstMatch, hfa] at hm
      · rintro ⟨⟨m, hm, -⟩, -⟩
        rw [hfa] at hm
        cases hm
    · rw [firstMatch_cons_of_none hfa, ih]
      constructor
      · intro h
        exact ⟨⟨none, hfa, nofun⟩, fun _ => h⟩
      · rintro ⟨-, hrest⟩
        apply hrest
        rintro ⟨b, hb⟩
        rw [hfa] at hb
        cases hb
    · rw [firstMatch_cons_of_match hfa]
      constructor
      · rintro ⟨m, hm, hgood⟩
        exact ⟨⟨m, hfa.trans hm, hgood⟩, fun hn => absurd ⟨b, hfa⟩ hn⟩
      · rintro ⟨⟨m, hm, hgood⟩, -⟩
        exact ⟨m, hfa.symm.trans hm, hgood⟩

/-- A loop that returns has a match exactly when some element has one. -/
theorem firstMatch_match_iff {good : β → Prop} {l : List α}
    (h : Returns good (firstMatch f l)) :
    (∃ b, firstMatch f l = some (some b)) ↔ ∃ a ∈ l, ∃ b, f a = some (some b) := by
  constructor
  · rintro ⟨b, hb⟩
    obtain ⟨a, ha, hfa⟩ := firstMatch_sound hb
    exact ⟨a, ha, b, hfa⟩
  · rintro ⟨a, ha, b, hfa⟩
    obtain ⟨m, hm, -⟩ := h
    cases m with
    | none =>
      have hnone := firstMatch_eq_none.mp hm a ha
      rw [hfa] at hnone
      cases hnone
    | some b' => exact ⟨b', hm⟩

/-- A loop that returns still does, with the same result, when elements without a match are made to
find nothing. -/
theorem firstMatch_of_skip {f' : α → Option (Option β)} {l : List α} {r : Option β}
    (h : firstMatch f l = some r)
    (hskip : ∀ a ∈ l, f' a = f a ∨ (f' a = some none ∧ ∀ b, f a ≠ some (some b))) :
    firstMatch f' l = some r := by
  induction l with
  | nil => exact h
  | cons a l ih =>
    have ih := fun h => ih h fun b hb => hskip b (.tail _ hb)
    rcases hfa : f a with _ | _ | b
    · simp [firstMatch, hfa] at h
    · rw [firstMatch_cons_of_none hfa] at h
      have hfa' : f' a = some none := by
        rcases hskip a List.mem_cons_self with heq | ⟨hnone, -⟩
        · rw [heq, hfa]
        · exact hnone
      rw [firstMatch_cons_of_none hfa', ih h]
    · rw [firstMatch_cons_of_match hfa] at h
      have hfa' : f' a = some (some b) := by
        rcases hskip a List.mem_cons_self with heq | ⟨-, hno⟩
        · rw [heq, hfa]
        · exact absurd hfa (hno b)
      rw [firstMatch_cons_of_match hfa', h]

/-! ## Loops that collect -/

/-- A loop that collects a result for each element raises unless all of them have one. -/
theorem mapM_eq_some {g : α → Option β} {l : List α} {r : List β} :
    l.mapM g = some r ↔ l.map g = r.map some := by
  induction l generalizing r with
  | nil => cases r <;> simp
  | cons a l ih =>
    simp only [List.mapM_cons, Option.bind_eq_bind, Option.bind_eq_some_iff, Option.pure_def,
      Option.some.injEq, ih, List.map_cons]
    constructor
    · rintro ⟨b, hb, r', hr', rfl⟩
      rw [hb, hr', List.map_cons]
    · intro h
      cases r with
      | nil => cases h
      | cons b r' =>
        obtain ⟨hb, hr'⟩ := List.cons.inj h
        exact ⟨b, hb, r', hr', rfl⟩

theorem mapM_concat {g : α → Option β} (l : List α) (a : α) :
    (l ++ [a]).mapM g = (l.mapM g).bind fun r => (g a).map fun b => r ++ [b] := by
  rw [List.mapM_append]
  cases l.mapM g with
  | none => rfl
  | some r => cases hg : g a <;> simp [hg]

theorem exists_of_mapM {g : α → Option β} {l : List α} {r : List β} (h : l.mapM g = some r) {a : α}
    (ha : a ∈ l) : ∃ b ∈ r, g a = some b := by
  have hmem : g a ∈ r.map some := by
    rw [← mapM_eq_some.mp h]
    exact List.mem_map_of_mem ha
  obtain ⟨b, hb, heq⟩ := List.mem_map.mp hmem
  exact ⟨b, hb, heq.symm⟩

theorem mem_of_mapM {g : α → Option β} {l : List α} {r : List β} (h : l.mapM g = some r) {b : β}
    (hb : b ∈ r) : ∃ a ∈ l, g a = some b := by
  have hmem : some b ∈ l.map g := by
    rw [mapM_eq_some.mp h]
    exact List.mem_map_of_mem hb
  exact List.mem_map.mp hmem

theorem exists_mapM {g : α → Option β} {l : List α} (h : ∀ a ∈ l, (g a).isSome) :
    ∃ r, l.mapM g = some r := by
  induction l with
  | nil => exact ⟨[], rfl⟩
  | cons a l ih =>
    obtain ⟨b, hb⟩ := Option.isSome_iff_exists.mp (h a List.mem_cons_self)
    obtain ⟨r, hr⟩ := ih fun a ha => h a (List.mem_cons_of_mem _ ha)
    exact ⟨b :: r, by simp [hb, hr]⟩

end Foundations
