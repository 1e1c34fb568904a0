import Mathlib.Algebra.BigOperators.Group.List.Basic
import Mathlib.Algebra.Group.Submonoid.Defs
import Mathlib.Algebra.Order.Group.Abs
import Mathlib.Order.Basic
import Mathlib.Tactic.Abel

/-!
# Accounts that start anew with each period

An account adds up the entries of a period. An entry that is posted after the end of the period is
the first one of the next period, which begins with it, and all that was there before is settled
(`Account.post`). Two accounts whose periods end at the same time go through the same periods under
the same entries; they stay as far apart as they are until a period begins, and are equal from then
on (`Account.postAll_compare`).
-/

namespace Foundations

/-- An entry of an owner, with the time at which it is posted. -/
structure Entry (ι τ R : Type*) where
  owner : ι
  amount : R
  time : τ
  deriving DecidableEq

/-- The entries of a period, with its end and what the account stood at before them. -/
structure Account (ι τ R : Type*) where
  ends : Option τ
  opening : R
  entries : List (Entry ι τ R)
  deriving DecidableEq

namespace Account

variable {ι τ R : Type*}

/-- What the entries add up to, on top of the opening. -/
def total [AddMonoid R] (a : Account ι τ R) : R := a.opening + (a.entries.map Entry.amount).sum

theorem total_append [AddMonoid R] (a : Account ι τ R) (l : List (Entry ι τ R)) :
    total { a with entries := a.entries ++ l } = a.total + (l.map Entry.amount).sum := by
  simp [total, add_assoc]

/-- Has the period ended, or has none begun? -/
def isOver [LinearOrder τ] (now : τ) (a : Account ι τ R) : Bool :=
  match a.ends with
  | none => true
  | some ends => ends ≤ now

theorem isOver_congr [LinearOrder τ] {a a' : Account ι τ R} (h : a.ends = a'.ends) (now : τ) :
    a.isOver now = a'.isOver now := by
  rw [isOver, isOver, h]

section Post

variable [LinearOrder τ] [Add τ] [Zero R] (period : τ)

/-- Post an entry; it is the first one of the next period if that is due. -/
def post (a : Account ι τ R) (e : Entry ι τ R) : Account ι τ R :=
  if a.isOver e.time then { ends := some (e.time + period), opening := 0, entries := [e] }
  else { a with entries := a.entries ++ [e] }

/-- Post the entries, one after the other. -/
def postAll (a : Account ι τ R) (l : List (Entry ι τ R)) : Account ι τ R := l.foldl (post period) a

@[simp] theorem postAll_nil (a : Account ι τ R) : a.postAll period [] = a := rfl

@[simp] theorem postAll_cons (a : Account ι τ R) (e : Entry ι τ R) (l : List (Entry ι τ R)) :
    a.postAll period (e :: l) = (a.post period e).postAll period l := rfl

theorem postAll_append (a : Account ι τ R) (l l' : List (Entry ι τ R)) :
    a.postAll period (l ++ l') = (a.postAll period l).postAll period l' := List.foldl_append

theorem ends_post (a : Account ι τ R) (e : Entry ι τ R) : (a.post period e).ends =
    if a.isOver e.time then some (e.time + period) else a.ends := by
  unfold post
  split_ifs <;> rfl

/-- The entries of an account are of those that were there and those that have been posted. -/
theorem entries_postAll_sublist (a : Account ι τ R) (l : List (Entry ι τ R)) :
    (a.postAll period l).entries.Sublist (a.entries ++ l) := by
  induction l generalizing a with
  | nil => simp
  | cons e l ih =>
    rw [postAll_cons]
    refine (ih (a.post period e)).trans ?_
    unfold post
    split_ifs
    · exact (List.sublist_append_right a.entries (e :: l))
    · simp

end Post

section Compare

variable [LinearOrder τ] [Add τ] [AddCommGroup R] (period : τ)

theorem total_post (a : Account ι τ R) (e : Entry ι τ R) : (a.post period e).total =
    if a.isOver e.time then e.amount else a.total + e.amount := by
  unfold post
  split_ifs
  · simp [total]
  · rw [total_append]
    simp

/-- The total stays in a submonoid that the amounts are in. -/
theorem total_postAll_mem (S : AddSubmonoid R) {a : Account ι τ R} (ha : a.total ∈ S)
    {l : List (Entry ι τ R)} (hl : ∀ e ∈ l, e.amount ∈ S) : (a.postAll period l).total ∈ S := by
  induction l generalizing a with
  | nil => exact ha
  | cons e l ih =>
    have he := hl e (by simp)
    refine ih ?_ fun e' he' => hl e' (by simp [he'])
    rw [total_post]
    split_ifs
    · exact he
    · exact S.add_mem ha he

/-- Two accounts of one period after the same entry. -/
theorem post_compare {a a' : Account ι τ R} (h : a.ends = a'.ends) (e : Entry ι τ R) :
    (a.post period e).ends = (a'.post period e).ends ∧
      (((a.post period e).total - (a'.post period e).total = a.total - a'.total ∧
          (a.post period e).entries = a.entries ++ [e]) ∨
        ((a.post period e).total = (a'.post period e).total ∧
          (a.post period e).entries = [e])) := by
  unfold post
  rw [isOver_congr h]
  split_ifs
  · exact ⟨rfl, .inr ⟨rfl, rfl⟩⟩
  · refine ⟨h, .inl ⟨?_, rfl⟩⟩
    rw [total_append, total_append]
    abel

/-- **Two accounts of one period after the same entries**: they have come to the same period, and
are as far apart as before, or are equal since a period has begun. -/
theorem postAll_compare {a a' : Account ι τ R} (h : a.ends = a'.ends) (l : List (Entry ι τ R)) :
    (a.postAll period l).ends = (a'.postAll period l).ends ∧
      (((a.postAll period l).total - (a'.postAll period l).total = a.total - a'.total ∧
          (a.postAll period l).entries = a.entries ++ l) ∨
        ((a.postAll period l).total = (a'.postAll period l).total ∧
          (a.postAll period l).entries ≠ [])) := by
  induction l generalizing a a' with
  | nil => exact ⟨h, .inl ⟨rfl, (List.append_nil _).symm⟩⟩
  | cons e l ih =>
    obtain ⟨hends, hone⟩ := post_compare period h e
    obtain ⟨hends', hrest⟩ := ih hends
    refine ⟨hends', ?_⟩
    simp only [postAll_cons]
    rcases hrest with ⟨hdiff, hentries⟩ | hrest
    · rcases hone with ⟨hdiff₁, hentries₁⟩ | ⟨heq, hentries₁⟩
      · refine .inl ⟨hdiff.trans hdiff₁, ?_⟩
        rw [hentries, hentries₁, List.append_assoc, List.singleton_append]
      · refine .inr ⟨?_, ?_⟩
        · rw [heq, sub_self] at hdiff
          exact sub_eq_zero.mp hdiff
        · rw [hentries, hentries₁]
          simp
    · exact .inr hrest

end Compare

end Account

end Foundations
