import Mathlib.Algebra.BigOperators.Group.List.Basic
import Mathlib.Algebra.Order.BigOperators.Group.List
import Mathlib.Algebra.Order.Field.Basic
import Mathlib.Tactic.Linarith

/-!
# Ledgers of claims on shared accounts

Several owners draw on accounts that they share. A ledger is the list of their claims, oldest
first; the total of an account (`Ledger.total`) is what has been claimed of it. A claim is covered
when the balance that it was granted on reached the total of its account before it plus a fraction
of its own amount (`Ledger.CoveredFrom`). The part of an amount that the fraction forgives does not
add up: the total of an account stays within the forgiven part of the last claim alone
(`Ledger.total_le_of_covered`), because every earlier shortfall was part of the total that the last
balance had to reach.
-/

namespace Foundations

/-- A claim of an owner on an account, with the balance it was granted on where that is known. -/
structure Claim (ι κ R : Type*) where
  owner : ι
  account : κ
  amount : R
  balance : Option R
  deriving DecidableEq

namespace Ledger

variable {ι κ R : Type*} [DecidableEq κ]

section Total

variable [AddCommMonoid R]

/-- What has been claimed of an account. -/
def total (l : List (Claim ι κ R)) (k : κ) : R :=
  ((l.filter fun c => c.account = k).map Claim.amount).sum

@[simp] theorem total_nil (k : κ) : total ([] : List (Claim ι κ R)) k = 0 := by
  simp [total]

@[simp] theorem total_append (l l' : List (Claim ι κ R)) (k : κ) :
    total (l ++ l') k = total l k + total l' k := by
  simp [total]

theorem total_cons (c : Claim ι κ R) (l : List (Claim ι κ R)) (k : κ) :
    total (c :: l) k = (if c.account = k then c.amount else 0) + total l k := by
  by_cases h : c.account = k <;> simp [total, h]

theorem total_eq_zero {l : List (Claim ι κ R)} {k : κ} (h : ∀ c ∈ l, c.account ≠ k) :
    total l k = 0 := by
  have : l.filter (fun c => c.account = k) = [] := by simpa using h
  simp [total, this]

theorem total_eq_zero_of_not_mem {l : List (Claim ι κ R)} {k : κ}
    (h : ¬ ∃ c ∈ l, c.account = k) : total l k = 0 :=
  total_eq_zero fun c hc he => h ⟨c, hc, he⟩

end Total

section Covered

variable [Field R] [LinearOrder R]

/-- Each claim is granted on a balance that covers the total before it and the fraction of its
amount. Where claims may be negative, this is asked of a positive claim on a nonnegative total. -/
def CoveredFrom (fraction : R) : (κ → R) → List (Claim ι κ R) → Prop
  | _, [] => True
  | base, c :: l =>
    (0 ≤ base c.account → 0 < c.amount → ∀ b ∈ c.balance,
      base c.account + c.amount * fraction ≤ b) ∧
    CoveredFrom fraction (fun k => base k + if c.account = k then c.amount else 0) l

variable {fraction : R} {base base' : κ → R}

@[simp] theorem coveredFrom_nil : CoveredFrom fraction base ([] : List (Claim ι κ R)) := trivial

/-- Only the totals of the accounts that are claimed matter. -/
theorem CoveredFrom.congr {l : List (Claim ι κ R)} (h : CoveredFrom fraction base l)
    (hb : ∀ c ∈ l, base c.account = base' c.account) : CoveredFrom fraction base' l := by
  induction l generalizing base base' with
  | nil => trivial
  | cons c l ih =>
    obtain ⟨hc, hl⟩ := h
    refine ⟨by rwa [← hb c (by simp)], ih hl fun d hd => ?_⟩
    rw [hb d (by simp [hd])]

theorem coveredFrom_append {l l' : List (Claim ι κ R)} :
    CoveredFrom fraction base (l ++ l') ↔
      CoveredFrom fraction base l ∧ CoveredFrom fraction (fun k => base k + total l k) l' := by
  induction l generalizing base with
  | nil => simp
  | cons c l ih =>
    have hfun : (fun k => base k + total (c :: l) k) =
        fun k => base k + (if c.account = k then c.amount else 0) + total l k := by
      funext k
      rw [total_cons, add_assoc]
    rw [List.cons_append, hfun]
    simp only [CoveredFrom, ih, and_assoc]

variable [IsStrictOrderedRing R]

theorem total_nonneg {l : List (Claim ι κ R)} (hpos : ∀ c ∈ l, 0 < c.amount) (k : κ) :
    0 ≤ total l k := by
  refine List.sum_nonneg fun x hx => ?_
  obtain ⟨c, hc, rfl⟩ := List.mem_map.mp hx
  exact (hpos c (List.mem_of_mem_filter hc)).le

/-- **The forgiven parts do not add up**: the total of an account is at most the balance that its
last claim was granted on, plus the forgiven part of that one claim. -/
theorem total_le_of_covered {pre post : List (Claim ι κ R)} {c : Claim ι κ R} {b : R}
    (h : CoveredFrom fraction (fun _ => 0) (pre ++ c :: post))
    (hpos : ∀ d ∈ pre ++ c :: post, 0 < d.amount) (hb : b ∈ c.balance)
    (hlast : ∀ d ∈ post, d.account ≠ c.account) :
    total (pre ++ c :: post) c.account ≤ b + (1 - fraction) * c.amount := by
  obtain ⟨-, hc, -⟩ := coveredFrom_append.mp h
  have hpre : 0 ≤ total pre c.account := total_nonneg (fun d hd => hpos d (by simp [hd])) _
  simp only [zero_add] at hc
  have hle := hc hpre (hpos c (by simp)) b hb
  rw [total_append, total_cons, if_pos rfl, total_eq_zero hlast]
  linarith

end Covered

end Ledger

end Foundations
