import Mathlib.Algebra.BigOperators.Group.List.Basic
import Mathlib.Data.List.Nodup
import Mathlib.Logic.Function.Basic
import Mathlib.Tactic.Ring

/-!
# Deposits

Accounts whose balances become others, one after another. What comes in with a change is the
difference where the balance rises (`deposits`). A balance is at most what the account held at first
and what has come in since (`settle_le`), whatever has gone out; and what has come in on distinct
accounts adds up to at most what has come in on all of them (`sum_received_le`).
-/

namespace Foundations

variable {κ : Type*}

/-- What has come in on the accounts that satisfy `p`. -/
def received (p : κ → Bool) (l : List (κ × ℕ)) : ℕ := ((l.filter fun x => p x.1).map Prod.snd).sum

section Received

variable {p q : κ → Bool}

@[simp] theorem received_nil : received p [] = 0 := rfl

theorem received_cons (x : κ × ℕ) (l : List (κ × ℕ)) :
    received p (x :: l) = (if p x.1 then x.2 else 0) + received p l := by
  simp only [received, List.filter_cons]
  split_ifs
  · rw [List.map_cons, List.sum_cons]
  · rw [zero_add]

theorem received_append (l l' : List (κ × ℕ)) :
    received p (l ++ l') = received p l + received p l' := by
  unfold received
  rw [List.filter_append, List.map_append, List.sum_append]

theorem received_mono (h : ∀ k, p k → q k) (l : List (κ × ℕ)) : received p l ≤ received q l := by
  induction l with
  | nil => exact le_rfl
  | cons x l ih =>
    rw [received_cons, received_cons]
    apply Nat.add_le_add _ ih
    split_ifs with hp hq
    · exact le_rfl
    · exact absurd (h x.1 hp) hq
    · exact Nat.zero_le _
    · exact le_rfl

/-- What comes in on one of two kinds of accounts comes in on the first or the second. -/
theorem received_or (h : ∀ k, p k → q k = false) (l : List (κ × ℕ)) :
    received (fun k => p k || q k) l = received p l + received q l := by
  induction l with
  | nil => rfl
  | cons x l ih =>
    rw [received_cons, received_cons, received_cons, ih]
    cases hp : p x.1 with
    | true =>
      simp only [h x.1 hp, Bool.or_false, if_true, Bool.false_eq_true, if_false]
      ring
    | false =>
      simp only [Bool.false_or, Bool.false_eq_true, if_false]
      ring

end Received

variable [DecidableEq κ]

/-- The balances after the changes. -/
def settle (b : κ → ℕ) (changes : List (κ × ℕ)) : κ → ℕ :=
  changes.foldl (fun b x => Function.update b x.1 x.2) b

/-- What comes in with each of the changes, and where. -/
def deposits (b : κ → ℕ) : List (κ × ℕ) → List (κ × ℕ)
  | [] => []
  | x :: l => (x.1, x.2 - b x.1) :: deposits (Function.update b x.1 x.2) l

/-- **Distinct accounts receive nothing twice.** -/
theorem sum_received_le {keys : List κ} (hkeys : keys.Nodup) {p : κ → Bool} (hp : ∀ k ∈ keys, p k)
    (l : List (κ × ℕ)) :
    (keys.map fun k => received (fun k' => k' = k) l).sum ≤ received p l := by
  have hsum : (keys.map fun k => received (fun k' => k' = k) l).sum =
      received (fun k => decide (k ∈ keys)) l := by
    clear hp
    induction keys with
    | nil => simp [received]
    | cons k keys ih =>
      obtain ⟨hk, hnodup⟩ := List.nodup_cons.mp hkeys
      have hor : (fun k' => decide (k' ∈ k :: keys)) =
          fun k' => decide (k' = k) || decide (k' ∈ keys) := by
        funext k'
        simp [Bool.decide_or]
      rw [List.map_cons, List.sum_cons, ih hnodup, hor, received_or]
      intro k' hk'
      rw [of_decide_eq_true hk', decide_eq_false hk]
  rw [hsum]
  exact received_mono (fun k hk => hp k (of_decide_eq_true hk)) l

theorem settle_append (b : κ → ℕ) (l l' : List (κ × ℕ)) :
    settle b (l ++ l') = settle (settle b l) l' := List.foldl_append

theorem deposits_append (b : κ → ℕ) (l l' : List (κ × ℕ)) :
    deposits b (l ++ l') = deposits b l ++ deposits (settle b l) l' := by
  induction l generalizing b with
  | nil => rfl
  | cons x l ih =>
    rw [List.cons_append, deposits, ih]
    rfl

/-- **A balance is at most what it was and what has come in.** -/
theorem settle_le (b : κ → ℕ) (l : List (κ × ℕ)) (k : κ) :
    settle b l k ≤ b k + received (fun k' => k' = k) (deposits b l) := by
  induction l generalizing b with
  | nil => exact le_rfl
  | cons x l ih =>
    have hrest := ih (Function.update b x.1 x.2)
    rw [deposits, received_cons]
    apply hrest.trans
    by_cases hx : x.1 = k
    · subst hx
      rw [Function.update_self, if_pos (decide_eq_true rfl)]
      omega
    · rw [Function.update_of_ne (Ne.symm hx), if_neg (by simp [hx])]
      omega

/-- So it is at every moment before. -/
theorem settle_le_of_prefix (b : κ → ℕ) {l l' : List (κ × ℕ)} (h : l <+: l') (k : κ) :
    settle b l k ≤ b k + received (fun k' => k' = k) (deposits b l') := by
  obtain ⟨rest, rfl⟩ := h
  have hle := settle_le b l k
  rw [deposits_append, received_append]
  omega

end Foundations
