import Mathlib.Data.List.Prime
import Mathlib.FieldTheory.Finite.Basic
import Mathlib.NumberTheory.LucasPrimality

/-!
# Powers modulo a number, and certificates of primality

Powers by repeated squaring, among them the square roots modulo a prime that is 3 modulo 4.

Lucas's test shows that a number is prime when the prime factors of its predecessor are known. A
certificate is a list of such tests in which the factors come from the earlier ones, down to the
number two; `prime_of_certified` turns a check of the list into primality.
-/

namespace Foundations

/-- `a ^ k % m`, for a `k` below `2 ^ bits`, by squaring. -/
def powMod (m a : ℕ) : (bits k : ℕ) → ℕ
  | 0, _ => 1 % m
  | bits + 1, k =>
    let r := powMod m a bits (k / 2)
    if k % 2 = 0 then r * r % m else r * r % m * a % m

theorem powMod_eq {m a bits k : ℕ} (hk : k < 2 ^ bits) : powMod m a bits k = a ^ k % m := by
  induction bits generalizing k with
  | zero =>
    obtain rfl : k = 0 := by omega
    rfl
  | succ bits ih =>
    have hhalf : k / 2 < 2 ^ bits := by
      rw [pow_succ] at hk
      omega
    have hsquare : powMod m a bits (k / 2) * powMod m a bits (k / 2) % m =
        a ^ (2 * (k / 2)) % m := by
      rw [ih hhalf, ← Nat.mul_mod, ← pow_add, two_mul]
    simp only [powMod, hsquare]
    split_ifs with heven
    · rw [show 2 * (k / 2) = k by omega]
    · rw [Nat.mod_mul_mod, ← pow_succ, show 2 * (k / 2) + 1 = k by omega]

/-- `pow(a, k, m)`. -/
def modPow (m a k : ℕ) : ℕ := powMod m a (k.log2 + 1) k

theorem modPow_eq (m a k : ℕ) : modPow m a k = a ^ k % m := powMod_eq Nat.lt_log2_self

theorem cast_modPow (m a k : ℕ) : (modPow m a k : ZMod m) = (a : ZMod m) ^ k := by
  rw [modPow_eq, ZMod.natCast_mod, Nat.cast_pow]

/-- A power that is a square root, modulo a prime that is 3 modulo 4. -/
theorem modPow_sqrt {p : ℕ} [Fact p.Prime] (hp : p % 4 = 3) {a : ℕ} {y : ZMod p}
    (ha : (a : ZMod p) = y ^ 2) :
    (modPow p a ((p + 1) / 4) : ZMod p) = y ∨ (modPow p a ((p + 1) / 4) : ZMod p) = -y := by
  have hexp : (p + 1) / 4 * 4 = p + 1 := by omega
  apply sq_eq_sq_iff_eq_or_eq_neg.mp
  calc (modPow p a ((p + 1) / 4) : ZMod p) ^ 2 = y ^ ((p + 1) / 4 * 4) := by
        rw [cast_modPow, ha, ← pow_mul, ← pow_mul]
        congr 1
        ring
    _ = y ^ 2 := by rw [hexp, pow_succ, ZMod.pow_card, sq]

/-- A number, a base that shows that it is prime, and the prime factors of its predecessor. -/
structure LucasTest where
  number : ℕ
  base : ℕ
  factors : List ℕ

namespace LucasTest

/-- The power of the base of a test. -/
def power (c : LucasTest) (k : ℕ) : ℕ := modPow c.number c.base k

/-- Does the test succeed? -/
def passes (c : LucasTest) : Bool :=
  2 ≤ c.number && c.factors.prod = c.number - 1 && c.power (c.number - 1) = 1 &&
    c.factors.all fun q => c.power ((c.number - 1) / q) ≠ 1

theorem power_eq (c : LucasTest) (hc : 2 ≤ c.number) {k : ℕ} :
    c.power k = 1 ↔ (c.base : ZMod c.number) ^ k = 1 := by
  have hcast := ZMod.natCast_eq_natCast_iff' (c.base ^ k) 1 c.number
  rw [Nat.cast_pow, Nat.cast_one, Nat.mod_eq_of_lt (show 1 < c.number from hc)] at hcast
  rw [power, modPow_eq, hcast]

theorem prime (c : LucasTest) (h : c.passes) (hfactors : ∀ q ∈ c.factors, q.Prime) :
    c.number.Prime := by
  simp only [passes, Bool.and_eq_true, decide_eq_true_eq, List.all_eq_true] at h
  obtain ⟨⟨⟨htwo, hprod⟩, hfull⟩, hparts⟩ := h
  apply lucas_primality c.number c.base ((c.power_eq htwo).mp hfull)
  intro q hq hdvd hone
  have hmem : q ∈ c.factors := by
    rw [← hprod] at hdvd
    obtain ⟨r, hr, hqr⟩ := (Prime.dvd_prod_iff hq.prime).mp hdvd
    obtain rfl := (Nat.prime_dvd_prime_iff_eq hq (hfactors r hr)).mp hqr
    exact hr
  exact hparts q hmem ((c.power_eq htwo).mpr hone)

/-- Do all the tests succeed, with the factors that were tested before? -/
def certified : (known : List ℕ) → List LucasTest → Bool
  | _, [] => true
  | known, c :: cs => c.factors.all (· ∈ known) && c.passes && certified (c.number :: known) cs

theorem prime_of_certified {known : List ℕ} {cs : List LucasTest} (h : certified known cs)
    (hknown : ∀ q ∈ known, q.Prime) : ∀ c ∈ cs, c.number.Prime := by
  induction cs generalizing known with
  | nil => simp
  | cons c cs ih =>
    simp only [certified, Bool.and_eq_true, List.all_eq_true, decide_eq_true_eq] at h
    obtain ⟨⟨hfactors, hpasses⟩, hrest⟩ := h
    have hc : c.number.Prime := c.prime hpasses fun q hq => hknown q (hfactors q hq)
    intro d hd
    rcases List.mem_cons.mp hd with rfl | hd
    · exact hc
    · exact ih hrest (List.forall_mem_cons.mpr ⟨hc, hknown⟩) d hd

end LucasTest

end Foundations
