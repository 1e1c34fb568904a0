import Mathlib.Data.Int.Log
import Mathlib.Data.Rat.Floor
import Mathlib.Tactic.Linarith
import Mathlib.Tactic.Ring

/-!
# Decimal arithmetic in a context

Finite decimal numbers are represented by the rationals they denote. A context carries a
precision and an exponent range; an operation computes the exact result and rounds it, half to
even, to the precision (`Context.round`), and fails when the rounded result has too large an
exponent (`Context.finish`).

The one fact that the rest of a development needs about rounding is that it never crosses a
number the context can represent: `Context.le_round` and `Context.round_le`. A comparison with a
representable bound may therefore be made before or after rounding on one side at no cost, and
on the other side whenever a representable number separates the two (`Context.round_lt`).
-/

namespace Foundations.Decimal

/-! ## Rounding to an integer -/

/-- The nearest integer, ties to the even one. -/
def roundHalfEven (q : ℚ) : ℤ :=
  if q - ⌊q⌋ < 1 / 2 then ⌊q⌋
  else if 1 / 2 < q - ⌊q⌋ then ⌊q⌋ + 1
  else if ⌊q⌋ % 2 = 0 then ⌊q⌋ else ⌊q⌋ + 1

theorem roundHalfEven_eq (q : ℚ) :
    (roundHalfEven q = ⌊q⌋ ∧ q - ⌊q⌋ ≤ 1 / 2) ∨ (roundHalfEven q = ⌊q⌋ + 1 ∧ 1 / 2 ≤ q - ⌊q⌋) := by
  unfold roundHalfEven
  split_ifs with h₁ h₂ h₃
  · exact .inl ⟨rfl, h₁.le⟩
  · exact .inr ⟨rfl, h₂.le⟩
  · exact .inl ⟨rfl, not_lt.mp h₂⟩
  · exact .inr ⟨rfl, not_lt.mp h₁⟩

theorem le_roundHalfEven {n : ℤ} {q : ℚ} (h : (n : ℚ) ≤ q) : n ≤ roundHalfEven q := by
  have hf : n ≤ ⌊q⌋ := Int.le_floor.mpr h
  rcases roundHalfEven_eq q with ⟨he, -⟩ | ⟨he, -⟩ <;> omega

theorem roundHalfEven_le {n : ℤ} {q : ℚ} (h : q ≤ n) : roundHalfEven q ≤ n := by
  rcases roundHalfEven_eq q with ⟨he, -⟩ | ⟨he, hq⟩
  · rw [he]
    exact_mod_cast (Int.floor_le q).trans h
  · -- rounding up leaves a fractional part, so `q` lies strictly above its floor
    have hlt : (⌊q⌋ : ℚ) < n := by linarith
    have : ⌊q⌋ < n := by exact_mod_cast hlt
    omega

theorem roundHalfEven_mono {q r : ℚ} (h : q ≤ r) : roundHalfEven q ≤ roundHalfEven r := by
  rcases (Int.floor_mono h).eq_or_lt with heq | hlt
  · -- within one unit the fractional parts decide
    have hle : q - ⌊q⌋ ≤ r - ⌊r⌋ := by
      rw [heq]
      linarith
    unfold roundHalfEven
    rw [← heq] at hle ⊢
    split_ifs <;> first | omega | (exfalso; linarith)
  · have hup : roundHalfEven q ≤ ⌊q⌋ + 1 := by
      rcases roundHalfEven_eq q with ⟨he, -⟩ | ⟨he, -⟩ <;> omega
    have hdown : ⌊r⌋ ≤ roundHalfEven r := le_roundHalfEven (Int.floor_le r)
    omega

/-! ## Contexts -/

/-- Precision and exponent range of an arithmetic context. -/
structure Context where
  prec : ℕ
  emin : ℤ
  emax : ℤ
  prec_pos : 0 < prec

namespace Context

/-- Python's default context. -/
def default : Context where
  prec := 28
  emin := -999999
  emax := 999999
  prec_pos := by decide

variable (c : Context)

/-- The least exponent of a subnormal number. -/
def etiny : ℤ := c.emin - (c.prec - 1)

/-- The exponent of the last digit that is kept of `x`. -/
def quantum (x : ℚ) : ℤ := max (Int.log 10 |x| - (c.prec - 1)) c.etiny

/-- Round to the precision, half to even. -/
def round (x : ℚ) : ℚ := roundHalfEven (x / 10 ^ c.quantum x) * 10 ^ c.quantum x

/-- The result of an operation whose exact value is `x`; `none` is an overflow. -/
def finish (x : ℚ) : Option ℚ :=
  if |c.round x| < 10 ^ (c.emax + 1) then some (c.round x) else none

/-- Numbers with at most `prec` digits. -/
def Representable (x : ℚ) : Prop :=
  ∃ m e : ℤ, |m| < 10 ^ c.prec ∧ c.etiny ≤ e ∧ x = m * 10 ^ e

variable {c}

theorem ten_zpow_pos (e : ℤ) : (0 : ℚ) < 10 ^ e := zpow_pos (by norm_num) e

@[simp] theorem round_zero : c.round 0 = 0 := by
  simp [round, roundHalfEven]

/-- A representable number is on the grid to which `x` is rounded, or it is smaller in absolute
value than a number of that grid which is itself at most `|x|`. -/
theorem Representable.grid_or_small {t x : ℚ} (ht : c.Representable t) (hx : x ≠ 0) :
    (∃ k : ℤ, t = k * 10 ^ c.quantum x) ∨
      (∃ k : ℤ, |t| < k * 10 ^ c.quantum x ∧ (k : ℚ) * 10 ^ c.quantum x ≤ |x|) := by
  obtain ⟨m, e, hm, he, rfl⟩ := ht
  by_cases hq : c.quantum x ≤ e
  · left
    refine ⟨m * 10 ^ (e - c.quantum x).toNat, ?_⟩
    push_cast
    rw [mul_assoc, ← zpow_natCast, Int.toNat_of_nonneg (by omega), ← zpow_add₀ (by norm_num)]
    congr 2
    omega
  · right
    have hlog : c.quantum x = Int.log 10 |x| - (c.prec - 1) := by
      unfold quantum at hq ⊢
      omega
    have hprec := c.prec_pos
    have hk : ((10 ^ (c.prec - 1) : ℤ) : ℚ) * 10 ^ c.quantum x = 10 ^ Int.log 10 |x| := by
      push_cast
      rw [← zpow_natCast, ← zpow_add₀ (by norm_num)]
      congr 1
      omega
    refine ⟨10 ^ (c.prec - 1), ?_, ?_⟩
    · rw [hk, abs_mul, abs_of_pos (ten_zpow_pos e)]
      have hm' : |(m : ℚ)| < 10 ^ (c.prec : ℤ) := by
        rw [zpow_natCast]
        exact_mod_cast hm
      calc |(m : ℚ)| * 10 ^ e < 10 ^ (c.prec : ℤ) * 10 ^ e :=
            mul_lt_mul_of_pos_right hm' (ten_zpow_pos e)
        _ = 10 ^ (c.prec + e : ℤ) := (zpow_add₀ (by norm_num) _ _).symm
        _ ≤ 10 ^ Int.log 10 |x| := zpow_le_zpow_right₀ (by norm_num) (by omega)
    · rw [hk]
      exact_mod_cast Int.zpow_log_le_self (b := 10) (by norm_num) (abs_pos.mpr hx)

theorem grid_le_round {x : ℚ} {k : ℤ} (h : (k : ℚ) * 10 ^ c.quantum x ≤ x) :
    (k : ℚ) * 10 ^ c.quantum x ≤ c.round x := by
  have hp := ten_zpow_pos (c.quantum x)
  have hk : k ≤ roundHalfEven (x / 10 ^ c.quantum x) := le_roundHalfEven ((le_div_iff₀ hp).mpr h)
  exact mul_le_mul_of_nonneg_right (by exact_mod_cast hk) hp.le

theorem round_le_grid {x : ℚ} {k : ℤ} (h : x ≤ (k : ℚ) * 10 ^ c.quantum x) :
    c.round x ≤ (k : ℚ) * 10 ^ c.quantum x := by
  have hp := ten_zpow_pos (c.quantum x)
  have hk : roundHalfEven (x / 10 ^ c.quantum x) ≤ k := roundHalfEven_le ((div_le_iff₀ hp).mpr h)
  exact mul_le_mul_of_nonneg_right (by exact_mod_cast hk) hp.le

/-- **Rounding does not fall below a representable number.** -/
theorem le_round {t x : ℚ} (ht : c.Representable t) (h : t ≤ x) : t ≤ c.round x := by
  rcases eq_or_ne x 0 with rfl | hx
  · simpa using h
  rcases ht.grid_or_small hx with ⟨k, rfl⟩ | ⟨k, hk, hkx⟩
  · exact grid_le_round h
  · rcases le_or_gt x 0 with hneg | hpos
    · -- a negative `x` is at most `-|t|`, which is not above `t`
      have := neg_abs_le t
      rw [abs_of_nonpos hneg] at hkx
      linarith
    · rw [abs_of_pos hpos] at hkx
      exact ((le_abs_self t).trans hk.le).trans (grid_le_round hkx)

/-- **Rounding does not rise above a representable number.** -/
theorem round_le {t x : ℚ} (ht : c.Representable t) (h : x ≤ t) : c.round x ≤ t := by
  rcases eq_or_ne x 0 with rfl | hx
  · simpa using h
  rcases ht.grid_or_small hx with ⟨k, rfl⟩ | ⟨k, hk, hkx⟩
  · exact round_le_grid h
  · rcases le_or_gt x 0 with hneg | hpos
    · rw [abs_of_nonpos hneg] at hkx
      have hk' : x ≤ ((-k : ℤ) : ℚ) * 10 ^ c.quantum x := by
        push_cast
        linarith
      have hr := round_le_grid hk'
      push_cast at hr
      have := neg_abs_le t
      linarith
    · have := le_abs_self t
      rw [abs_of_pos hpos] at hkx
      linarith

theorem round_of_representable {t : ℚ} (ht : c.Representable t) : c.round t = t :=
  le_antisymm (round_le ht le_rfl) (le_round ht le_rfl)

/-- Rounding stays below a number when a representable one separates them. -/
theorem round_lt {s t x : ℚ} (hs : c.Representable s) (hx : x ≤ s) (ht : s < t) :
    c.round x < t :=
  (round_le hs hx).trans_lt ht

/-- A power of ten is representable. -/
theorem representable_zpow {e : ℤ} (he : c.etiny ≤ e) : c.Representable (10 ^ e) := by
  refine ⟨1, e, ?_, he, by simp⟩
  have hprec := c.prec_pos
  simpa using one_lt_pow₀ (by norm_num : (1 : ℤ) < 10) hprec.ne'

theorem Representable.neg {t : ℚ} (ht : c.Representable t) : c.Representable (-t) := by
  obtain ⟨m, e, hm, he, rfl⟩ := ht
  exact ⟨-m, e, by rwa [abs_neg], he, by push_cast; ring⟩

/-- Rounding stays within a power of ten. -/
theorem abs_round_le {x : ℚ} {e : ℤ} (he : c.etiny ≤ e) (hx : |x| ≤ 10 ^ e) :
    |c.round x| ≤ 10 ^ e := by
  obtain ⟨hlo, hhi⟩ := abs_le.mp hx
  exact abs_le.mpr ⟨le_round (representable_zpow he).neg hlo, round_le (representable_zpow he) hhi⟩

/-! ### Monotonicity -/

theorem representable_zero : c.Representable 0 :=
  ⟨0, c.etiny, by simp, le_rfl, by simp⟩

/-- Numbers of different magnitudes are separated by a power of ten. -/
theorem exists_zpow_between {x y : ℚ} (hy : y ≠ 0)
    (h : c.quantum x < c.quantum y) : ∃ e, c.etiny ≤ e ∧ |x| ≤ 10 ^ e ∧ 10 ^ e ≤ |y| := by
  have hprec := c.prec_pos
  have hlt : Int.log 10 |x| < Int.log 10 |y| ∧ c.etiny ≤ Int.log 10 |y| := by
    unfold quantum at h
    omega
  refine ⟨Int.log 10 |y|, hlt.2, ?_, ?_⟩
  · have hup : |x| < 10 ^ (Int.log 10 |x| + 1) := by
      exact_mod_cast Int.lt_zpow_succ_log_self (b := 10) (by norm_num) |x|
    exact hup.le.trans (zpow_le_zpow_right₀ (by norm_num) (by omega))
  · exact_mod_cast Int.zpow_log_le_self (b := 10) (by norm_num) (abs_pos.mpr hy)

/-- Numbers of one magnitude are rounded to one grid. -/
theorem round_mono_of_quantum_eq {x y : ℚ} (h : x ≤ y) (hq : c.quantum x = c.quantum y) :
    c.round x ≤ c.round y := by
  have hp := ten_zpow_pos (c.quantum y)
  have hle : roundHalfEven (x / 10 ^ c.quantum y) ≤ roundHalfEven (y / 10 ^ c.quantum y) :=
    roundHalfEven_mono (by gcongr)
  rw [round, round, hq]
  exact mul_le_mul_of_nonneg_right (by exact_mod_cast hle) hp.le

/-- **Rounding is monotone.** -/
theorem round_mono {x y : ℚ} (h : x ≤ y) : c.round x ≤ c.round y := by
  rcases le_or_gt x 0 with hx | hx
  · rcases le_or_gt 0 y with hy | hy
    · exact (round_le representable_zero hx).trans (le_round representable_zero hy)
    · have hx' : x < 0 := h.trans_lt hy
      rcases lt_trichotomy (c.quantum x) (c.quantum y) with hq | hq | hq
      · obtain ⟨e, -, hxe, hye⟩ := exists_zpow_between hy.ne hq
        rw [abs_of_neg hx'] at hxe
        rw [abs_of_neg hy] at hye
        rw [show x = y by linarith]
      · exact round_mono_of_quantum_eq h hq
      · obtain ⟨e, he, hye, hxe⟩ := exists_zpow_between hx'.ne hq
        rw [abs_of_neg hx'] at hxe
        rw [abs_of_neg hy] at hye
        have hrep := (c.representable_zpow he).neg
        exact (round_le hrep (by linarith)).trans (le_round hrep (by linarith))
  · have hy : 0 < y := hx.trans_le h
    rcases lt_trichotomy (c.quantum x) (c.quantum y) with hq | hq | hq
    · obtain ⟨e, he, hxe, hye⟩ := exists_zpow_between hy.ne' hq
      rw [abs_of_pos hx] at hxe
      rw [abs_of_pos hy] at hye
      have hrep := c.representable_zpow he
      exact (round_le hrep hxe).trans (le_round hrep hye)
    · exact round_mono_of_quantum_eq h hq
    · obtain ⟨e, -, hye, hxe⟩ := exists_zpow_between hx.ne' hq
      rw [abs_of_pos hx] at hxe
      rw [abs_of_pos hy] at hye
      rw [show x = y by linarith]

/-- A number has at most as many digits before its last kept one as the precision says. -/
theorem abs_div_quantum_le (x : ℚ) : |x / 10 ^ c.quantum x| ≤ 10 ^ c.prec := by
  have hp := ten_zpow_pos (c.quantum x)
  have hlog : Int.log 10 |x| + 1 ≤ c.prec + c.quantum x := by
    unfold quantum
    omega
  have hup : |x| < 10 ^ (Int.log 10 |x| + 1) := by
    exact_mod_cast Int.lt_zpow_succ_log_self (b := 10) (by norm_num) |x|
  rw [abs_div, abs_of_pos hp, div_le_iff₀ hp, ← zpow_natCast, ← zpow_add₀ (by norm_num)]
  exact hup.le.trans (zpow_le_zpow_right₀ (by norm_num) hlog)

/-- What has been rounded is representable. -/
theorem representable_round (x : ℚ) : c.Representable (c.round x) := by
  have hprec := c.prec_pos
  have hetiny : c.etiny ≤ c.quantum x := le_max_right _ _
  obtain ⟨hlo, hhi⟩ := abs_le.mp (c.abs_div_quantum_le x)
  have hhi' : roundHalfEven (x / 10 ^ c.quantum x) ≤ 10 ^ c.prec :=
    roundHalfEven_le (by exact_mod_cast hhi)
  have hlo' : -10 ^ c.prec ≤ roundHalfEven (x / 10 ^ c.quantum x) :=
    le_roundHalfEven (by exact_mod_cast hlo)
  -- the power of the precision itself has one digit more, and is a power of ten
  have hpow : (10 : ℚ) ^ c.prec * 10 ^ c.quantum x = 10 ^ (c.prec + c.quantum x) := by
    rw [zpow_add₀ (by norm_num), zpow_natCast]
  have hrep : c.Representable (10 ^ (c.prec + c.quantum x)) := representable_zpow (by omega)
  rcases hhi'.eq_or_lt with heq | hlt
  · rw [round, heq]
    push_cast
    rwa [hpow]
  · rcases hlo'.eq_or_lt with heq | hlt'
    · rw [round, ← heq]
      push_cast
      rw [neg_mul, hpow]
      exact hrep.neg
    · exact ⟨_, _, abs_lt.mpr ⟨hlt', hlt⟩, hetiny, rfl⟩

theorem finish_eq_some {x y : ℚ} : c.finish x = some y ↔ |c.round x| < 10 ^ (c.emax + 1) ∧
    c.round x = y := by
  unfold finish
  split_ifs with h <;> simp [h]

theorem finish_of_representable {t : ℚ} (ht : c.Representable t) (hb : |t| < 10 ^ (c.emax + 1)) :
    c.finish t = some t := by
  rw [finish_eq_some, round_of_representable ht]
  exact ⟨hb, rfl⟩

/-- The exact operations, rounded. -/
def add (c : Context) (x y : ℚ) : Option ℚ := c.finish (x + y)

/-- The difference, rounded. -/
def sub (c : Context) (x y : ℚ) : Option ℚ := c.finish (x - y)

/-- The product, rounded. -/
def mul (c : Context) (x y : ℚ) : Option ℚ := c.finish (x * y)

/-- Division by a number other than zero. -/
def div (c : Context) (x y : ℚ) : Option ℚ := c.finish (x / y)

theorem representable_add {x y z : ℚ} (h : c.add x y = some z) : c.Representable z := by
  obtain ⟨-, rfl⟩ := finish_eq_some.mp h
  exact representable_round _

/-- A sum does not go down when what is added is not negative, rounded or not. -/
theorem le_add {x y z : ℚ} (hx : c.Representable x) (hy : 0 ≤ y) (h : c.add x y = some z) :
    x ≤ z := by
  obtain ⟨-, rfl⟩ := finish_eq_some.mp h
  exact le_round hx (by linarith)

theorem le_foldlM_add {l : List ℚ} (hl : ∀ x ∈ l, 0 ≤ x) {t y : ℚ} (ht : c.Representable t)
    (h : l.foldlM c.add t = some y) : t ≤ y := by
  induction l generalizing t with
  | nil =>
    cases h
    exact le_rfl
  | cons x l ih =>
    rw [List.foldlM_cons] at h
    obtain ⟨u, hu, h⟩ := Option.bind_eq_some_iff.mp h
    have hrest := ih (fun x hx => hl x (by simp [hx])) (representable_add hu) h
    exact (le_add ht (hl x (by simp)) hu).trans hrest

end Context

/-! ## Values with infinities and not-a-numbers -/

/-- A decimal value. -/
inductive Value
  | finite (q : ℚ)
  | infinity (negative : Bool)
  | nan (signaling : Bool)
  deriving DecidableEq

namespace Value

/-- `-value`. -/
def neg : Value → Value
  | .finite q => .finite (-q)
  | .infinity s => .infinity !s
  | .nan s => .nan s

/-- Subtract a finite number; `none` is a raised signal (overflow, or an operation on a
signaling not-a-number). -/
def subFinite (c : Context) : Value → ℚ → Option Value
  | .finite x, y => (c.sub x y).map .finite
  | .infinity s, _ => some (.infinity s)
  | .nan false, _ => some (.nan false)
  | .nan true, _ => none

/-- Is the value below a finite number? Ordering a not-a-number raises a signal. -/
def ltFinite : Value → ℚ → Option Bool
  | .finite x, y => some (x < y)
  | .infinity s, _ => some s
  | .nan _, _ => none

end Value

end Foundations.Decimal
