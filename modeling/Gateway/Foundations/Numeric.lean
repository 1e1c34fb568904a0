import Gateway.Foundations.Decimal

/-!
# Fixed-point columns

A `NUMERIC(precision, scale)` column holds numbers with `scale` digits after the point. Storing
a number rounds it to that scale, half away from zero, and is an error when more than
`precision` digits result. Numbers that have the scale already are stored unchanged
(`storeNumeric_of_scaled`), and a decimal context computes with them exactly as long as they
have few enough digits (`Scaled.representable`).
-/

namespace Foundations

/-- A value read from a `NUMERIC(precision, scale)` column. -/
structure Numeric (precision scale : ℕ) where
  unscaled : ℤ
  bound : |unscaled| < 10 ^ precision
  deriving DecidableEq

/-- The number that is stored. -/
def Numeric.value {precision scale : ℕ} (x : Numeric precision scale) : ℚ :=
  x.unscaled / 10 ^ scale

theorem Numeric.abs_value_lt {precision scale : ℕ} (h : scale ≤ precision)
    (x : Numeric precision scale) : |x.value| < 10 ^ (precision - scale) := by
  have hb : |(x.unscaled : ℚ)| < 10 ^ precision := by exact_mod_cast x.bound
  have hp : (0 : ℚ) < 10 ^ scale := by positivity
  rw [value, abs_div, abs_of_pos hp, div_lt_iff₀ hp, ← pow_add, Nat.sub_add_cancel h]
  exact hb

/-- The nearest integer, ties away from zero. -/
def roundHalfAway (q : ℚ) : ℤ := if 0 ≤ q then ⌊q + 1 / 2⌋ else ⌈q - 1 / 2⌉

/-- The number that a column of the scale holds after `x` is stored in it. -/
def storeNumeric (scale : ℕ) (x : ℚ) : ℚ := roundHalfAway (x * 10 ^ scale) / 10 ^ scale

/-- Is storing `x` not an overflow? -/
def fitsNumeric (precision scale : ℕ) (x : ℚ) : Bool :=
  |roundHalfAway (x * 10 ^ scale)| < 10 ^ precision

/-- `x` has at most `scale` digits after the point. -/
def Scaled (scale : ℕ) (x : ℚ) : Prop := ∃ k : ℤ, x = k / 10 ^ scale

theorem roundHalfAway_intCast (k : ℤ) : roundHalfAway k = k := by
  unfold roundHalfAway
  split_ifs
  · rw [Int.floor_eq_iff]
    constructor <;> linarith
  · rw [Int.ceil_eq_iff]
    constructor <;> linarith

theorem le_roundHalfAway {n : ℤ} {q : ℚ} (h0 : 0 ≤ n) (h : (n : ℚ) ≤ q) : n ≤ roundHalfAway q := by
  have hq : 0 ≤ q := le_trans (by exact_mod_cast h0) h
  rw [roundHalfAway, if_pos hq, Int.le_floor]
  linarith

/-- A number beyond the column's range does not fit. -/
theorem not_fitsNumeric {p s : ℕ} (hsp : s ≤ p) {x : ℚ} (h : 10 ^ (p - s) ≤ x) :
    fitsNumeric p s x = false := by
  have hx : ((10 ^ p : ℤ) : ℚ) ≤ x * 10 ^ s := by
    have hp : (10 : ℚ) ^ p = 10 ^ (p - s) * 10 ^ s := by rw [← pow_add, Nat.sub_add_cancel hsp]
    push_cast
    rw [hp]
    exact mul_le_mul_of_nonneg_right h (by positivity)
  have hr : (10 : ℤ) ^ p ≤ roundHalfAway (x * 10 ^ s) := le_roundHalfAway (by positivity) hx
  rw [fitsNumeric, decide_eq_false_iff_not, not_lt]
  exact hr.trans (le_abs_self _)

namespace Scaled

theorem zero (s : ℕ) : Scaled s 0 := ⟨0, by simp⟩

theorem numeric {p s : ℕ} (x : Numeric p s) : Scaled s x.value := ⟨x.unscaled, rfl⟩

theorem add {s : ℕ} {x y : ℚ} (hx : Scaled s x) (hy : Scaled s y) : Scaled s (x + y) := by
  obtain ⟨k, rfl⟩ := hx
  obtain ⟨l, rfl⟩ := hy
  exact ⟨k + l, by push_cast; ring⟩

theorem sub {s : ℕ} {x y : ℚ} (hx : Scaled s x) (hy : Scaled s y) : Scaled s (x - y) := by
  obtain ⟨k, rfl⟩ := hx
  obtain ⟨l, rfl⟩ := hy
  exact ⟨k - l, by push_cast; ring⟩

theorem sum {s : ℕ} {l : List ℚ} (h : ∀ x ∈ l, Scaled s x) : Scaled s l.sum := by
  induction l with
  | nil => exact zero s
  | cons a l ih =>
    rw [List.sum_cons]
    exact (h a (by simp)).add (ih fun x hx => h x (by simp [hx]))

theorem mono {s t : ℕ} (hst : s ≤ t) {x : ℚ} (hx : Scaled s x) : Scaled t x := by
  obtain ⟨k, rfl⟩ := hx
  refine ⟨k * 10 ^ (t - s), ?_⟩
  have : (10 : ℚ) ^ t = 10 ^ (t - s) * 10 ^ s := by rw [← pow_add]; congr 1; omega
  rw [this]
  push_cast
  rw [div_eq_div_iff (by positivity) (by positivity)]
  ring

/-- Two numbers of a scale differ by at least one unit of it. -/
theorem le_sub_unit {s : ℕ} {x y : ℚ} (hx : Scaled s x) (hy : Scaled s y) (h : x < y) :
    x ≤ y - 1 / 10 ^ s := by
  obtain ⟨k, rfl⟩ := hx
  obtain ⟨l, rfl⟩ := hy
  have hp : (0 : ℚ) < 10 ^ s := by positivity
  have hkl : k < l := by exact_mod_cast (div_lt_div_iff_of_pos_right hp).mp h
  have : (k : ℚ) + 1 ≤ l := by exact_mod_cast hkl
  rw [← sub_div, div_le_div_iff_of_pos_right hp]
  linarith

/-- A number with few enough digits is representable in a decimal context. -/
theorem representable {c : Decimal.Context} {s : ℕ} {x : ℚ} (hx : Scaled s x)
    (hb : |x| < 10 ^ (c.prec - s : ℤ)) (he : c.etiny ≤ -s) : c.Representable x := by
  obtain ⟨k, rfl⟩ := hx
  refine ⟨k, -s, ?_, he, by rw [zpow_neg, zpow_natCast, div_eq_mul_inv]⟩
  have hp : (0 : ℚ) < 10 ^ s := by positivity
  rw [abs_div, abs_of_pos hp, div_lt_iff₀ hp, zpow_sub₀ (by norm_num), zpow_natCast,
    zpow_natCast, div_mul_cancel₀ _ hp.ne'] at hb
  exact_mod_cast hb

end Scaled

theorem mul_pow_of_scaled {s t : ℕ} (hst : s ≤ t) {x : ℚ} (hx : Scaled s x) :
    ∃ k : ℤ, x * 10 ^ t = k := by
  obtain ⟨k, rfl⟩ := hx.mono hst
  exact ⟨k, div_mul_cancel₀ _ (by positivity)⟩

/-- A number of the column's scale is stored as it is. -/
theorem storeNumeric_of_scaled {s t : ℕ} (hst : s ≤ t) {x : ℚ} (hx : Scaled s x) :
    storeNumeric t x = x := by
  obtain ⟨k, hk⟩ := mul_pow_of_scaled hst hx
  rw [storeNumeric, hk, roundHalfAway_intCast, ← hk, mul_div_cancel_right₀ _ (by positivity)]

theorem intCast_le_roundHalfAway {n : ℤ} {q : ℚ} (h : (n : ℚ) ≤ q) : n ≤ roundHalfAway q := by
  unfold roundHalfAway
  split_ifs
  · rw [Int.le_floor]
    linarith
  · rw [Int.le_ceil_iff]
    linarith

/-- Storing a number does not take it below one of the column's scale. -/
theorem Scaled.le_storeNumeric {s t : ℕ} (hst : s ≤ t) {x y : ℚ} (hx : Scaled s x) (h : x ≤ y) :
    x ≤ storeNumeric t y := by
  obtain ⟨k, hk⟩ := mul_pow_of_scaled hst hx
  have hpos : (0 : ℚ) < 10 ^ t := by positivity
  have hle : (k : ℚ) ≤ y * 10 ^ t := by
    rw [← hk]
    exact mul_le_mul_of_nonneg_right h hpos.le
  rw [storeNumeric, le_div_iff₀ hpos, hk]
  exact_mod_cast intCast_le_roundHalfAway hle

theorem abs_roundHalfAway_sub_le (q : ℚ) : |roundHalfAway q - q| ≤ 1 / 2 := by
  unfold roundHalfAway
  split_ifs
  · have hle := Int.floor_le (q + 1 / 2)
    have hlt := Int.lt_floor_add_one (q + 1 / 2)
    rw [abs_le]
    constructor <;> linarith
  · have hle := Int.le_ceil (q - 1 / 2)
    have hlt := Int.ceil_lt_add_one (q - 1 / 2)
    rw [abs_le]
    constructor <;> linarith

/-- What is stored is off by half a unit of the scale at most. -/
theorem abs_storeNumeric_sub_le (scale : ℕ) (x : ℚ) :
    |storeNumeric scale x - x| ≤ 1 / 2 / 10 ^ scale := by
  have hpos : (0 : ℚ) < 10 ^ scale := by positivity
  have hx : storeNumeric scale x - x =
      (roundHalfAway (x * 10 ^ scale) - x * 10 ^ scale) / 10 ^ scale := by
    rw [storeNumeric, sub_div, mul_div_cancel_right₀ _ hpos.ne']
  rw [hx, abs_div, abs_of_pos hpos]
  exact div_le_div_of_nonneg_right (abs_roundHalfAway_sub_le _) hpos.le

/-- A number that is close to one of the column's scale is stored as that one. -/
theorem storeNumeric_of_close {scale : ℕ} {x y : ℚ} (hx : Scaled scale x)
    (h : |y - x| < 1 / 2 / 10 ^ scale) : storeNumeric scale y = x := by
  have hpos : (0 : ℚ) < 10 ^ scale := by positivity
  obtain ⟨k, rfl⟩ := hx
  have hstored := abs_le.mp (abs_roundHalfAway_sub_le (y * 10 ^ scale))
  rw [lt_div_iff₀ hpos, ← abs_of_pos hpos, ← abs_mul, sub_mul, abs_of_pos hpos,
    div_mul_cancel₀ _ hpos.ne', abs_lt] at h
  have hlt : (roundHalfAway (y * 10 ^ scale) : ℚ) < k + 1 := by linarith
  have hgt : (k : ℚ) - 1 < roundHalfAway (y * 10 ^ scale) := by linarith
  have hlt' : roundHalfAway (y * 10 ^ scale) < k + 1 := by exact_mod_cast hlt
  have hgt' : k - 1 < roundHalfAway (y * 10 ^ scale) := by exact_mod_cast hgt
  rw [storeNumeric, show roundHalfAway (y * 10 ^ scale) = k by omega]

/-- A number of the column's scale fits when it is below the column's range. -/
theorem fitsNumeric_of_scaled {p s t : ℕ} (hst : s ≤ t) (htp : t ≤ p) {x : ℚ} (hx : Scaled s x) :
    fitsNumeric p t x ↔ |x| < 10 ^ (p - t) := by
  obtain ⟨k, hk⟩ := mul_pow_of_scaled hst hx
  have hp : (0 : ℚ) < 10 ^ t := by positivity
  have hpt : (10 : ℚ) ^ p = 10 ^ (p - t) * 10 ^ t := by rw [← pow_add]; congr 1; omega
  have hk' : |(k : ℚ)| = |x| * 10 ^ t := by rw [← hk, abs_mul, abs_of_pos hp]
  rw [fitsNumeric, hk, roundHalfAway_intCast, decide_eq_true_iff]
  constructor
  · intro h
    have : |(k : ℚ)| < 10 ^ p := by exact_mod_cast h
    rw [hk', hpt] at this
    exact lt_of_mul_lt_mul_right this hp.le
  · intro h
    have : |(k : ℚ)| < 10 ^ p := by
      rw [hk', hpt]
      exact mul_lt_mul_of_pos_right h hp
    exact_mod_cast this

end Foundations
