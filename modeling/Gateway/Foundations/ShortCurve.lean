import Mathlib.AlgebraicGeometry.EllipticCurve.Affine.Point

/-!
# Curves y² = x³ + b

The group of points of such a curve is the one of Mathlib. Here it is made computable for concrete
points: a multiple of a point is computed in Jacobian coordinates, in which no division occurs, and
the computation reports when it meets a case that its formulas do not cover
(`Jacobian.represents_smul`). `order_eq_prime` concludes from such a computation that a point has a
prime order.
-/

namespace Foundations

/-- A curve `y² = x³ + b` without singular points. -/
structure ShortCurve (F : Type*) [Field F] where
  b : F
  b_ne_zero : b ≠ 0
  two_ne_zero : (2 : F) ≠ 0
  three_ne_zero : (3 : F) ≠ 0

namespace ShortCurve

variable {F : Type*} [Field F] (E : ShortCurve F)

/-- The curve as a Weierstrass curve. -/
def weierstrass : WeierstrassCurve.Affine F where
  a₁ := 0
  a₂ := 0
  a₃ := 0
  a₄ := 0
  a₆ := E.b

/-- The points of the curve, with the one at infinity. -/
abbrev Point := E.weierstrass.Point

theorem equation_iff {x y : F} : E.weierstrass.Equation x y ↔ y ^ 2 = x ^ 3 + E.b := by
  rw [WeierstrassCurve.Affine.equation_iff]
  simp [weierstrass]

theorem discriminant_ne_zero : E.weierstrass.Δ ≠ 0 := by
  have hΔ : E.weierstrass.Δ = -(2 ^ 4 * 3 ^ 3) * E.b ^ 2 := by
    simp only [WeierstrassCurve.Δ, WeierstrassCurve.b₂, WeierstrassCurve.b₄, WeierstrassCurve.b₆,
      WeierstrassCurve.b₈, weierstrass]
    ring
  rw [hΔ]
  exact mul_ne_zero (neg_ne_zero.mpr (mul_ne_zero (pow_ne_zero _ E.two_ne_zero)
    (pow_ne_zero _ E.three_ne_zero))) (pow_ne_zero _ E.b_ne_zero)

theorem nonsingular_iff {x y : F} : E.weierstrass.Nonsingular x y ↔ y ^ 2 = x ^ 3 + E.b :=
  (WeierstrassCurve.Affine.equation_iff_nonsingular_of_Δ_ne_zero E.discriminant_ne_zero).symm.trans
    E.equation_iff

variable {E}

/-- The coordinates of a point other than the one at infinity. -/
def coords? : E.Point → Option (F × F)
  | .zero => none
  | .some x y _ => some (x, y)

@[simp] theorem coords?_zero : coords? (0 : E.Point) = none := rfl

theorem coords?_eq_none {P : E.Point} : coords? P = none ↔ P = 0 := by
  cases P with
  | zero => exact iff_of_true rfl rfl
  | some x y h => exact iff_of_false nofun (WeierstrassCurve.Affine.Point.some_ne_zero h)

theorem coords?_inj {P Q : E.Point} (h : coords? P = coords? Q) : P = Q := by
  cases P with
  | zero => exact (coords?_eq_none.mp h.symm).symm
  | some x y hP =>
    cases Q with
    | zero => cases h
    | some x' y' hQ =>
      cases h
      rfl

theorem equation_of_coords {P : E.Point} {x y : F} (h : coords? P = some (x, y)) :
    y ^ 2 = x ^ 3 + E.b := by
  cases P with
  | zero => cases h
  | some x' y' hP =>
    cases h
    exact E.nonsingular_iff.mp hP

variable (E) in
/-- The point with given coordinates, if they lie on the curve. -/
def point? [DecidableEq F] (x y : F) : Option E.Point :=
  if h : y ^ 2 = x ^ 3 + E.b then some (.some x y (E.nonsingular_iff.mpr h)) else none

theorem point?_of_coords [DecidableEq F] {P : E.Point} {x y : F} (h : coords? P = some (x, y)) :
    E.point? x y = some P := by
  rw [point?, dif_pos (equation_of_coords h)]
  exact congrArg some (coords?_inj h.symm)

theorem coords?_neg {P : E.Point} {x y : F} (h : coords? P = some (x, y)) :
    coords? (-P) = some (x, -y) := by
  cases P with
  | zero => cases h
  | some x' y' hP =>
    cases h
    rw [WeierstrassCurve.Affine.Point.neg_some]
    simp [coords?, WeierstrassCurve.Affine.negY, weierstrass]

/-! ## The group law in coordinates -/

section Add

variable [DecidableEq F]

theorem coords?_add {P Q : E.Point} {x₁ y₁ x₂ y₂ : F} (hP : coords? P = some (x₁, y₁))
    (hQ : coords? Q = some (x₂, y₂)) (hne : x₁ ≠ x₂) :
    let l := (y₁ - y₂) / (x₁ - x₂)
    coords? (P + Q) = some (l ^ 2 - x₁ - x₂, l * (2 * x₁ + x₂ - l ^ 2) - y₁) := by
  cases P with
  | zero => cases hP
  | some x y h₁ =>
    cases Q with
    | zero => cases hQ
    | some x' y' h₂ =>
      cases hP
      cases hQ
      rw [WeierstrassCurve.Affine.Point.add_of_X_ne hne]
      simp only [coords?, WeierstrassCurve.Affine.slope_of_X_ne hne, WeierstrassCurve.Affine.addX,
        WeierstrassCurve.Affine.addY, WeierstrassCurve.Affine.negAddY,
        WeierstrassCurve.Affine.negY, weierstrass]
      refine congrArg some (Prod.ext ?_ ?_)
      · ring
      · ring

theorem coords?_double {P : E.Point} {x y : F} (hP : coords? P = some (x, y)) (hne : y ≠ 0) :
    let l := 3 * x ^ 2 / (2 * y)
    coords? (P + P) = some (l ^ 2 - 2 * x, l * (3 * x - l ^ 2) - y) := by
  cases P with
  | zero => cases hP
  | some x' y' h =>
    cases hP
    have hneg : y ≠ E.weierstrass.negY x y := by
      simp only [WeierstrassCurve.Affine.negY, weierstrass, zero_mul, sub_zero]
      intro heq
      have htwo : 2 * y = 0 := by linear_combination heq
      exact mul_ne_zero E.two_ne_zero hne htwo
    have hslope : E.weierstrass.slope x x y y = 3 * x ^ 2 / (2 * y) := by
      rw [WeierstrassCurve.Affine.slope_of_Y_ne rfl hneg]
      simp only [WeierstrassCurve.Affine.negY, weierstrass, zero_mul, mul_zero, sub_zero, add_zero,
        sub_neg_eq_add, two_mul]
    rw [WeierstrassCurve.Affine.Point.add_self_of_Y_ne hneg]
    simp only [coords?, hslope]
    simp only [WeierstrassCurve.Affine.addX, WeierstrassCurve.Affine.addY,
      WeierstrassCurve.Affine.negAddY, WeierstrassCurve.Affine.negY, weierstrass]
    refine congrArg some (Prod.ext ?_ ?_)
    · ring
    · ring

end Add

end ShortCurve

/-! ## Jacobian coordinates -/

/-- The triple `(x, y, z)` stands for the point `(x / z², y / z³)`. -/
@[ext]
structure Jacobian (F : Type*) where
  x : F
  y : F
  z : F

namespace Jacobian

open ShortCurve

variable {F : Type*} [Field F] {E : ShortCurve F} {t u v : Jacobian F} {P Q : E.Point}

/-- The triple stands for the point. -/
def Represents (t : Jacobian F) (P : E.Point) : Prop :=
  t.z ≠ 0 ∧ coords? P = some (t.x / t.z ^ 2, t.y / t.z ^ 3)

/-- The triple of an affine point. -/
def ofAffine (x y : F) : Jacobian F := { x, y, z := 1 }

theorem represents_ofAffine {x y : F} (h : coords? P = some (x, y)) :
    (ofAffine x y).Represents P := by
  refine ⟨one_ne_zero, ?_⟩
  simpa [ofAffine] using h

variable [DecidableEq F]

/-- The double of a point whose second coordinate is not zero. -/
def double? (t : Jacobian F) : Option (Jacobian F) :=
  if t.y = 0 then none
  else
    let s := 4 * t.x * t.y ^ 2
    let m := 3 * t.x ^ 2
    let x := m ^ 2 - 2 * s
    some { x, y := m * (s - x) - 8 * t.y ^ 4, z := 2 * t.y * t.z }

/-- The sum of two points whose first coordinates differ. -/
def add? (t u : Jacobian F) : Option (Jacobian F) :=
  let u₁ := t.x * u.z ^ 2
  let s₁ := t.y * u.z ^ 3
  let h := u.x * t.z ^ 2 - u₁
  let r := u.y * t.z ^ 3 - s₁
  if h = 0 then none
  else
    let x := r ^ 2 - h ^ 3 - 2 * u₁ * h ^ 2
    some { x, y := r * (u₁ * h ^ 2 - x) - s₁ * h ^ 3, z := h * t.z * u.z }

/-- A multiple by a factor below `2 ^ bits`, by doubling and adding. -/
def smul? (t : Jacobian F) : (bits k : ℕ) → Option (Jacobian F)
  | 0, _ => none
  | bits + 1, k =>
    if k = 1 then some t
    else (t.smul? bits (k / 2)).bind fun u =>
      u.double?.bind fun v => if k % 2 = 1 then v.add? t else some v

theorem represents_double (ht : t.Represents P) (h : t.double? = some v) :
    v.Represents (P + P) := by
  obtain ⟨hz, hP⟩ := ht
  unfold double? at h
  split_ifs at h with hy
  obtain rfl := Option.some.inj h
  have htwo := E.two_ne_zero
  have hy' : t.y / t.z ^ 3 ≠ 0 := div_ne_zero hy (pow_ne_zero _ hz)
  refine ⟨mul_ne_zero (mul_ne_zero htwo hy) hz, ?_⟩
  rw [coords?_double hP hy']
  refine congrArg some (Prod.ext ?_ ?_)
  · field_simp
    ring
  · field_simp
    ring

theorem represents_add (ht : t.Represents P) (hu : u.Represents Q) (h : t.add? u = some v) :
    v.Represents (P + Q) := by
  obtain ⟨hz, hP⟩ := ht
  obtain ⟨hz', hQ⟩ := hu
  simp only [add?] at h
  split_ifs at h with hh
  obtain rfl := Option.some.inj h
  have hne : t.x / t.z ^ 2 ≠ u.x / u.z ^ 2 := by
    intro heq
    rw [div_eq_div_iff (pow_ne_zero _ hz) (pow_ne_zero _ hz')] at heq
    exact hh (sub_eq_zero.mpr heq.symm)
  refine ⟨mul_ne_zero (mul_ne_zero hh hz) hz', ?_⟩
  rw [coords?_add hP hQ hne]
  have hsub : t.x / t.z ^ 2 - u.x / u.z ^ 2 =
      -(u.x * t.z ^ 2 - t.x * u.z ^ 2) / (t.z ^ 2 * u.z ^ 2) := by
    field_simp
    ring
  rw [hsub]
  generalize hd : u.x * t.z ^ 2 - t.x * u.z ^ 2 = d at hh
  refine congrArg some (Prod.ext ?_ ?_)
  · field_simp
    rw [← hd]
    ring
  · field_simp
    rw [← hd]
    ring

/-- A computed multiple is the multiple of the point. -/
theorem represents_smul (ht : t.Represents P) {bits k : ℕ} (h : t.smul? bits k = some u) :
    u.Represents (k • P) := by
  induction bits generalizing k u with
  | zero => cases h
  | succ bits ih =>
    unfold smul? at h
    by_cases hk : k = 1
    · rw [if_pos hk] at h
      obtain rfl := Option.some.inj h
      rwa [hk, one_smul]
    · rw [if_neg hk] at h
      obtain ⟨v, hv, h⟩ := Option.bind_eq_some_iff.mp h
      obtain ⟨w, hw, h⟩ := Option.bind_eq_some_iff.mp h
      have hdouble := represents_double (ih hv) hw
      rw [← two_smul ℕ, smul_smul] at hdouble
      split_ifs at h with hodd
      · have hsplit : k = 2 * (k / 2) + 1 := by omega
        rw [hsplit, add_smul, one_smul]
        exact represents_add hdouble ht h
      · obtain rfl := Option.some.inj h
        have hsplit : k = 2 * (k / 2) := by omega
        rwa [hsplit]

/-- Does the triple stand for these coordinates? -/
def isAffine (t : Jacobian F) (x y : F) : Bool :=
  t.z ≠ 0 && t.x = x * t.z ^ 2 && t.y = y * t.z ^ 3

theorem Represents.coords?_eq {x y : F} (ht : t.Represents P) (h : t.isAffine x y) :
    coords? P = some (x, y) := by
  simp only [isAffine, Bool.and_eq_true, decide_eq_true_eq] at h
  obtain ⟨⟨hz, hx⟩, hy⟩ := h
  rw [ht.2, hx, hy, mul_div_cancel_right₀ _ (pow_ne_zero _ hz),
    mul_div_cancel_right₀ _ (pow_ne_zero _ hz)]

/-- A multiple of a point, computed. -/
theorem coords?_smul {x y x' y' : F} {bits k : ℕ} (hP : coords? P = some (x, y))
    (h : ((ofAffine x y).smul? bits k).any fun t => t.isAffine x' y') :
    coords? (k • P) = some (x', y') := by
  obtain ⟨t, ht, haffine⟩ := (Option.any_eq_true _ _).mp h
  exact (represents_smul (represents_ofAffine hP) ht).coords?_eq haffine

/-- A point whose multiple by `n - 1` is its inverse has the order `n`, if that is prime. -/
theorem order_eq_prime {x y : F} {bits n : ℕ} (hn : (n + 1).Prime)
    (hP : coords? P = some (x, y))
    (h : ((ofAffine x y).smul? bits n).any fun t => t.isAffine x (-y)) :
    addOrderOf P = n + 1 := by
  have hinv : n • P = -P := coords?_inj ((coords?_smul hP h).trans (coords?_neg hP).symm)
  have := Fact.mk hn
  apply addOrderOf_eq_prime
  · rw [add_smul, one_smul, hinv, neg_add_cancel]
  · rintro rfl
    cases hP

end Jacobian

end Foundations
