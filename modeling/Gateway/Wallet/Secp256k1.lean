import Gateway.Foundations.Pratt
import Gateway.Foundations.ShortCurve

/-!
# The curve of the wallets

The group of secp256k1, in which the wallets of the merchants live. Its field and its order are
prime by certificates, and the generator has that order, so that a multiple of the generator is
the point at infinity exactly when the factor is zero modulo the order.
-/

namespace Gateway.Secp256k1

open Foundations Foundations.ShortCurve

/-- `_P`. -/
def p : ℕ := 2 ^ 256 - 2 ^ 32 - 977

/-- `_ORDER`. -/
def order : ℕ := 0xfffffffffffffffffffffffffffffffebaaedce6af48a03bbfd25e8cd0364141

/-- Lucas tests for the two numbers, and for the primes that they need. -/
def lucasTests : List LucasTest :=
  [⟨3, 2, [2]⟩, ⟨7, 3, [2, 3]⟩, ⟨5, 2, [2, 2]⟩, ⟨13441, 11, [2, 2, 2, 2, 2, 2, 2, 3, 5, 7]⟩,
    ⟨29, 2, [2, 2, 7]⟩, ⟨31, 3, [2, 3, 5]⟩, ⟨11, 2, [2, 5]⟩, ⟨13, 2, [2, 2, 3]⟩,
    ⟨7723, 3, [2, 3, 3, 3, 11, 13]⟩, ⟨17, 3, [2, 2, 2, 2]⟩, ⟨443, 2, [2, 13, 17]⟩,
    ⟨887, 5, [2, 443]⟩, ⟨5323, 5, [2, 3, 887]⟩, ⟨131, 2, [2, 5, 13]⟩, ⟨2621, 2, [2, 2, 5, 131]⟩,
    ⟨24809, 6, [2, 2, 2, 7, 443]⟩, ⟨97, 5, [2, 2, 2, 2, 2, 3]⟩, ⟨971, 6, [2, 5, 97]⟩,
    ⟨1373, 2, [2, 2, 7, 7, 7]⟩, ⟨13331831, 13, [2, 5, 971, 1373]⟩,
    ⟨173378833005251801, 6, [2, 2, 2, 5, 5, 2621, 24809, 13331831]⟩,
    ⟨22149492674086928081353, 5, [2, 2, 2, 3, 5323, 173378833005251801]⟩,
    ⟨132896956044521568488119, 6, [2, 3, 22149492674086928081353]⟩, ⟨271, 6, [2, 3, 3, 3, 5]⟩,
    ⟨1627, 3, [2, 3, 271]⟩, ⟨41, 6, [2, 2, 2, 5]⟩, ⟨83, 2, [2, 41]⟩, ⟨2657, 3, [2, 2, 2, 2, 2, 83]⟩,
    ⟨67, 2, [2, 3, 11]⟩, ⟨4423, 3, [2, 3, 11, 67]⟩, ⟨103, 5, [2, 3, 17]⟩,
    ⟨41201, 3, [2, 2, 2, 2, 5, 5, 103]⟩, ⟨101, 2, [2, 2, 5, 5]⟩, ⟨239, 7, [2, 7, 17]⟩,
    ⟨96557, 2, [2, 2, 101, 239]⟩, ⟨19, 2, [2, 3, 3]⟩, ⟨419, 2, [2, 11, 19]⟩,
    ⟨20113, 10, [2, 2, 2, 2, 3, 419]⟩, ⟨1206781, 10, [2, 2, 3, 5, 20113]⟩,
    ⟨7240687, 3, [2, 3, 1206781]⟩, ⟨53, 2, [2, 2, 13]⟩,
    ⟨107590001, 3, [2, 2, 2, 2, 5, 5, 5, 5, 7, 29, 53]⟩,
    ⟨255515944373312847190720520512484175977, 3,
      [2, 2, 2, 7, 7, 11, 1627, 2657, 4423, 41201, 96557, 7240687, 107590001]⟩,
    ⟨205115282021455665897114700593932402728804164701536103180137503955397371, 10,
      [2, 3, 5, 29, 29, 31, 7723, 132896956044521568488119,
        255515944373312847190720520512484175977]⟩,
    ⟨p, 3,
      [2, 3, 7, 13441, 205115282021455665897114700593932402728804164701536103180137503955397371]⟩,
    ⟨37, 2, [2, 2, 3, 3]⟩, ⟨149, 2, [2, 2, 37]⟩, ⟨631, 3, [2, 3, 3, 5, 7]⟩, ⟨23, 5, [2, 11]⟩,
    ⟨16699, 3, [2, 3, 11, 11, 23]⟩, ⟨2861, 2, [2, 2, 5, 11, 13]⟩, ⟨85831, 3, [2, 3, 5, 2861]⟩,
    ⟨2011, 3, [2, 3, 5, 67]⟩, ⟨4681609, 23, [2, 2, 2, 3, 97, 2011]⟩,
    ⟨107361793816595537, 3, [2, 2, 2, 2, 16699, 85831, 4681609]⟩, ⟨59, 2, [2, 29]⟩,
    ⟨4051, 10, [2, 3, 3, 3, 3, 5, 5]⟩, ⟨113, 3, [2, 2, 2, 2, 7]⟩,
    ⟨120233, 3, [2, 2, 2, 7, 19, 113]⟩, ⟨199, 3, [2, 3, 3, 11]⟩, ⟨797, 2, [2, 2, 199]⟩,
    ⟨9349, 2, [2, 2, 3, 19, 41]⟩, ⟨44706919, 6, [2, 3, 797, 9349]⟩,
    ⟨174723607534414371449, 3, [2, 2, 2, 17, 59, 4051, 120233, 44706919]⟩,
    ⟨109, 6, [2, 2, 3, 3, 3]⟩, ⟨73, 5, [2, 2, 2, 3, 3]⟩, ⟨293, 2, [2, 2, 73]⟩,
    ⟨2731, 3, [2, 3, 5, 7, 13]⟩, ⟨305873, 3, [2, 2, 2, 2, 7, 2731]⟩,
    ⟨1409, 3, [2, 2, 2, 2, 2, 2, 2, 11]⟩, ⟨28181, 2, [2, 2, 5, 1409]⟩,
    ⟨545358713, 5, [2, 2, 2, 41, 59, 28181]⟩, ⟨461, 2, [2, 2, 5, 23]⟩, ⟨1871, 14, [2, 5, 11, 17]⟩,
    ⟨1627771, 3, [2, 3, 5, 29, 1871]⟩, ⟨297159362677, 2, [2, 2, 3, 3, 11, 461, 1627771]⟩,
    ⟨29047611873442575647497758179, 2, [2, 293, 305873, 545358713, 297159362677]⟩,
    ⟨341948486974166000522343609283189, 2, [2, 2, 3, 3, 3, 109, 29047611873442575647497758179]⟩,
    ⟨order, 7,
      [2, 2, 2, 2, 2, 2, 3, 149, 631, 107361793816595537, 174723607534414371449,
        341948486974166000522343609283189]⟩]

theorem certified_lucasTests : LucasTest.certified [2] lucasTests := by decide +kernel

theorem prime_of_mem_lucasTests {q : ℕ} (h : q ∈ lucasTests.map LucasTest.number) : q.Prime := by
  obtain ⟨c, hc, rfl⟩ := List.mem_map.mp h
  exact LucasTest.prime_of_certified certified_lucasTests (by simp [Nat.prime_two]) c hc

theorem prime_p : p.Prime := prime_of_mem_lucasTests (by decide +kernel)

theorem prime_order : order.Prime := prime_of_mem_lucasTests (by decide +kernel)

instance : Fact p.Prime := ⟨prime_p⟩

/-- `_CURVE`: `y² = x³ + 7`. -/
def curve : ShortCurve (ZMod p) where
  b := 7
  b_ne_zero := by decide +kernel
  two_ne_zero := by decide +kernel
  three_ne_zero := by decide +kernel

/-- The points of secp256k1. -/
abbrev Point := curve.Point

/-- The coordinates of the generator. -/
def generatorCoords : ZMod p × ZMod p :=
  (0x79be667ef9dcbbac55a06295ce870b07029bfcdb2dce28d959f2815b16f81798,
    0x483ada7726a3c4655da4fbfc0e1108a8fd17b448a68554199c47d08ffb10d4b8)

/-- `_GENERATOR`. -/
def generator : Point :=
  .some generatorCoords.1 generatorCoords.2 (curve.nonsingular_iff.mpr (by decide +kernel))

theorem coords?_generator : coords? generator = some generatorCoords := rfl

/-- The coordinates of a multiple of the generator, computed. -/
theorem coords?_smul_generator {k : ℕ} {x y : ZMod p}
    (h : ((Jacobian.ofAffine generatorCoords.1 generatorCoords.2).smul? 256 k).any
      fun t => t.isAffine x y) : coords? (k • generator) = some (x, y) :=
  Jacobian.coords?_smul coords?_generator h

theorem addOrderOf_generator : addOrderOf generator = order := by
  have hsmul : ((Jacobian.ofAffine generatorCoords.1 generatorCoords.2).smul? 256
      (order - 1)).any fun t => t.isAffine generatorCoords.1 (-generatorCoords.2) := by
    decide +kernel
  have hone : order - 1 + 1 = order := Nat.sub_add_cancel (by decide +kernel)
  have hprime : (order - 1 + 1).Prime := by
    rw [hone]
    exact prime_order
  rw [Jacobian.order_eq_prime hprime coords?_generator hsmul, hone]

theorem smul_generator_eq_zero {k : ℕ} : k • generator = 0 ↔ k % order = 0 := by
  rw [← addOrderOf_dvd_iff_nsmul_eq_zero, addOrderOf_generator]
  exact Nat.dvd_iff_mod_eq_zero ..

/-- Only the factor modulo the order matters. -/
theorem smul_mod_order (k : ℕ) : (k % order) • generator = k • generator := by
  rw [← addOrderOf_generator, mod_addOrderOf_nsmul]

end Gateway.Secp256k1
