import Gateway.Wallet.WatchOnly

/-!
# Compressed points

A compressed point is a first coordinate and the parity of the second. The square root is a power,
because the prime of the field is 3 modulo 4, and of the two roots the parity picks one, because
the prime is odd and no point has a second coordinate of zero. So compression loses nothing, in
either direction (`point_compression_lossless`).
-/

namespace Gateway

open Foundations Foundations.ShortCurve

namespace Secp256k1

/-- `-7` is no cube in the field. -/
theorem cube_ne (x : ZMod p) : x ^ 3 + 7 ≠ 0 := by
  intro h
  have hcube : x ^ 3 = ((p - 7 : ℕ) : ZMod p) := by
    rw [Nat.cast_sub (by decide), ZMod.natCast_self, zero_sub, eq_neg_iff_add_eq_zero]
    exact_mod_cast h
  have hx : x ≠ 0 := by
    rintro rfl
    have hseven : (7 : ZMod p) ≠ 0 := by decide +kernel
    exact hseven (by simpa using h)
  -- the cube of a number that is not zero has order dividing a third of `p - 1`
  have hpow : (modPow p (p - 7) ((p - 1) / 3) : ZMod p) = 1 := by
    have hthird : 3 * ((p - 1) / 3) = p - 1 := by decide
    rw [cast_modPow, ← hcube, ← pow_mul, hthird]
    exact ZMod.pow_card_sub_one_eq_one hx
  have hne : (modPow p (p - 7) ((p - 1) / 3) : ZMod p) ≠ 1 := by decide +kernel
  exact hne hpow

end Secp256k1

/-! ## The chosen root -/

/-- The power that `_decompress_point` computes for a first coordinate. -/
def squareRoot (x : ℕ) : ℕ :=
  modPow Secp256k1.p ((x ^ 3 % Secp256k1.p + 7) % Secp256k1.p) ((Secp256k1.p + 1) / 4)

/-- The second coordinate that it takes: the root with the parity that the head asks for. -/
def chosenRoot (head : UInt8) (x : ℕ) : ℕ :=
  if (squareRoot x % 2 = 0) ≠ (head = 0x02) then Secp256k1.p - squareRoot x else squareRoot x

theorem decompressPoint_cons (head : UInt8) (xBytes : Bytes) :
    decompressPoint (head :: xBytes) = Secp256k1.curve.point? (Bytes.toNat xBytes : ZMod Secp256k1.p)
      (chosenRoot head (Bytes.toNat xBytes)) := rfl

theorem cast_ySquared (x : ℕ) :
    (((x ^ 3 % Secp256k1.p + 7) % Secp256k1.p : ℕ) : ZMod Secp256k1.p) =
      (x : ZMod Secp256k1.p) ^ 3 + 7 := by
  push_cast [ZMod.natCast_mod]
  rfl

theorem squareRoot_lt (x : ℕ) : squareRoot x < Secp256k1.p := by
  rw [squareRoot, modPow_eq]
  exact Nat.mod_lt _ (by decide)

section Root

variable {x : ℕ} (hsquare : IsSquare ((x : ZMod Secp256k1.p) ^ 3 + 7))

include hsquare

/-- The power is a root. -/
theorem sq_squareRoot : (squareRoot x : ZMod Secp256k1.p) ^ 2 = (x : ZMod Secp256k1.p) ^ 3 + 7 := by
  obtain ⟨root, hroot⟩ := hsquare
  rw [← sq] at hroot
  have hroots := modPow_sqrt (by decide) ((cast_ySquared x).trans hroot)
  rw [← squareRoot] at hroots
  rcases hroots with hy | hy
  · rw [hy, hroot]
  · rw [hy, neg_sq, hroot]

theorem squareRoot_pos : 0 < squareRoot x := by
  refine Nat.pos_of_ne_zero fun hzero => ?_
  have hsq := sq_squareRoot hsquare
  rw [hzero, Nat.cast_zero, zero_pow two_ne_zero] at hsq
  exact Secp256k1.cube_ne x hsq.symm

theorem sq_chosenRoot (head : UInt8) :
    (chosenRoot head x : ZMod Secp256k1.p) ^ 2 = (x : ZMod Secp256k1.p) ^ 3 + 7 := by
  have hsq := sq_squareRoot hsquare
  unfold chosenRoot
  split_ifs
  · rw [Nat.cast_sub (squareRoot_lt x).le, ZMod.natCast_self, zero_sub, neg_sq, hsq]
  · exact hsq

theorem chosenRoot_lt (head : UInt8) : chosenRoot head x < Secp256k1.p := by
  have hlt := squareRoot_lt x
  have hpos := squareRoot_pos hsquare
  unfold chosenRoot
  split_ifs <;> omega

/-- The root has the parity that the head asks for. -/
theorem chosenRoot_even (head : UInt8) : chosenRoot head x % 2 = 0 ↔ head = 0x02 := by
  have hlt := squareRoot_lt x
  have hpos := squareRoot_pos hsquare
  have hodd : Secp256k1.p % 2 = 1 := by decide
  by_cases heven : squareRoot x % 2 = 0 ↔ head = 0x02
  · rw [chosenRoot, if_neg (not_not.mpr (propext heven))]
    exact heven
  · rw [chosenRoot, if_pos fun heq => heven (iff_of_eq heq)]
    by_cases hhead : head = 0x02
    · simp only [hhead, iff_true] at heven ⊢
      omega
    · simp only [hhead, iff_false, not_not] at heven ⊢
      omega

end Root

/-! ## Both directions -/

/-- The bytes of a first coordinate on the curve are decompressed to the point of the chosen
root. -/
theorem coords?_decompressPoint (head : UInt8) {xBytes : Bytes}
    (hsquare : IsSquare ((Bytes.toNat xBytes : ZMod Secp256k1.p) ^ 3 + 7)) :
    ∃ P, decompressPoint (head :: xBytes) = some P ∧ coords? P =
      some (↑(Bytes.toNat xBytes), ↑(chosenRoot head (Bytes.toNat xBytes))) := by
  have hequation : (chosenRoot head (Bytes.toNat xBytes) : ZMod Secp256k1.p) ^ 2 =
      (Bytes.toNat xBytes : ZMod Secp256k1.p) ^ 3 + Secp256k1.curve.b := sq_chosenRoot hsquare head
  rw [decompressPoint_cons, point?, dif_pos hequation]
  exact ⟨_, rfl, rfl⟩

/-- A first coordinate that is on no point is not decompressed. -/
theorem decompressPoint_isSome {head : UInt8} {xBytes : Bytes} :
    (decompressPoint (head :: xBytes)).isSome ↔
      IsSquare ((Bytes.toNat xBytes : ZMod Secp256k1.p) ^ 3 + 7) := by
  constructor
  · intro h
    rw [decompressPoint_cons, point?] at h
    split_ifs at h with hequation
    · exact ⟨_, hequation.symm.trans (sq _)⟩
    · cases h
  · intro hsquare
    obtain ⟨P, hP, -⟩ := coords?_decompressPoint head hsquare
    rw [hP]
    rfl

/-- **Point compression is lossless**: a point other than the one at infinity comes back from its
compressed form, and so does a string of 33 bytes whose head is one of the two and whose first
coordinate is below the prime and on the curve. -/
theorem point_compression_lossless :
    (∀ P x y, coords? P = some (x, y) → (compressPoint P).bind decompressPoint = some P) ∧
    ∀ (head : UInt8) (xBytes : Bytes), head = 0x02 ∨ head = 0x03 → xBytes.length = 32 →
      Bytes.toNat xBytes < Secp256k1.p →
      IsSquare ((Bytes.toNat xBytes : ZMod Secp256k1.p) ^ 3 + 7) →
      (decompressPoint (head :: xBytes)).bind compressPoint = some (head :: xBytes) := by
  constructor
  · intro P x y hP
    obtain ⟨bs, hbs⟩ : ∃ bs, compressPoint P = some bs := ⟨_, by rw [compressPoint, hP]; rfl⟩
    rw [hbs, Option.bind_some, decompressPoint_compressPoint hbs]
  · intro head xBytes hhead hlen hlt hsquare
    obtain ⟨P, hP, hcoords⟩ := coords?_decompressPoint head hsquare
    have hx : (Bytes.toNat xBytes : ZMod Secp256k1.p).val = Bytes.toNat xBytes :=
      ZMod.val_cast_of_lt hlt
    have hy : (chosenRoot head (Bytes.toNat xBytes) : ZMod Secp256k1.p).val =
        chosenRoot head (Bytes.toNat xBytes) := ZMod.val_cast_of_lt (chosenRoot_lt hsquare head)
    have hbytes : Bytes.ofNat 32 (Bytes.toNat xBytes) = xBytes := by
      rw [← hlen, Bytes.ofNat_toNat]
    rw [hP, Option.bind_some, compressPoint, hcoords, Option.map_some, hx, hy, hbytes]
    simp only [chosenRoot_even hsquare]
    rcases hhead with rfl | rfl
    · rfl
    · rfl

/-- The generator of the curve, and its compressed form. -/
theorem point_compression_lossless_generator :
    (compressPoint Secp256k1.generator).bind decompressPoint = some Secp256k1.generator ∧
    (decompressPoint (0x02 :: Bytes.ofNat 32 Secp256k1.generatorCoords.1.val)).bind compressPoint =
      some (0x02 :: Bytes.ofNat 32 Secp256k1.generatorCoords.1.val) := by
  obtain ⟨hpoints, hbytes⟩ := point_compression_lossless
  refine ⟨hpoints _ _ _ Secp256k1.coords?_generator, hbytes _ _ (.inl rfl) (by simp) ?_ ?_⟩
  · rw [toNat_ofNat_val]
    exact ZMod.val_lt _
  · rw [toNat_ofNat_val, ZMod.natCast_zmod_val]
    exact ⟨_, (equation_of_coords Secp256k1.coords?_generator).symm.trans (sq _)⟩

end Gateway
