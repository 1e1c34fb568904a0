import Mathlib.Data.List.Induction
import Mathlib.Tactic.Ring

/-!
# Byte strings

Numbers as big-endian byte strings of a fixed length, the number of a byte string, and its
hexadecimal digits.
-/

namespace Foundations

/-- Values of type `bytes`. -/
abbrev Bytes := List UInt8

namespace Bytes

/-- The lower `len` bytes of a number. -/
def ofNat : (len n : ℕ) → Bytes
  | 0, _ => []
  | len + 1, n => ofNat len (n / 256) ++ [UInt8.ofNat (n % 256)]

/-- `int.to_bytes(len, "big")`; `none` is an `OverflowError`. -/
def ofInt? (len : ℕ) (n : ℤ) : Option Bytes :=
  if 0 ≤ n ∧ n < 256 ^ len then some (ofNat len n.toNat) else none

/-- `int.from_bytes(bytes, "big")`. -/
def toNat (bs : Bytes) : ℕ := bs.foldl (fun acc b => acc * 256 + b.toNat) 0

@[simp] theorem length_ofNat (len n : ℕ) : (ofNat len n).length = len := by
  induction len generalizing n with
  | zero => rfl
  | succ len ih => simp [ofNat, ih]

theorem toNat_append_singleton (bs : Bytes) (b : UInt8) :
    toNat (bs ++ [b]) = toNat bs * 256 + b.toNat := by
  simp [toNat]

theorem toNat_ofNat {len n : ℕ} (h : n < 256 ^ len) : toNat (ofNat len n) = n := by
  induction len generalizing n with
  | zero =>
    obtain rfl : n = 0 := by omega
    rfl
  | succ len ih =>
    have hdiv : n / 256 < 256 ^ len := by
      rw [pow_succ] at h
      omega
    rw [ofNat, toNat_append_singleton, ih hdiv, UInt8.toNat_ofNat']
    omega

/-- A byte string is the one of its number. -/
theorem ofNat_toNat (bs : Bytes) : ofNat bs.length (toNat bs) = bs := by
  induction bs using List.reverseRecOn with
  | nil => rfl
  | append_singleton bs b ih =>
    have hb := b.toNat_lt
    have hdiv : (toNat bs * 256 + b.toNat) / 256 = toNat bs := by omega
    have hmod : (toNat bs * 256 + b.toNat) % 256 = b.toNat := by omega
    rw [List.length_append, List.length_singleton, ofNat, toNat_append_singleton, hdiv, hmod, ih,
      UInt8.ofNat_toNat]

theorem toNat_lt (bs : Bytes) : toNat bs < 256 ^ bs.length := by
  induction bs using List.reverseRecOn with
  | nil => exact Nat.one_pos
  | append_singleton bs b ih =>
    have hb := b.toNat_lt
    rw [toNat_append_singleton, List.length_append, List.length_singleton, pow_succ]
    omega

theorem ofInt?_natCast {len n : ℕ} (h : n < 256 ^ len) : ofInt? len n = some (ofNat len n) := by
  rw [ofInt?, if_pos ⟨by omega, by exact_mod_cast h⟩, Int.toNat_natCast]

theorem ofInt?_eq_some {len : ℕ} {n : ℤ} {bs : Bytes} (h : ofInt? len n = some bs) :
    0 ≤ n ∧ n < 256 ^ len ∧ bs.length = len := by
  unfold ofInt? at h
  split_ifs at h with hn
  obtain rfl := Option.some.inj h
  exact ⟨hn.1, hn.2, length_ofNat _ _⟩

/-- The two hexadecimal digits of a byte. -/
def hexByte (b : UInt8) : List Char :=
  [Nat.digitChar (b.toNat / 16), Nat.digitChar (b.toNat % 16)]

/-- `bytes.hex()`. -/
def hex (bs : Bytes) : List Char := bs.flatMap hexByte

end Bytes

end Foundations
