import Gateway.Foundations.Bytes
import Mathlib

/-!
# Hexadecimal digits as bytes

The inverse of `Bytes.hex`, which reads digits of either case.
-/

namespace Foundations

namespace Bytes

/-- The value of a hexadecimal digit of either case. -/
def hexDigit? (c : Char) : Option ℕ := "0123456789abcdef".toList.idxOf? c.toLower

/-- The bytes of hexadecimal digits. -/
def unhex? : List Char → Option Bytes
  | [] => some []
  | [_] => none
  | c :: d :: cs =>
    (hexDigit? c).bind fun x => (hexDigit? d).bind fun y =>
      (unhex? cs).map (UInt8.ofNat (16 * x + y) :: ·)

theorem hexDigit?_digitChar {d : ℕ} (h : d < 16) : hexDigit? (Nat.digitChar d) = some d := by
  have hall : ∀ d < 16, hexDigit? (Nat.digitChar d) = some d := by decide
  exact hall d h

@[simp] theorem hexDigit?_toLower (c : Char) : hexDigit? c.toLower = hexDigit? c := by
  rw [hexDigit?, Char.toLower_toLower_eq_toLower, hexDigit?]

/-- What begins with the digits of two bytes and more. -/
theorem unhex?_cons_cons {c d : Char} {cs : List Char} {bs : Bytes}
    (h : unhex? (c :: d :: cs) = some bs) : ∃ x y tail, hexDigit? c = some x ∧
      hexDigit? d = some y ∧ unhex? cs = some tail ∧ bs = UInt8.ofNat (16 * x + y) :: tail := by
  rw [unhex?] at h
  obtain ⟨x, hx, h⟩ := Option.bind_eq_some_iff.mp h
  obtain ⟨y, hy, h⟩ := Option.bind_eq_some_iff.mp h
  obtain ⟨tail, htail, rfl⟩ := Option.map_eq_some_iff.mp h
  exact ⟨x, y, tail, hx, hy, htail, rfl⟩

/-- **The digits of a byte string give it back.** -/
theorem unhex?_hex (bs : Bytes) : unhex? (hex bs) = some bs := by
  induction bs with
  | nil => rfl
  | cons b bs ih =>
    have hb := b.toNat_lt
    have hbyte : UInt8.ofNat (16 * (b.toNat / 16) + b.toNat % 16) = b := by
      rw [Nat.div_add_mod, UInt8.ofNat_toNat]
    have hcons : hex (b :: bs) =
        Nat.digitChar (b.toNat / 16) :: Nat.digitChar (b.toNat % 16) :: hex bs := rfl
    rw [hcons, unhex?, hexDigit?_digitChar (by omega), hexDigit?_digitChar (by omega), ih]
    exact congrArg (fun b => some (b :: bs)) hbyte

@[simp] theorem length_hex (bs : Bytes) : (hex bs).length = 2 * bs.length := by
  induction bs with
  | nil => rfl
  | cons b bs ih =>
    have hcons : hex (b :: bs) =
        Nat.digitChar (b.toNat / 16) :: Nat.digitChar (b.toNat % 16) :: hex bs := rfl
    rw [hcons, List.length_cons, List.length_cons, ih, List.length_cons]
    ring

/-- The digits of the last bytes are the last digits. -/
theorem drop_hex (n : ℕ) (bs : Bytes) : (hex bs).drop (2 * n) = hex (bs.drop n) := by
  induction n generalizing bs with
  | zero => rfl
  | succ n ih =>
    cases bs with
    | nil => simp [hex]
    | cons b bs => exact ih bs

theorem unhex?_append {cs : List Char} {bs : Bytes} (h : unhex? cs = some bs) (ds : List Char) :
    unhex? (cs ++ ds) = (unhex? ds).map (bs ++ ·) := by
  induction cs using unhex?.induct generalizing bs with
  | case1 =>
    cases h
    simp
  | case2 c => cases h
  | case3 c d cs ih =>
    obtain ⟨x, y, tail, hx, hy, htail, rfl⟩ := unhex?_cons_cons h
    rw [List.cons_append, List.cons_append, unhex?, hx, hy, ih htail]
    simp [Function.comp_def]

theorem length_of_unhex? {cs : List Char} {bs : Bytes} (h : unhex? cs = some bs) :
    cs.length = 2 * bs.length := by
  induction cs using unhex?.induct generalizing bs with
  | case1 =>
    cases h
    rfl
  | case2 c => cases h
  | case3 c d cs ih =>
    obtain ⟨x, y, tail, -, -, htail, rfl⟩ := unhex?_cons_cons h
    rw [List.length_cons, List.length_cons, List.length_cons, ih htail]
    ring

/-- The case of the digits does not matter. -/
@[simp] theorem unhex?_map_toLower (cs : List Char) :
    unhex? (cs.map Char.toLower) = unhex? cs := by
  induction cs using unhex?.induct with
  | case1 => rfl
  | case2 c => rfl
  | case3 c d cs ih => simp only [List.map_cons, unhex?, hexDigit?_toLower, ih]

/-- What is read as bytes consists of digits. -/
theorem hexDigit?_of_mem {cs : List Char} {bs : Bytes} (h : unhex? cs = some bs) {c : Char}
    (hc : c ∈ cs) : hexDigit? c ≠ none := by
  induction cs using unhex?.induct generalizing bs with
  | case1 => cases hc
  | case2 d => cases h
  | case3 d e cs ih =>
    obtain ⟨x, y, tail, hx, hy, htail, -⟩ := unhex?_cons_cons h
    rcases List.mem_cons.mp hc with rfl | hc
    · simp [hx]
    · rcases List.mem_cons.mp hc with rfl | hc
      · simp [hy]
      · exact ih htail hc

/-! ## Identifiers -/

/-- `str(uuid)` of the number of a UUID. -/
def uuidText (n : ℕ) : List Char :=
  let ds := hex (ofNat 16 n)
  ds.take 8 ++ '-' :: ((ds.drop 8).take 4 ++ '-' :: ((ds.drop 12).take 4 ++ '-' ::
    ((ds.drop 16).take 4 ++ '-' :: ds.drop 20)))

/-- The number of a UUID in its usual form. -/
def readUuid (cs : List Char) : Option ℕ :=
  if (cs.splitOn '-').map List.length = [8, 4, 4, 4, 12] then
    (unhex? (cs.filter (· ≠ '-'))).map toNat
  else none

/-- A UUID is read part by part. -/
theorem readUuid_parts {p₁ p₂ p₃ p₄ p₅ : List Char}
    (hdash : ∀ c ∈ p₁ ++ (p₂ ++ (p₃ ++ (p₄ ++ p₅))), c ≠ '-')
    (hlengths : [p₁, p₂, p₃, p₄, p₅].map List.length = [8, 4, 4, 4, 12]) :
    readUuid (p₁ ++ '-' :: (p₂ ++ '-' :: (p₃ ++ '-' :: (p₄ ++ '-' :: p₅)))) =
      (unhex? (p₁ ++ (p₂ ++ (p₃ ++ (p₄ ++ p₅))))).map toNat := by
  simp only [List.forall_mem_append] at hdash
  obtain ⟨h₁, h₂, h₃, h₄, h₅⟩ := hdash
  have hsplit {p : List Char} (hp : ∀ c ∈ p, c ≠ '-') : p.splitOn '-' = [p] :=
    List.splitOn_eq_singleton fun hc => hp '-' hc rfl
  have hfilter {p : List Char} (hp : ∀ c ∈ p, c ≠ '-') : p.filter (· ≠ '-') = p :=
    List.filter_eq_self.mpr fun c hc => by simpa using hp c hc
  have hskip (p : List Char) : ('-' :: p).filter (· ≠ '-') = p.filter (· ≠ '-') := rfl
  rw [readUuid]
  simp only [List.splitOn_append_cons_self, hsplit h₁, hsplit h₂, hsplit h₃, hsplit h₄, hsplit h₅,
    List.singleton_append, hlengths, if_true, List.filter_append, hskip, hfilter h₁, hfilter h₂,
    hfilter h₃, hfilter h₄, hfilter h₅]

/-- **A UUID is read as it was.** -/
theorem readUuid_uuidText {n : ℕ} (h : n < 2 ^ 128) : readUuid (uuidText n) = some n := by
  have hlength : (hex (ofNat 16 n)).length = 32 := by rw [length_hex, length_ofNat]
  have hjoin : (hex (ofNat 16 n)).take 8 ++ (((hex (ofNat 16 n)).drop 8).take 4 ++
      (((hex (ofNat 16 n)).drop 12).take 4 ++ (((hex (ofNat 16 n)).drop 16).take 4 ++
        (hex (ofNat 16 n)).drop 20))) = hex (ofNat 16 n) := by
    rw [← List.drop_drop (i := 4) (j := 16), List.take_append_drop,
      ← List.drop_drop (i := 4) (j := 12), List.take_append_drop,
      ← List.drop_drop (i := 4) (j := 8), List.take_append_drop, List.take_append_drop]
  rw [uuidText, readUuid_parts, hjoin, unhex?_hex, Option.map_some,
    toNat_ofNat (h.trans_eq (by norm_num))]
  · rw [hjoin]
    rintro c hc rfl
    exact hexDigit?_of_mem (unhex?_hex _) hc (by decide)
  · simp [hlength]

end Bytes

end Foundations
