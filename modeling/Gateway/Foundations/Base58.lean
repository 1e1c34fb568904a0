import Mathlib.Data.List.GetD
import Mathlib.Data.Nat.Digits.Lemmas
import Gateway.Foundations.Bytes
import Gateway.Foundations.FirstMatch
import Gateway.Foundations.PyText

/-!
# Base58

The encoding of byte strings over an alphabet of 58 characters: the digits of the number that the
bytes stand for, after one `1` for each leading zero byte. Decoding drops trailing blanks and undoes
the encoding (`decode_encode`).
-/

namespace Foundations.Base58

/-- The characters of the digits. -/
def alphabet : List Char :=
  "123456789ABCDEFGHJKLMNPQRSTUVWXYZabcdefghijkmnopqrstuvwxyz".toList

/-- The character of a digit. -/
def digitChar (d : ℕ) : Char := alphabet.getD d '1'

/-- `base58.b58encode`. -/
def encode (bs : Bytes) : List Char :=
  List.replicate (bs.takeWhile (· = 0)).length '1' ++
    ((Nat.digits 58 (Bytes.toNat bs)).reverse.map digitChar)

/-- The digit of a character; `none` is a character outside the alphabet. -/
def digit? (c : Char) : Option ℕ := alphabet.idxOf? c

/-- The text without the blanks at its end. -/
def rstrip (s : List Char) : List Char := (s.reverse.dropWhile PyText.isSpace).reverse

/-- `base58.b58decode`; `none` is a `ValueError`. -/
def decode (s : List Char) : Option Bytes :=
  let s := rstrip s
  ((s.dropWhile (· = '1')).mapM digit?).map fun ds =>
    List.replicate (s.takeWhile (· = '1')).length 0 ++
      ((Nat.digits 256 (Nat.ofDigits 58 ds.reverse)).reverse.map UInt8.ofNat)

/-! ## Characters -/

theorem digit?_digitChar {d : ℕ} (h : d < 58) : digit? (digitChar d) = some d := by
  have hall : ∀ d < 58, digit? (digitChar d) = some d := by decide +kernel
  exact hall d h

theorem digitChar_ne_one {d : ℕ} (h : d < 58) (h0 : d ≠ 0) : digitChar d ≠ '1' := by
  intro heq
  have hd := digit?_digitChar h
  rw [heq] at hd
  exact h0 (Option.some.inj hd).symm

theorem isSpace_digitChar (d : ℕ) : PyText.isSpace (digitChar d) = false := by
  have hall : alphabet.all (fun c => !PyText.isSpace c) := by decide +kernel
  unfold digitChar
  rcases Nat.lt_or_ge d alphabet.length with hd | hd
  · rw [List.getD_eq_getElem _ _ hd]
    simpa using List.all_eq_true.mp hall _ (List.getElem_mem hd)
  · rw [List.getD_eq_default _ _ hd]
    decide

theorem isSpace_of_mem_alphabet {c : Char} (h : c ∈ alphabet) : PyText.isSpace c = false := by
  obtain ⟨d, hd, rfl⟩ := List.mem_iff_getElem.mp h
  rw [← List.getD_eq_getElem _ '1' hd]
  exact isSpace_digitChar d

/-- Text whose blanks are all at its end loses the same blanks on both sides. -/
theorem strip_eq_rstrip {s : List Char} (h : ∀ c ∈ rstrip s, PyText.isSpace c = false) :
    PyText.strip s = rstrip s := by
  cases s with
  | nil => rfl
  | cons c s =>
    unfold PyText.strip PyText.stripBy
    by_cases hc : PyText.isSpace c
    · -- a blank in front is one of those at the end
      have hempty : rstrip (c :: s) = [] := by
        have hprefix : rstrip (c :: s) <+: c :: s := List.rdropWhile_prefix _ _
        rcases List.prefix_cons_iff.mp hprefix with hnil | ⟨t, ht, -⟩
        · exact hnil
        · have hblank := h c (by rw [ht]; exact List.mem_cons_self)
          rw [hc] at hblank
          cases hblank
      have hall : ∀ d ∈ c :: s, PyText.isSpace d := List.rdropWhile_eq_nil_iff.mp hempty
      rw [hempty, List.dropWhile_eq_nil_iff.mpr hall]
      rfl
    · rw [List.dropWhile_cons_of_neg hc]
      rfl

theorem mapM_digitChar {ds : List ℕ} (h : ∀ d ∈ ds, d < 58) :
    (ds.map digitChar).mapM digit? = some ds := by
  induction ds with
  | nil => rfl
  | cons d ds ih =>
    rw [List.map_cons, List.mapM_cons, digit?_digitChar (h d (by simp)),
      ih fun d hd => h d (List.mem_cons_of_mem _ hd)]
    rfl

/-! ## Bytes as digits -/

/-- The number of a byte string, by its digits in base 256. -/
theorem toNat_eq_ofDigits (bs : Bytes) :
    Bytes.toNat bs = Nat.ofDigits 256 (bs.map UInt8.toNat).reverse := by
  induction bs using List.reverseRecOn with
  | nil => rfl
  | append_singleton bs b ih =>
    rw [Bytes.toNat_append_singleton, ih, List.map_append, List.reverse_append]
    simp only [List.map_cons, List.map_nil, List.reverse_singleton, List.singleton_append,
      Nat.ofDigits_cons]
    ring

theorem toNat_dropWhile_zero (bs : Bytes) :
    Bytes.toNat (bs.dropWhile (· = 0)) = Bytes.toNat bs := by
  induction bs with
  | nil => rfl
  | cons b bs ih =>
    by_cases hb : b = 0
    · subst hb
      rw [List.dropWhile_cons_of_pos (by simp), ih]
      simp [Bytes.toNat]
    · rw [List.dropWhile_cons_of_neg (by simpa using hb)]

/-- The digits of the number are the bytes after the leading zeros. -/
theorem digits_toNat (bs : Bytes) :
    ((Nat.digits 256 (Bytes.toNat bs)).reverse.map UInt8.ofNat) = bs.dropWhile (· = 0) := by
  rw [← toNat_dropWhile_zero, toNat_eq_ofDigits, Nat.digits_ofDigits 256 (by norm_num)]
  · rw [List.reverse_reverse, List.map_map]
    conv_rhs => rw [← List.map_id (bs.dropWhile (· = 0))]
    exact List.map_congr_left fun b _ => UInt8.ofNat_toNat
  · intro d hd
    obtain ⟨b, -, rfl⟩ := List.mem_map.mp (List.mem_reverse.mp hd)
    exact b.toNat_lt
  · intro hne hlast
    cases hbs : bs.dropWhile (· = 0) with
    | nil => simp [hbs] at hne
    | cons b rest =>
      have hb : b ≠ 0 := by
        have := List.head_dropWhile_not (fun b : UInt8 => b = 0)
          (show bs.dropWhile _ ≠ [] by simp [hbs])
        simpa [hbs] using this
      simp only [hbs, List.map_cons, List.reverse_cons, List.getLast_append_singleton] at hlast
      exact hb (UInt8.toNat_inj.mp hlast)

/-- The first digit of a number is not zero. -/
theorem dropWhile_digits (n : ℕ) :
    ((Nat.digits 58 n).reverse.map digitChar).takeWhile (· = '1') = [] ∧
      ((Nat.digits 58 n).reverse.map digitChar).dropWhile (· = '1') =
        (Nat.digits 58 n).reverse.map digitChar := by
  rcases eq_or_ne n 0 with rfl | hn
  · simp
  · have hne : Nat.digits 58 n ≠ [] := Nat.digits_ne_nil_iff_ne_zero.mpr hn
    have hlast := Nat.getLast_digit_ne_zero 58 hn
    have hlt := Nat.digits_lt_base (show 1 < 58 by norm_num) (List.getLast_mem hne)
    obtain ⟨ds, d, hds⟩ : ∃ ds d, Nat.digits 58 n = ds ++ [d] :=
      ⟨_, _, (List.dropLast_append_getLast hne).symm⟩
    simp only [hds, List.getLast_append_singleton] at hlast hlt
    have hchar := digitChar_ne_one hlt hlast
    rw [hds, List.reverse_append, List.reverse_singleton, List.singleton_append, List.map_cons]
    constructor
    · rw [List.takeWhile_cons_of_neg (by simpa using hchar)]
    · rw [List.dropWhile_cons_of_neg (by simpa using hchar)]

/-- There are no blanks in an encoding. -/
theorem rstrip_encode (bs : Bytes) : rstrip (encode bs) = encode bs := by
  have hspace : ∀ c ∈ encode bs, PyText.isSpace c = false := by
    intro c hc
    rcases List.mem_append.mp hc with hc | hc
    · rw [List.eq_of_mem_replicate hc]
      decide
    · obtain ⟨d, -, rfl⟩ := List.mem_map.mp hc
      exact isSpace_digitChar d
  have hback := (PyText.stripBy_eq_self_iff.mp (PyText.stripBy_eq_self hspace)).2
  rw [rstrip, hback, List.reverse_reverse]

/-- **Decoding undoes encoding.** -/
theorem decode_encode (bs : Bytes) : decode (encode bs) = some bs := by
  have hones : ∀ c ∈ List.replicate (bs.takeWhile (· = 0)).length '1', decide (c = '1') = true :=
    fun c hc => decide_eq_true (List.eq_of_mem_replicate hc)
  obtain ⟨htake, hdrop⟩ := dropWhile_digits (Bytes.toNat bs)
  have hlt : ∀ d ∈ (Nat.digits 58 (Bytes.toNat bs)).reverse, d < 58 := fun d hd =>
    Nat.digits_lt_base (by norm_num) (List.mem_reverse.mp hd)
  have hzeros : bs.takeWhile (· = 0) = List.replicate (bs.takeWhile (· = 0)).length 0 :=
    List.eq_replicate_of_mem fun b hb => by simpa using List.mem_takeWhile_imp hb
  simp only [decode, rstrip_encode]
  rw [encode, List.takeWhile_append_of_pos hones, List.dropWhile_append_of_pos hones, htake, hdrop,
    mapM_digitChar hlt, Option.map_some, List.reverse_reverse, Nat.ofDigits_digits, digits_toNat,
    List.append_nil, List.length_replicate, ← hzeros, List.takeWhile_append_dropWhile]

/-! ## Texts that are decoded -/

theorem decode_rstrip (s : List Char) : decode (rstrip s) = decode s := by
  have hidem : rstrip (rstrip s) = rstrip s := List.rdropWhile_idempotent _ s
  simp only [decode, hidem]

/-- Only the blanks at the end of a text may be outside the alphabet. -/
theorem mem_alphabet_of_decode {s : List Char} {bs : Bytes} (h : decode s = some bs) :
    ∀ c ∈ rstrip s, c ∈ alphabet := by
  intro c hc
  obtain ⟨ds, hds, -⟩ := Option.map_eq_some_iff.mp h
  rw [← List.takeWhile_append_dropWhile (l := rstrip s) (p := (· = '1'))] at hc
  rcases List.mem_append.mp hc with hc | hc
  · have hone := List.mem_takeWhile_imp hc
    obtain rfl := of_decide_eq_true hone
    decide
  · obtain ⟨d, -, hd⟩ := exists_of_mapM hds hc
    exact List.isSome_idxOf?.mp (Option.isSome_of_eq_some hd)

theorem decode_ofList_encode (bs : Bytes) :
    decode (String.ofList (encode bs)).toList = some bs := by
  rw [String.toList_ofList, decode_encode]

end Foundations.Base58
