import Mathlib.Data.List.DropRight
import Mathlib.Data.List.Induction
import Mathlib.Data.Nat.Digits.Defs
import Gateway.Foundations.Decimal

/-!
# Numbers in Python text

How Python reads numbers out of strings: `int(text, base)` (`pyInt`) and the `Decimal`
constructor (`pyDecimal`), with the Unicode digits and blanks both of them accept. Texts are
lists of characters, so that the definitions are structurally recursive.
-/

namespace Foundations.PyText

/-! ## Characters -/

/-- `str.isspace` of one character. -/
def isSpace (c : Char) : Bool :=
  let n := c.toNat
  (9 ≤ n && n ≤ 13) || (28 ≤ n && n ≤ 32) || n == 0x85 || n == 0xa0 || n == 0x1680 ||
    (0x2000 ≤ n && n ≤ 0x200a) || n == 0x2028 || n == 0x2029 || n == 0x202f || n == 0x205f ||
    n == 0x3000

/-- The digits zero of the scripts that have decimal digits, each followed by the other nine. -/
def zeroDigits : List ℕ :=
  [0x30, 0x660, 0x6f0, 0x7c0, 0x966, 0x9e6, 0xa66, 0xae6, 0xb66, 0xbe6, 0xc66, 0xce6, 0xd66,
    0xde6, 0xe50, 0xed0, 0xf20, 0x1040, 0x1090, 0x17e0, 0x1810, 0x1946, 0x19d0, 0x1a80, 0x1a90,
    0x1b50, 0x1bb0, 0x1c40, 0x1c50, 0xa620, 0xa8d0, 0xa900, 0xa9d0, 0xa9f0, 0xaa50, 0xabf0,
    0xff10, 0x104a0, 0x10d30, 0x11066, 0x110f0, 0x11136, 0x111d0, 0x112f0, 0x11450, 0x114d0,
    0x11650, 0x116c0, 0x11730, 0x118e0, 0x11950, 0x11c50, 0x11d50, 0x11da0, 0x11f50, 0x16a60,
    0x16ac0, 0x16b50, 0x1d7ce, 0x1d7d8, 0x1d7e2, 0x1d7ec, 0x1d7f6, 0x1e140, 0x1e2f0, 0x1e4f0,
    0x1e950, 0x1fbf0]

/-- The value of a decimal digit of any script. -/
def decimalDigit? (c : Char) : Option ℕ :=
  (zeroDigits.find? fun z => z ≤ c.toNat && c.toNat < z + 10).map (c.toNat - ·)

/-- Both number parsers first replace the digits and blanks beyond ASCII by ASCII ones. -/
def foldAscii (c : Char) : Char :=
  if c.toNat < 127 then c
  else if isSpace c then ' '
  else match decimalDigit? c with
    | some d => Char.ofNat (48 + d)
    | none => '?'

/-- Drop the leading and trailing characters that satisfy `p`. -/
def stripBy (p : Char → Bool) (s : List Char) : List Char :=
  ((s.dropWhile p).reverse.dropWhile p).reverse

/-- `str.strip()`. -/
def strip (s : List Char) : List Char := stripBy isSpace s

/-! ## `int(text, base)` -/

/-- The blanks that `int` skips around a number, once folded to ASCII. -/
def isAsciiSpace (c : Char) : Bool := (9 ≤ c.toNat && c.toNat ≤ 13) || c == ' '

/-- The value of an ASCII digit or letter as a digit of the base. -/
def digit? (base : ℕ) (c : Char) : Option ℕ :=
  let n := c.toNat
  let d := if 48 ≤ n ∧ n ≤ 57 then n - 48
    else if 97 ≤ n ∧ n ≤ 122 then n - 87
    else if 65 ≤ n ∧ n ≤ 90 then n - 55
    else base
  if d < base then some d else none

/-- The digits after the first one: an underscore may stand before each of them. -/
def moreDigits (base : ℕ) : List Char → Option (List ℕ)
  | [] => some []
  | '_' :: c :: cs => do
    let d ← digit? base c
    let ds ← moreDigits base cs
    return d :: ds
  | c :: cs => do
    let d ← digit? base c
    let ds ← moreDigits base cs
    return d :: ds

/-- A nonempty sequence of digits, most significant first. -/
def digits (base : ℕ) : List Char → Option (List ℕ)
  | [] => none
  | c :: cs => do
    let d ← digit? base c
    let ds ← moreDigits base cs
    return d :: ds

/-- The number with the given digits, most significant first. -/
def ofDigits (base : ℕ) (ds : List ℕ) : ℕ := ds.foldl (fun acc d => acc * base + d) 0

/-- A sign is at most one character. -/
def splitSign : List Char → Bool × List Char
  | '-' :: cs => (true, cs)
  | '+' :: cs => (false, cs)
  | cs => (false, cs)

/-- In base 16 one `0x` may precede the digits, and one underscore may follow it. -/
def dropPrefix (base : ℕ) : List Char → List Char
  | '0' :: 'x' :: '_' :: cs => if base = 16 then cs else '0' :: 'x' :: '_' :: cs
  | '0' :: 'X' :: '_' :: cs => if base = 16 then cs else '0' :: 'X' :: '_' :: cs
  | '0' :: 'x' :: cs => if base = 16 then cs else '0' :: 'x' :: cs
  | '0' :: 'X' :: cs => if base = 16 then cs else '0' :: 'X' :: cs
  | cs => cs

/-- The interpreter's limit on the digits of a number whose base is not a power of two. -/
def maxStrDigits : ℕ := 4300

/-- `int(text, base)` for the bases 10 and 16; `none` is a `ValueError`. -/
def pyInt (base : ℕ) (s : List Char) : Option ℤ := do
  let (negative, s) := splitSign (stripBy isAsciiSpace (s.map foldAscii))
  let ds ← digits base (dropPrefix base s)
  if base = 10 ∧ maxStrDigits < ds.length then none
  else return if negative then -(ofDigits base ds : ℤ) else ofDigits base ds

/-! ### Plain numerals -/

theorem ofDigits_eq (base : ℕ) (ds : List ℕ) : ofDigits base ds = Nat.ofDigits base ds.reverse := by
  induction ds using List.reverseRecOn with
  | nil => rfl
  | append_singleton ds d ih =>
    rw [List.reverse_append, List.reverse_singleton, List.singleton_append, Nat.ofDigits_cons, ← ih]
    simp only [ofDigits, List.foldl_append, List.foldl_cons, List.foldl_nil]
    ring

/-- A digit is an ASCII digit or letter, which is neither folded nor a blank. -/
theorem of_digit? {base d : ℕ} {c : Char} (h : digit? base c = some d) :
    foldAscii c = c ∧ isAsciiSpace c = false ∧ c ≠ '_' ∧ c ≠ '+' ∧ c ≠ '-' := by
  have hrange : 48 ≤ c.toNat ∧ c.toNat ≤ 122 ∧ c.toNat ≠ 95 := by
    unfold digit? at h
    grind
  refine ⟨if_pos (by omega), ?_, ?_, ?_, ?_⟩
  · have hc : c ≠ ' ' := fun hc => absurd hrange.1 (by rw [hc]; decide)
    simp only [isAsciiSpace, Bool.or_eq_false_iff, Bool.and_eq_false_iff, beq_eq_false_iff_ne]
    exact ⟨.inr (by simp; omega), hc⟩
  · exact fun hc => hrange.2.2 (by rw [hc]; decide)
  · exact fun hc => absurd hrange.1 (by rw [hc]; decide)
  · exact fun hc => absurd hrange.1 (by rw [hc]; decide)

theorem stripBy_eq_self {p : Char → Bool} {s : List Char} (h : ∀ c ∈ s, p c = false) :
    stripBy p s = s := by
  have hdrop {t : List Char} (ht : ∀ c ∈ t, p c = false) : t.dropWhile p = t := by
    cases t with
    | nil => rfl
    | cons c t => rw [List.dropWhile_cons_of_neg (by simp [ht c List.mem_cons_self])]
  rw [stripBy, hdrop h, hdrop (fun c hc => h c (List.mem_reverse.mp hc)), List.reverse_reverse]

theorem dropWhile_append_of_eq {p : Char → Bool} {s t : List Char} (hs : s.dropWhile p = s)
    (ht : t.dropWhile p = t) : (s ++ t).dropWhile p = s ++ t := by
  cases s with
  | nil => exact ht
  | cons c s =>
    have hc : p c = false := by
      by_contra hc
      rw [List.dropWhile_cons_of_pos (by simpa using hc)] at hs
      have hlength := (List.dropWhile_sublist p (l := s)).length_le
      rw [hs, List.length_cons] at hlength
      omega
    rw [List.cons_append, List.dropWhile_cons_of_neg (by simp [hc])]

theorem stripBy_eq_self_iff {p : Char → Bool} {s : List Char} :
    stripBy p s = s ↔ s.dropWhile p = s ∧ s.reverse.dropWhile p = s.reverse := by
  constructor
  · intro h
    have hfront : s.dropWhile p = s := by
      apply (List.dropWhile_sublist p).eq_of_length_le
      have hlength := (List.dropWhile_sublist p (l := (s.dropWhile p).reverse)).length_le
      rw [← List.length_reverse, ← stripBy, h, List.length_reverse] at hlength
      exact hlength
    refine ⟨hfront, ?_⟩
    rw [stripBy, hfront] at h
    rw [← List.reverse_inj, h, List.reverse_reverse]
  · rintro ⟨hfront, hback⟩
    rw [stripBy, hfront, hback, List.reverse_reverse]

/-- Stripping leaves two stripped texts alone that follow one another. -/
theorem stripBy_append {p : Char → Bool} {s t : List Char} (hs : stripBy p s = s)
    (ht : stripBy p t = t) : stripBy p (s ++ t) = s ++ t := by
  rw [stripBy_eq_self_iff] at hs ht ⊢
  rw [List.reverse_append]
  exact ⟨dropWhile_append_of_eq hs.1 ht.1, dropWhile_append_of_eq ht.2 hs.2⟩

/-- A text of digits only. -/
def IsNumeral (base : ℕ) (s : List Char) : Prop := ∀ c ∈ s, (digit? base c).isSome

instance (base : ℕ) (s : List Char) : Decidable (IsNumeral base s) :=
  List.decidableBAll (fun c => (digit? base c).isSome) s

/-- The number that a text of digits stands for. -/
def numeral (base : ℕ) (s : List Char) : ℕ := Nat.ofDigits base (s.filterMap (digit? base)).reverse

theorem IsNumeral.cons {base : ℕ} {c : Char} {s : List Char} (h : IsNumeral base (c :: s)) :
    (∃ d, digit? base c = some d) ∧ IsNumeral base s :=
  ⟨Option.isSome_iff_exists.mp (h c List.mem_cons_self), fun c' hc => h c' (.tail _ hc)⟩

theorem IsNumeral.map_foldAscii {base : ℕ} {s : List Char} (h : IsNumeral base s) :
    s.map foldAscii = s := by
  induction s with
  | nil => rfl
  | cons c s ih =>
    obtain ⟨⟨d, hd⟩, hs⟩ := h.cons
    rw [List.map_cons, (of_digit? hd).1, ih hs]

theorem IsNumeral.isAsciiSpace {base : ℕ} {s : List Char} (h : IsNumeral base s) :
    ∀ c ∈ s, isAsciiSpace c = false := by
  intro c hc
  obtain ⟨d, hd⟩ := Option.isSome_iff_exists.mp (h c hc)
  exact (of_digit? hd).2.1

theorem IsNumeral.moreDigits {base : ℕ} {s : List Char} (h : IsNumeral base s) :
    moreDigits base s = some (s.filterMap (digit? base)) := by
  induction s with
  | nil => rfl
  | cons c s ih =>
    obtain ⟨⟨d, hd⟩, hs⟩ := h.cons
    have hc := (of_digit? hd).2.2.1
    rw [PyText.moreDigits, ih hs, hd]
    · rw [List.filterMap_cons_some hd]
      rfl
    · rintro c' cs' rfl
      exact absurd rfl hc

theorem IsNumeral.digits {base : ℕ} {s : List Char} (h : IsNumeral base s) (hs : s ≠ []) :
    digits base s = some (s.filterMap (digit? base)) := by
  cases s with
  | nil => exact absurd rfl hs
  | cons c s =>
    obtain ⟨⟨d, hd⟩, hs⟩ := h.cons
    simp [PyText.digits, hd, hs.moreDigits]

theorem splitSign_of_ne {c : Char} {s : List Char} (hp : c ≠ '+') (hm : c ≠ '-') :
    splitSign (c :: s) = (false, c :: s) := by
  unfold splitSign
  split <;> simp_all

/-- The part of `int` that reads digits, once blanks, sign and prefix are gone. -/
theorem pyInt_eq {base : ℕ} {s ds : List Char} (hfold : s.map foldAscii = s)
    (hspace : ∀ c ∈ s, PyText.isAsciiSpace c = false) (hsign : splitSign s = (false, s))
    (hdrop : dropPrefix base s = ds) (h : IsNumeral base ds) (hds : ds ≠ [])
    (hlen : base = 10 → ds.length ≤ maxStrDigits) : pyInt base s = some (numeral base ds) := by
  have hlen' : ¬(base = 10 ∧ maxStrDigits < (ds.filterMap (digit? base)).length) := by
    rintro ⟨hb, hlt⟩
    exact absurd (hlt.trans_le (List.length_filterMap_le _ _)) (not_lt.mpr (hlen hb))
  simp only [pyInt, hfold, stripBy_eq_self hspace, hsign, hdrop, h.digits hds, bind,
    Option.bind_some, if_neg hlen', ofDigits_eq]
  rfl

/-- **In base 16 `int` reads a prefixed text of digits as the number it stands for.** -/
theorem pyInt_prefixed {ds : List Char} (h : IsNumeral 16 ds) (hds : ds ≠ []) :
    pyInt 16 ('0' :: 'x' :: ds) = some (numeral 16 ds) := by
  refine pyInt_eq ?_ ?_ (splitSign_of_ne (by decide) (by decide)) ?_ h hds (by simp)
  · rw [List.map_cons, List.map_cons, h.map_foldAscii]
    rfl
  · intro c hc
    rcases List.mem_cons.mp hc with rfl | hc
    · rfl
    · rcases List.mem_cons.mp hc with rfl | hc
      · rfl
      · exact h.isAsciiSpace c hc
  · cases ds with
    | nil => exact absurd rfl hds
    | cons c ds =>
      obtain ⟨⟨d, hd⟩, -⟩ := h.cons
      have hc := (of_digit? hd).2.2.1
      unfold dropPrefix
      split <;> simp_all

/-! ### The text of a number -/

theorem digit?_of_isDigit {c : Char} (h : c.isDigit) : digit? 10 c = some (c.toNat - 48) := by
  have hrange : 48 ≤ c.toNat ∧ c.toNat ≤ 57 := Char.isDigit_iff_toNat.mp h
  have hlt : c.toNat - 48 < 10 := by omega
  simp only [digit?, if_pos hrange, if_pos hlt]

theorem isSpace_of_isDigit {c : Char} (h : c.isDigit) : isSpace c = false := by
  have hrange : 48 ≤ c.toNat ∧ c.toNat ≤ 57 := Char.isDigit_iff_toNat.mp h
  simp only [isSpace, Bool.or_eq_false_iff, Bool.and_eq_false_iff, decide_eq_false_iff_not,
    beq_eq_false_iff_ne]
  omega

theorem dropPrefix_ten (s : List Char) : dropPrefix 10 s = s := by
  unfold dropPrefix
  split <;> simp

theorem ofDigitChars_eq_numeral {s : List Char} (h : ∀ c ∈ s, c.isDigit) :
    Nat.ofDigitChars 10 s 0 = numeral 10 s := by
  rw [numeral, ← ofDigits_eq, ofDigits, Nat.ofDigitChars_eq_foldl]
  have hmap : s.filterMap (digit? 10) = s.map fun c => c.toNat - 48 := by
    induction s with
    | nil => rfl
    | cons c s ih =>
      rw [List.filterMap_cons_some (digit?_of_isDigit (h c (by simp))), List.map_cons,
        ih fun c hc => h c (List.mem_cons_of_mem _ hc)]
  rw [hmap, List.foldl_map]
  simp only [mul_comm]
  rfl

theorem IsNumeral.splitSign {base : ℕ} {s : List Char} (h : IsNumeral base s) :
    splitSign s = (false, s) := by
  cases s with
  | nil => rfl
  | cons c s =>
    obtain ⟨⟨d, hd⟩, -⟩ := h.cons
    exact splitSign_of_ne (of_digit? hd).2.2.2.1 (of_digit? hd).2.2.2.2

/-- What `int` reads a text of digits as, unless there are too many. -/
theorem eq_numeral_of_pyInt {s : List Char} (h : IsNumeral 10 s) (hs : s ≠ []) {n : ℤ}
    (hn : pyInt 10 s = some n) : n = numeral 10 s := by
  simp only [pyInt, h.map_foldAscii, stripBy_eq_self h.isAsciiSpace, h.splitSign, dropPrefix_ten,
    h.digits hs, bind, Option.bind_some] at hn
  split_ifs at hn with hlen hfalse
  · cases hfalse
  · obtain rfl := Option.some.inj hn
    rw [ofDigits_eq]
    rfl

/-- **`int` reads the text of a number as that number.** -/
theorem pyInt_toDigits {n : ℕ} (h : (Nat.toDigits 10 n).length ≤ maxStrDigits) :
    pyInt 10 (Nat.toDigits 10 n) = some (n : ℤ) := by
  have hdigit : ∀ c ∈ Nat.toDigits 10 n, c.isDigit := fun c hc =>
    Nat.isDigit_of_mem_toDigits (by decide) (by decide) hc
  have hnumeral : IsNumeral 10 (Nat.toDigits 10 n) := fun c hc => by
    rw [digit?_of_isDigit (hdigit c hc)]
    rfl
  rw [pyInt_eq hnumeral.map_foldAscii hnumeral.isAsciiSpace hnumeral.splitSign (dropPrefix_ten _)
    hnumeral Nat.toDigits_ne_nil fun _ => h, ← ofDigitChars_eq_numeral hdigit,
    Nat.ofDigitChars_ten_toDigits]
  rfl

/-! ### A prefix in front of a number -/

theorem lt_of_digit? {base d : ℕ} {c : Char} (h : digit? base c = some d) : d < base := by
  unfold digit? at h
  grind

theorem moreDigits_bound {base : ℕ} {s : List Char} {ds : List ℕ}
    (h : PyText.moreDigits base s = some ds) : (∀ d ∈ ds, d < base) ∧ ds.length ≤ s.length := by
  induction s using PyText.moreDigits.induct generalizing ds with
  | case1 =>
    obtain rfl : [] = ds := by simpa [PyText.moreDigits] using h
    simp
  | case2 c cs ih =>
    simp only [PyText.moreDigits, Option.bind_eq_bind, Option.bind_eq_some_iff] at h
    obtain ⟨d, hd, ds', hds', he⟩ := h
    obtain rfl : d :: ds' = ds := Option.some.inj he
    obtain ⟨hlt, hlen⟩ := ih hds'
    refine ⟨?_, by simp only [List.length_cons]; omega⟩
    simpa using ⟨lt_of_digit? hd, hlt⟩
  | case3 c cs hc ih =>
    rw [PyText.moreDigits] at h
    · simp only [Option.bind_eq_bind, Option.bind_eq_some_iff] at h
      obtain ⟨d, hd, ds', hds', he⟩ := h
      obtain rfl : d :: ds' = ds := Option.some.inj he
      obtain ⟨hlt, hlen⟩ := ih hds'
      refine ⟨?_, by simp only [List.length_cons]; omega⟩
      simpa using ⟨lt_of_digit? hd, hlt⟩
    · exact hc

/-- A text of digits has as many characters, and its number is below the power of its length. -/
theorem ofDigits_lt {base : ℕ} (hbase : 1 < base) {s : List Char} {ds : List ℕ}
    (h : PyText.digits base s = some ds) : ofDigits base ds < base ^ s.length := by
  have hbound : (∀ d ∈ ds, d < base) ∧ ds.length ≤ s.length := by
    cases s with
    | nil => cases h
    | cons c cs =>
      simp only [PyText.digits, Option.bind_eq_bind, Option.bind_eq_some_iff] at h
      obtain ⟨d, hd, ds', hds', he⟩ := h
      obtain rfl : d :: ds' = ds := Option.some.inj he
      obtain ⟨hlt, hlen⟩ := moreDigits_bound hds'
      refine ⟨?_, by simp only [List.length_cons]; omega⟩
      simpa using ⟨lt_of_digit? hd, hlt⟩
  rw [ofDigits_eq]
  calc Nat.ofDigits base ds.reverse
      < base ^ ds.reverse.length :=
        Nat.ofDigits_lt_base_pow_length hbase fun d hd => hbound.1 d (List.mem_reverse.mp hd)
    _ ≤ base ^ s.length := by
        rw [List.length_reverse]
        exact Nat.pow_le_pow_right (by omega) hbound.2

/-- The text as `int` sees it, without the blanks at its end. -/
def rstrip (s : List Char) : List Char := (s.map foldAscii).rdropWhile PyText.isAsciiSpace

/-- The underscore that may follow a prefix. -/
def dropUnderscore : List Char → List Char
  | '_' :: cs => cs
  | cs => cs

theorem rdropWhile_cons_of_neg {p : Char → Bool} {c : Char} (h : p c = false) (s : List Char) :
    (c :: s).rdropWhile p = c :: s.rdropWhile p := by
  induction s using List.reverseRecOn with
  | nil => simp [List.rdropWhile_singleton, h]
  | append_singleton s a ih =>
    rw [← List.cons_append]
    by_cases ha : p a
    · rw [List.rdropWhile_concat_pos _ _ _ ha, List.rdropWhile_concat_pos _ _ _ ha, ih]
    · rw [List.rdropWhile_concat_neg _ _ _ ha, List.rdropWhile_concat_neg _ _ _ ha,
        List.cons_append]

theorem stripBy_cons_of_neg {p : Char → Bool} {c : Char} (h : p c = false) (s : List Char) :
    stripBy p (c :: s) = c :: s.rdropWhile p := by
  rw [stripBy, List.dropWhile_cons_of_neg (by simp [h])]
  exact rdropWhile_cons_of_neg h s

/-- Behind a prefix only digits are read: no blank, no sign and no second prefix. -/
theorem pyInt_behind (s : List Char) : pyInt 16 ('0' :: 'x' :: s) =
    (PyText.digits 16 (dropUnderscore (rstrip s))).map fun ds => (ofDigits 16 ds : ℤ) := by
  have hstrip : stripBy PyText.isAsciiSpace (('0' :: 'x' :: s).map foldAscii) =
      '0' :: 'x' :: rstrip s := by
    rw [List.map_cons, List.map_cons, show foldAscii '0' = '0' from rfl,
      show foldAscii 'x' = 'x' from rfl, stripBy_cons_of_neg rfl, rdropWhile_cons_of_neg rfl]
    rfl
  have hdrop : dropPrefix 16 ('0' :: 'x' :: rstrip s) = dropUnderscore (rstrip s) := by
    unfold dropUnderscore
    split
    · rename_i cs hcs
      rw [hcs]
      rfl
    · rename_i hcs
      unfold dropPrefix
      split <;> simp_all
  simp only [pyInt, hstrip, splitSign_of_ne (c := '0') (by decide) (by decide), hdrop, bind]
  cases PyText.digits 16 (dropUnderscore (rstrip s)) <;> rfl

/-- **A number that is read behind a prefix** is below the power of its length. -/
theorem lt_of_pyInt_behind {s : List Char} {n : ℤ} (h : pyInt 16 ('0' :: 'x' :: s) = some n) :
    0 ≤ n ∧ n < 16 ^ s.length := by
  rw [pyInt_behind] at h
  obtain ⟨ds, hds, rfl⟩ := Option.map_eq_some_iff.mp h
  have hlt := ofDigits_lt (by norm_num) hds
  have hlen : (dropUnderscore (rstrip s)).length ≤ s.length := by
    have hdrop : ∀ t : List Char, (dropUnderscore t).length ≤ t.length := by
      intro t
      unfold dropUnderscore
      split <;> simp
    have hpre := List.rdropWhile_prefix PyText.isAsciiSpace (l := s.map foldAscii)
    have hstrip := hpre.length_le
    rw [List.length_map] at hstrip
    exact (hdrop _).trans hstrip
  refine ⟨by positivity, ?_⟩
  calc (ofDigits 16 ds : ℤ) < 16 ^ (dropUnderscore (rstrip s)).length := by exact_mod_cast hlt
    _ ≤ 16 ^ s.length := pow_le_pow_right₀ (by norm_num) hlen

/-- Does the text begin with a digit, and not with a prefix? -/
def beginsPlain (s : List Char) : Bool :=
  match s.map foldAscii with
  | [] => false
  | '0' :: 'x' :: _ => false
  | '0' :: 'X' :: _ => false
  | c :: _ => (digit? 16 c).isSome

/-- A text of digits begins with one, and has no `x` after it. -/
theorem digits_cons_isSome {c : Char} {s : List Char}
    (h : (PyText.digits 16 (c :: s)).isSome) :
    (digit? 16 c).isSome ∧ s.head? ≠ some 'x' ∧ s.head? ≠ some 'X' := by
  obtain ⟨ds, hds⟩ := Option.isSome_iff_exists.mp h
  simp only [PyText.digits, Option.bind_eq_bind, Option.bind_eq_some_iff] at hds
  obtain ⟨d, hd, ds', hds', -⟩ := hds
  refine ⟨by rw [hd]; rfl, ?_, ?_⟩ <;>
  · intro hx
    obtain ⟨t, rfl⟩ := List.head?_eq_some_iff.mp hx
    rw [PyText.moreDigits] at hds'
    · simp [digit?] at hds'
    · rintro c' cs' h
      cases h

/-- Without blanks, a text that begins with a digit and no prefix is read as it is. -/
theorem dropPrefix_eq_self {c : Char} {s : List Char} (hx : c = '0' → s.head? ≠ some 'x')
    (hX : c = '0' → s.head? ≠ some 'X') : dropPrefix 16 (c :: s) = c :: s := by
  unfold dropPrefix
  split <;> simp_all

section Behind

variable {s t : List Char} {c : Char}

theorem rstrip_of_cons (hs : s.map foldAscii = c :: t) (hc : PyText.isAsciiSpace c = false) :
    rstrip s = c :: t.rdropWhile PyText.isAsciiSpace := by
  rw [rstrip, hs, rdropWhile_cons_of_neg hc]

theorem dropUnderscore_of_ne (h : c ≠ '_') : dropUnderscore (c :: t) = c :: t := by
  unfold dropUnderscore
  split <;> simp_all

/-- An underscore may follow a prefix, but not stand in front of a number. -/
theorem pyInt_of_underscore (hs : s.map foldAscii = '_' :: t) : pyInt 16 s = none := by
  simp only [pyInt, hs, stripBy_cons_of_neg (show PyText.isAsciiSpace '_' = false from rfl), bind]
  rfl

/-- A character behind the first one that is not a blank stays there. -/
theorem head?_of_rstrip {b : Char} {t' g : List Char} (hs : s.map foldAscii = c :: b :: t')
    (hc : PyText.isAsciiSpace c = false) (hb : PyText.isAsciiSpace b = false)
    (hg : rstrip s = c :: g) : g.head? = some b := by
  rw [rstrip_of_cons hs hc, rdropWhile_cons_of_neg hb] at hg
  rw [← (List.cons.inj hg).2]
  rfl

theorem exists_cons_of_head?_rdropWhile {b : Char}
    (h : (t.rdropWhile PyText.isAsciiSpace).head? = some b) : ∃ t', t = b :: t' := by
  obtain ⟨g, hg⟩ := List.head?_eq_some_iff.mp h
  obtain ⟨u, hu⟩ := List.rdropWhile_prefix PyText.isAsciiSpace (l := t)
  exact ⟨g ++ u, by rw [← hu, hg, List.cons_append]⟩

/-- A number that is read behind a prefix begins with a digit. -/
theorem beginsPlain_of_digits (h : (pyInt 16 s).isSome)
    (hdigits : (PyText.digits 16 (dropUnderscore (rstrip s))).isSome) : beginsPlain s := by
  have hpre := List.rdropWhile_prefix PyText.isAsciiSpace (l := s.map foldAscii)
  cases hs : s.map foldAscii with
  | nil =>
    have hnil : rstrip s = [] := by rw [rstrip, hs]; rfl
    rw [hnil] at hdigits
    cases hdigits
  | cons c t =>
    have hunderscore : c ≠ '_' := by
      rintro rfl
      rw [pyInt_of_underscore hs] at h
      cases h
    cases hg : rstrip s with
    | nil =>
      rw [hg] at hdigits
      cases hdigits
    | cons a g =>
      obtain ⟨rfl, -⟩ : a = c ∧ g <+: t := by
        rw [show (s.map foldAscii).rdropWhile PyText.isAsciiSpace = a :: g from hg, hs] at hpre
        exact List.cons_prefix_cons.mp hpre
      rw [hg, dropUnderscore_of_ne hunderscore] at hdigits
      obtain ⟨hdigit, hx, hX⟩ := digits_cons_isSome hdigits
      unfold beginsPlain
      split
      · rename_i hnil
        rw [hs] at hnil
        cases hnil
      · rename_i t' he
        obtain ⟨rfl, -⟩ := List.cons.inj (hs.symm.trans he)
        exact absurd (head?_of_rstrip he rfl rfl hg) hx
      · rename_i t' he
        obtain ⟨rfl, -⟩ := List.cons.inj (hs.symm.trans he)
        exact absurd (head?_of_rstrip he rfl rfl hg) hX
      · rename_i he
        obtain ⟨rfl, -⟩ := List.cons.inj (hs.symm.trans he)
        exact hdigit

/-- A number that begins with a digit and no prefix is read behind one. -/
theorem digits_of_beginsPlain (h : (pyInt 16 s).isSome) (hplain : beginsPlain s) :
    (PyText.digits 16 (dropUnderscore (rstrip s))).isSome := by
  unfold beginsPlain at hplain
  split at hplain
  · cases hplain
  · cases hplain
  · cases hplain
  · rename_i c t hx hX hs
    obtain ⟨d, hd⟩ := Option.isSome_iff_exists.mp hplain
    obtain ⟨-, hspace, hunderscore, hplus, hminus⟩ := of_digit? hd
    have hdrop : dropPrefix 16 (c :: t.rdropWhile PyText.isAsciiSpace) =
        c :: t.rdropWhile PyText.isAsciiSpace := by
      apply dropPrefix_eq_self
      · rintro rfl hb
        obtain ⟨t', rfl⟩ := exists_cons_of_head?_rdropWhile hb
        exact hx t' rfl rfl
      · rintro rfl hb
        obtain ⟨t', rfl⟩ := exists_cons_of_head?_rdropWhile hb
        exact hX t' rfl rfl
    rw [rstrip_of_cons hs hspace, dropUnderscore_of_ne hunderscore]
    obtain ⟨n, hn⟩ := Option.isSome_iff_exists.mp h
    simp only [pyInt, hs, stripBy_cons_of_neg hspace, splitSign_of_ne hplus hminus, hdrop, bind,
      Option.bind_eq_some_iff] at hn
    obtain ⟨ds, hds, -⟩ := hn
    rw [hds]
    rfl

/-- **A number may be put behind a prefix exactly when it begins with a digit** and has no prefix
of its own. -/
theorem pyInt_behind_isSome (h : (pyInt 16 s).isSome) :
    (pyInt 16 ('0' :: 'x' :: s)).isSome ↔ beginsPlain s := by
  rw [pyInt_behind, Option.isSome_map]
  exact ⟨beginsPlain_of_digits h, digits_of_beginsPlain h⟩

end Behind

/-! ## `Decimal(text)` -/

/-- The limits of the exponents that the constructor can represent. -/
def maxExponent : ℤ := 999999999999999999

/-- The least exponent that it can represent. -/
def minExponent : ℤ := -1999999999999999997

/-- One of the ten digits of ASCII? -/
def isAsciiDigit (c : Char) : Bool := 48 ≤ c.toNat && c.toNat ≤ 57

/-- The number of a string of them. -/
def asciiDigits (s : List Char) : ℕ := ofDigits 10 (s.map (·.toNat - 48))

/-- The exponent part of a literal. -/
def exponent? : List Char → Option ℤ
  | [] => some 0
  | 'e' :: cs =>
    let (negative, ds) := splitSign cs
    if ds ≠ [] ∧ ds.all isAsciiDigit then
      some (if negative then -(asciiDigits ds : ℤ) else asciiDigits ds)
    else none
  | _ => none

/-- A finite literal: digits with at most one point, and an exponent. -/
def finiteLiteral? (s : List Char) : Option ℚ := do
  let whole := s.takeWhile isAsciiDigit
  let rest := s.dropWhile isAsciiDigit
  let (frac, rest) := match rest with
    | '.' :: cs => (cs.takeWhile isAsciiDigit, cs.dropWhile isAsciiDigit)
    | cs => ([], cs)
  if whole ++ frac = [] then none
  else do
    let e ← exponent? rest
    let e := e - frac.length
    let m := asciiDigits (whole ++ frac)
    if e < minExponent ∨ maxExponent < e ∨ maxExponent < e + Nat.log 10 m then none
    else return m * 10 ^ e

/-- An unsigned literal in lower case. -/
def literal? (s : List Char) : Option Decimal.Value :=
  if s = "inf".toList ∨ s = "infinity".toList then some (.infinity false)
  else if s.take 3 = "nan".toList ∧ (s.drop 3).all isAsciiDigit then some (.nan false)
  else if s.take 4 = "snan".toList ∧ (s.drop 4).all isAsciiDigit then some (.nan true)
  else (finiteLiteral? s).map .finite

/-- `Decimal(text)`; `none` is `InvalidOperation`. -/
def pyDecimal (s : List Char) : Option Decimal.Value := do
  let s := ((strip s).filter (· ≠ '_')).map fun c => (foldAscii c).toLower
  let (negative, s) := splitSign s
  let v ← literal? s
  return if negative then v.neg else v

end Foundations.PyText
