import Gateway.Foundations.Json

/-!
# Numbers in JSON text

How Python writes numbers into JSON, `int.__repr__` and `float.__repr__`, and how the standard says
that a number is read: exactly, as an optional sign, digits without a leading zero, a fraction and
an exponent. What is written is read as the number it stands for, where another character follows
that does not go on with it (`readNumber_intText`, `readNumber_repr`).
-/

namespace Foundations

/-! ## Writing -/

/-- `int.__repr__`. -/
def intText (n : ℤ) : List Char :=
  if n < 0 then '-' :: Nat.toDigits 10 n.natAbs else Nat.toDigits 10 n.natAbs

namespace PyFloat

/-- The significant digits of a number that is not zero. -/
def significant (m : ℕ) : List Char := (Nat.toDigits 10 m).rdropWhile (· == '0')

/-- The digits of an exponent, at least two. -/
def exponentDigits (n : ℕ) : List Char :=
  if n < 10 then '0' :: Nat.toDigits 10 n else Nat.toDigits 10 n

/-- The digits with the point behind `point` of them, where there are that many; `repr` writes an
exponent where too many zeros would be needed. -/
def layout (ds : List Char) (point : ℤ) : List Char :=
  if point ≤ -4 ∨ 16 < point then
    let e := point - 1
    ds.take 1 ++ (if ds.length = 1 then [] else '.' :: ds.drop 1) ++ 'e' ::
      (if e < 0 then '-' else '+') :: exponentDigits e.natAbs
  else if point ≤ 0 then '0' :: '.' :: (List.replicate (-point).toNat '0' ++ ds)
  else if point < ds.length then ds.take point.toNat ++ '.' :: ds.drop point.toNat
  else ds ++ List.replicate (point.toNat - ds.length) '0' ++ ['.', '0']

/-- The text of a number that is not negative. -/
def natText (m : ℕ) (e : ℤ) : List Char :=
  if m = 0 then layout ['0'] 1
  else layout (significant m) ((Nat.toDigits 10 m).length + e)

/-- `float.__repr__`, as JSON spells the numbers that are none. -/
def repr : PyFloat → List Char
  | .finite m e _ => if m < 0 then '-' :: natText m.natAbs e else natText m.natAbs e
  | .infinity negative => if negative then "-Infinity".toList else "Infinity".toList
  | .nan => "NaN".toList

end PyFloat

/-! ## Reading -/

/-- The digits at the front, and what follows them. -/
def spanDigits (cs : List Char) : List Char × List Char :=
  (cs.takeWhile Char.isDigit, cs.dropWhile Char.isDigit)

/-- The fraction, with what follows it. -/
def readFraction : List Char → Option (List Char × List Char)
  | '.' :: cs => if (spanDigits cs).1 = [] then none else some (spanDigits cs)
  | cs => some ([], cs)

/-- The sign of an exponent. -/
def readSign : List Char → Bool × List Char
  | '+' :: cs => (false, cs)
  | '-' :: cs => (true, cs)
  | cs => (false, cs)

/-- The exponent, with what follows it. -/
def readExponent (cs : List Char) : Option (ℤ × List Char) :=
  if cs.head? = some 'e' ∨ cs.head? = some 'E' then
    let (negative, cs) := readSign cs.tail
    let (ds, cs) := spanDigits cs
    if ds = [] then none
    else
      let e : ℤ := Nat.ofDigitChars 10 ds 0
      some (if negative then -e else e, cs)
  else some (0, cs)

/-- A number without a sign. -/
def readUnsigned (cs : List Char) : Option (ℚ × List Char) :=
  let (whole, cs) := spanDigits cs
  if whole = [] ∨ (whole.head? = some '0' ∧ whole.length ≠ 1) then none
  else
    (readFraction cs).bind fun (fraction, cs) => (readExponent cs).map fun (e, cs) =>
      ((Nat.ofDigitChars 10 (whole ++ fraction) 0 : ℚ) * 10 ^ (e - fraction.length), cs)

/-- The number at the front of a text, with what follows it. -/
def readNumber : List Char → Option (ℚ × List Char)
  | '-' :: cs => (readUnsigned cs).map fun (q, cs) => (-q, cs)
  | cs => readUnsigned cs

/-! ## What is written is read -/

/-- A number does not go on here. -/
def EndsNumber (rest : List Char) : Prop :=
  ∀ c, rest.head? = some c → c.isDigit = false ∧ c ≠ '.' ∧ c ≠ 'e' ∧ c ≠ 'E'

theorem EndsNumber.digit {rest : List Char} (h : EndsNumber rest) :
    ∀ c, rest.head? = some c → c.isDigit = false := fun c hc => (h c hc).1

theorem spanDigits_append {ds rest : List Char} (hds : ∀ c ∈ ds, c.isDigit)
    (hrest : ∀ c, rest.head? = some c → c.isDigit = false) :
    spanDigits (ds ++ rest) = (ds, rest) := by
  induction ds with
  | nil =>
    cases rest with
    | nil => rfl
    | cons c rest => simp [spanDigits, hrest c rfl]
  | cons c ds ih =>
    have hspan := ih fun c hc => hds c (List.mem_cons_of_mem _ hc)
    simp only [spanDigits, Prod.mk.injEq] at hspan
    simp [spanDigits, hds c List.mem_cons_self, hspan.1, hspan.2]

theorem readFraction_dot {ds rest : List Char} (hne : ds ≠ []) (hds : ∀ c ∈ ds, c.isDigit)
    (hrest : ∀ c, rest.head? = some c → c.isDigit = false) :
    readFraction ('.' :: (ds ++ rest)) = some (ds, rest) := by
  rw [readFraction, spanDigits_append hds hrest, if_neg hne]

theorem readFraction_of_ne {rest : List Char} (h : rest.head? ≠ some '.') :
    readFraction rest = some ([], rest) := by
  unfold readFraction
  split
  · exact absurd rfl h
  · rfl

theorem readExponent_of_ne {rest : List Char} (he : rest.head? ≠ some 'e')
    (hE : rest.head? ≠ some 'E') : readExponent rest = some (0, rest) := by
  rw [readExponent, if_neg (not_or.mpr ⟨he, hE⟩)]

theorem EndsNumber.readExponent {rest : List Char} (h : EndsNumber rest) :
    readExponent rest = some (0, rest) :=
  readExponent_of_ne (fun hc => (h _ hc).2.2.1 rfl) fun hc => (h _ hc).2.2.2 rfl

theorem readExponent_e {e : ℤ} {ds rest : List Char} (hne : ds ≠ []) (hds : ∀ c ∈ ds, c.isDigit)
    (hrest : ∀ c, rest.head? = some c → c.isDigit = false)
    (hvalue : Nat.ofDigitChars 10 ds 0 = e.natAbs) :
    readExponent ('e' :: (if e < 0 then '-' else '+') :: (ds ++ rest)) = some (e, rest) := by
  rw [readExponent, if_pos (.inl rfl), List.tail_cons]
  by_cases he : e < 0
  · simp only [he, if_true, readSign, spanDigits_append hds hrest, if_neg hne, hvalue]
    congr 2
    omega
  · simp only [he, if_false, readSign, spanDigits_append hds hrest, if_neg hne, hvalue]
    congr 2
    simp only [Bool.false_eq_true, if_false]
    omega

/-- A number is read part by part. -/
theorem readUnsigned_append {whole fraction cs cs' rest : List Char} {e : ℤ} (hne : whole ≠ [])
    (hds : ∀ c ∈ whole, c.isDigit) (hzero : whole.head? = some '0' → whole.length = 1)
    (hcs : ∀ c, cs.head? = some c → c.isDigit = false)
    (hfraction : readFraction cs = some (fraction, cs'))
    (hexponent : readExponent cs' = some (e, rest)) :
    readUnsigned (whole ++ cs) =
      some ((Nat.ofDigitChars 10 (whole ++ fraction) 0 : ℚ) * 10 ^ (e - fraction.length),
        rest) := by
  have hok : ¬ (whole = [] ∨ (whole.head? = some '0' ∧ whole.length ≠ 1)) := by
    rintro (h | ⟨h, hlen⟩)
    · exact hne h
    · exact hlen (hzero h)
  simp only [readUnsigned, spanDigits_append hds hcs, if_neg hok, hfraction, Option.bind_some,
    hexponent, Option.map_some]

namespace PyFloat

theorem isDigit_toDigits {n : ℕ} : ∀ c ∈ Nat.toDigits 10 n, c.isDigit := fun _ hc =>
  Nat.isDigit_of_mem_toDigits (by decide) (by decide) hc

/-- The digits of a number that is laid out. -/
structure Digits (ds : List Char) (point : ℤ) : Prop where
  ne_nil : ds ≠ []
  digit : ∀ c ∈ ds, c.isDigit
  zero : ds.head? = some '0' → ds = ['0'] ∧ point = 1

theorem head?_append_of_ne_nil {ds cs : List Char} (h : ds ≠ []) : (ds ++ cs).head? = ds.head? := by
  cases ds with
  | nil => exact absurd rfl h
  | cons d ds => rfl

theorem readExponent_exponentDigits {e : ℤ} {rest : List Char}
    (hrest : ∀ c, rest.head? = some c → c.isDigit = false) :
    readExponent ('e' :: (if e < 0 then '-' else '+') :: (exponentDigits e.natAbs ++ rest)) =
      some (e, rest) := by
  refine readExponent_e ?_ ?_ hrest ?_
  · unfold exponentDigits
    split_ifs
    · exact List.cons_ne_nil _ _
    · exact Nat.toDigits_ne_nil
  · unfold exponentDigits
    split_ifs
    · intro c hc
      rcases List.mem_cons.mp hc with rfl | hc
      · rfl
      · exact isDigit_toDigits c hc
    · exact isDigit_toDigits
  · unfold exponentDigits
    split_ifs
    · rw [Nat.ofDigitChars_cons]
      exact Nat.ofDigitChars_ten_toDigits
    · exact Nat.ofDigitChars_ten_toDigits

section Layout

variable {ds rest : List Char} {point : ℤ}

/-- One digit before the point, and an exponent. -/
theorem readUnsigned_scientific (h : Digits ds point) {e : ℤ} (he : e = point - 1)
    (hrest : EndsNumber rest) :
    readUnsigned (ds.take 1 ++ (if ds.length = 1 then [] else '.' :: ds.drop 1) ++
      'e' :: (if e < 0 then '-' else '+') :: (exponentDigits e.natAbs ++ rest)) =
        some ((Nat.ofDigitChars 10 ds 0 : ℚ) * 10 ^ (point - ds.length), rest) := by
  obtain ⟨hne, hds, -⟩ := h
  obtain ⟨d, ds, rfl⟩ := List.exists_cons_of_ne_nil hne
  have hd : ∀ c ∈ [d], c.isDigit := by simpa using hds d List.mem_cons_self
  have hexponent := readExponent_exponentDigits (e := e) hrest.digit
  subst he
  set text := 'e' :: (if point - 1 < 0 then '-' else '+') ::
    (exponentDigits (point - 1).natAbs ++ rest) with htext
  have hstop : ∀ c, text.head? = some c → c.isDigit = false := by
    rintro c ⟨⟩
    rfl
  cases ds with
  | nil =>
    have hread := readUnsigned_append (List.cons_ne_nil d []) hd (fun _ => rfl) hstop
      (readFraction_of_ne (by simp [htext])) hexponent
    simpa using hread
  | cons d' ds =>
    have hfraction := readFraction_dot (List.cons_ne_nil d' ds)
      (fun c hc => hds c (List.mem_cons_of_mem _ hc)) hstop
    have hread := readUnsigned_append (List.cons_ne_nil d []) hd (fun _ => rfl)
      (by rintro c ⟨⟩; rfl) hfraction hexponent
    simp only [List.length_cons, List.take_succ_cons, List.take_zero, List.drop_succ_cons,
      List.drop_zero, Nat.add_eq_right, Nat.succ_ne_zero, if_false, List.cons_append,
      List.nil_append] at hread ⊢
    rw [hread]
    congr 4
    push_cast
    ring

/-- Zeros behind the point. -/
theorem readUnsigned_small (h : Digits ds point) (hpoint : point ≤ 0) (hrest : EndsNumber rest) :
    readUnsigned ('0' :: '.' :: (List.replicate (-point).toNat '0' ++ ds) ++ rest) =
      some ((Nat.ofDigitChars 10 ds 0 : ℚ) * 10 ^ (point - ds.length), rest) := by
  obtain ⟨hne, hds, -⟩ := h
  have hdigits : ∀ c ∈ List.replicate (-point).toNat '0' ++ ds, c.isDigit := by
    intro c hc
    rcases List.mem_append.mp hc with hc | hc
    · rw [List.eq_of_mem_replicate hc]
      rfl
    · exact hds c hc
  have hfraction := readFraction_dot (List.append_ne_nil_of_right_ne_nil _ hne) hdigits hrest.digit
  have hread := readUnsigned_append (List.cons_ne_nil '0' []) (by simp) (fun _ => rfl)
    (by rintro c ⟨⟩; rfl) hfraction hrest.readExponent
  simp only [List.cons_append, List.nil_append] at hread ⊢
  rw [hread]
  have hvalue : Nat.ofDigitChars 10 ('0' :: (List.replicate (-point).toNat '0' ++ ds)) 0 =
      Nat.ofDigitChars 10 ds 0 := by
    rw [Nat.ofDigitChars_cons, Nat.ofDigitChars_append, Nat.ofDigitChars_replicate_zero]
    simp
  rw [hvalue, List.length_append, List.length_replicate]
  congr 4
  push_cast
  omega

/-- The point between the digits. -/
theorem readUnsigned_inside (h : Digits ds point) (hpoint : 0 < point) (hlt : point < ds.length)
    (hrest : EndsNumber rest) :
    readUnsigned (ds.take point.toNat ++ '.' :: ds.drop point.toNat ++ rest) =
      some ((Nat.ofDigitChars 10 ds 0 : ℚ) * 10 ^ (point - ds.length), rest) := by
  obtain ⟨hne, hds, hzero⟩ := h
  have htake : ds.take point.toNat ≠ [] := by
    rw [ne_eq, List.take_eq_nil_iff]
    rintro (hpoint' | hnil)
    · omega
    · exact hne hnil
  have hdrop : ds.drop point.toNat ≠ [] := by
    rw [ne_eq, List.drop_eq_nil_iff]
    omega
  have hfraction := readFraction_dot hdrop (fun c hc => hds c (List.mem_of_mem_drop hc)) hrest.digit
  have hfirst : (ds.take point.toNat).head? = some '0' → (ds.take point.toNat).length = 1 := by
    intro hhead
    rw [List.head?_take, if_neg (by omega)] at hhead
    obtain ⟨rfl, rfl⟩ := hzero hhead
    rfl
  have hread := readUnsigned_append htake (fun c hc => hds c (List.mem_of_mem_take hc)) hfirst
    (by rintro c ⟨⟩; rfl) hfraction hrest.readExponent
  rw [List.append_assoc, List.cons_append, hread, List.take_append_drop, List.length_drop]
  congr 4
  omega

/-- Zeros before the point. -/
theorem readUnsigned_integral (h : Digits ds point) (hpoint : ds.length ≤ point)
    (hrest : EndsNumber rest) :
    readUnsigned (ds ++ List.replicate (point.toNat - ds.length) '0' ++ ['.', '0'] ++ rest) =
      some ((Nat.ofDigitChars 10 ds 0 : ℚ) * 10 ^ (point - ds.length), rest) := by
  obtain ⟨hne, hds, hzero⟩ := h
  set zeros := List.replicate (point.toNat - ds.length) '0' with hzeros
  have hdigits : ∀ c ∈ ds ++ zeros, c.isDigit := by
    intro c hc
    rcases List.mem_append.mp hc with hc | hc
    · exact hds c hc
    · rw [List.eq_of_mem_replicate hc]
      rfl
  have hfirst : (ds ++ zeros).head? = some '0' → (ds ++ zeros).length = 1 := by
    intro hhead
    rw [head?_append_of_ne_nil hne] at hhead
    obtain ⟨rfl, rfl⟩ := hzero hhead
    rfl
  have hfraction := readFraction_dot (List.cons_ne_nil '0' []) (by simp) hrest.digit
  have hread := readUnsigned_append (List.append_ne_nil_of_left_ne_nil hne _) hdigits hfirst
    (by rintro c ⟨⟩; rfl) hfraction hrest.readExponent
  have hvalue : Nat.ofDigitChars 10 (ds ++ zeros ++ ['0']) 0 =
      10 ^ (point.toNat - ds.length + 1) * Nat.ofDigitChars 10 ds 0 := by
    have hjoin : zeros ++ ['0'] = List.replicate (point.toNat - ds.length + 1) '0' := by
      rw [hzeros, List.replicate_succ']
    rw [List.append_assoc, hjoin, Nat.ofDigitChars_append, Nat.ofDigitChars_replicate_zero]
  simp only [List.append_assoc, List.cons_append, List.nil_append] at hread hvalue ⊢
  rw [hread, hvalue]
  congr 2
  have hexp : (10 : ℚ) ^ (point - ds.length) = 10 ^ (point.toNat - ds.length) := by
    rw [← zpow_natCast]
    congr 1
    omega
  rw [hexp, List.length_singleton]
  push_cast
  ring

/-- **The digits are read where the point puts them.** -/
theorem readUnsigned_layout (h : Digits ds point) (hrest : EndsNumber rest) :
    readUnsigned (layout ds point ++ rest) =
      some ((Nat.ofDigitChars 10 ds 0 : ℚ) * 10 ^ (point - ds.length), rest) := by
  by_cases hexp : point ≤ -4 ∨ 16 < point
  · rw [layout, if_pos hexp, ← readUnsigned_scientific h rfl hrest]
    simp only [List.append_assoc, List.cons_append]
  · rw [layout, if_neg hexp]
    split_ifs with hneg hlt
    · exact readUnsigned_small h hneg hrest
    · exact readUnsigned_inside h (not_le.mp hneg) hlt hrest
    · exact readUnsigned_integral h (not_lt.mp hlt) hrest

end Layout

/-! ### Floats -/

theorem head?_toDigits {m : ℕ} (hm : m ≠ 0) : (Nat.toDigits 10 m).head? ≠ some '0' := by
  induction m using Nat.strong_induction_on with
  | h m ih =>
    by_cases hlt : m < 10
    · rw [Nat.toDigits_of_lt_base hlt]
      revert hm
      have hall : ∀ m < 10, m ≠ 0 → [m.digitChar].head? ≠ some '0' := by decide
      exact hall m hlt
    · rw [Nat.toDigits_of_base_le (by decide) (not_lt.mp hlt),
        head?_append_of_ne_nil Nat.toDigits_ne_nil]
      exact ih (m / 10) (by omega) (by omega)

theorem exists_eq_append_replicate (cs : List Char) :
    ∃ j, cs = cs.rdropWhile (· == '0') ++ List.replicate j '0' := by
  induction cs using List.reverseRecOn with
  | nil => exact ⟨0, rfl⟩
  | append_singleton cs c ih =>
    obtain ⟨j, hj⟩ := ih
    rw [List.rdropWhile_concat]
    split_ifs with hc
    · obtain rfl := eq_of_beq hc
      refine ⟨j + 1, ?_⟩
      rw [List.replicate_succ', ← List.append_assoc, ← hj]
    · exact ⟨0, by simp⟩

/-- The significant digits and the zeros behind them. -/
theorem significant_spec {m : ℕ} (hm : m ≠ 0) : ∃ j, (Nat.toDigits 10 m).length =
    (significant m).length + j ∧ m = 10 ^ j * Nat.ofDigitChars 10 (significant m) 0 ∧
      ∀ point, Digits (significant m) point := by
  obtain ⟨j, hj⟩ := exists_eq_append_replicate (Nat.toDigits 10 m)
  have hsplit : Nat.toDigits 10 m = significant m ++ List.replicate j '0' := hj
  have hhead := head?_toDigits hm
  have hne : significant m ≠ [] := by
    intro hnil
    rw [hnil, List.nil_append] at hsplit
    cases j with
    | zero => exact Nat.toDigits_ne_nil hsplit
    | succ j =>
      rw [hsplit, List.replicate_succ] at hhead
      exact hhead rfl
  refine ⟨j, ?_, ?_, fun point => ⟨hne, ?_, ?_⟩⟩
  · rw [hsplit, List.length_append, List.length_replicate]
  · rw [← Nat.ofDigitChars_replicate_zero, ← Nat.ofDigitChars_append, ← hsplit,
      Nat.ofDigitChars_ten_toDigits]
  · intro c hc
    refine isDigit_toDigits (n := m) c ?_
    rw [hsplit]
    exact List.mem_append_left _ hc
  · intro hzero
    rw [hsplit, head?_append_of_ne_nil hne] at hhead
    exact absurd hzero hhead

theorem readUnsigned_natText (m : ℕ) (e : ℤ) {rest : List Char} (hrest : EndsNumber rest) :
    readUnsigned (natText m e ++ rest) = some ((m : ℚ) * 10 ^ e, rest) := by
  by_cases hm : m = 0
  · have hdigits : Digits ['0'] 1 := ⟨List.cons_ne_nil _ _, by simp, fun _ => ⟨rfl, rfl⟩⟩
    rw [natText, if_pos hm, readUnsigned_layout hdigits hrest, hm]
    simp [Nat.ofDigitChars_cons]
  · obtain ⟨j, hlength, hvalue, hdigits⟩ := significant_spec hm
    rw [natText, if_neg hm, readUnsigned_layout (hdigits _) hrest, hlength]
    have hexp : ((significant m).length + j : ℕ) + e - (significant m).length = j + e := by
      push_cast
      ring
    have hm' : (m : ℚ) = 10 ^ j * Nat.ofDigitChars 10 (significant m) 0 := by exact_mod_cast hvalue
    rw [hexp, zpow_add₀ (by norm_num), zpow_natCast, hm']
    congr 2
    ring

end PyFloat

theorem readNumber_of_readUnsigned {cs : List Char} {r : ℚ × List Char}
    (h : readUnsigned cs = some r) : readNumber cs = some r := by
  unfold readNumber
  split
  · rename_i cs
    have hnone : readUnsigned ('-' :: cs) = none := rfl
    rw [hnone] at h
    cases h
  · exact h

theorem readNumber_minus {cs rest : List Char} {q : ℚ} (h : readUnsigned cs = some (q, rest)) :
    readNumber ('-' :: cs) = some (-q, rest) := by
  rw [readNumber, h]
  rfl

/-- **A float is read as the number that it is.** -/
theorem readNumber_repr {f : PyFloat} {q : ℚ} (hf : f.value? = some q) {rest : List Char}
    (hrest : EndsNumber rest) : readNumber (f.repr ++ rest) = some (q, rest) := by
  cases f with
  | finite m e hm =>
    obtain rfl := Option.some.inj hf
    have hread := PyFloat.readUnsigned_natText m.natAbs e hrest
    rw [PyFloat.repr]
    split_ifs with hneg
    · have habs : ((m.natAbs : ℕ) : ℚ) = -m := by
        rw [Nat.cast_natAbs, abs_of_neg hneg, Int.cast_neg]
      rw [List.cons_append, readNumber_minus hread, habs, neg_mul, neg_neg]
    · have habs : ((m.natAbs : ℕ) : ℚ) = m := by
        rw [Nat.cast_natAbs, abs_of_nonneg (not_lt.mp hneg)]
      rw [readNumber_of_readUnsigned hread, habs]
  | infinity negative => cases hf
  | nan => cases hf

/-- **An integer is read as the number that it is.** -/
theorem readNumber_intText (n : ℤ) {rest : List Char} (hrest : EndsNumber rest) :
    readNumber (intText n ++ rest) = some ((n : ℚ), rest) := by
  have hread (m : ℕ) : readUnsigned (Nat.toDigits 10 m ++ rest) = some ((m : ℚ), rest) := by
    have hzero : (Nat.toDigits 10 m).head? = some '0' → (Nat.toDigits 10 m).length = 1 := by
      intro hhead
      by_cases hm : m = 0
      · rw [hm]
        rfl
      · exact absurd hhead (PyFloat.head?_toDigits hm)
    have hfraction : readFraction rest = some ([], rest) :=
      readFraction_of_ne fun hc => (hrest _ hc).2.1 rfl
    have h := readUnsigned_append Nat.toDigits_ne_nil PyFloat.isDigit_toDigits hzero hrest.digit
      hfraction hrest.readExponent
    simpa [Nat.ofDigitChars_ten_toDigits] using h
  rw [intText]
  split_ifs with hneg
  · have habs : ((n.natAbs : ℕ) : ℚ) = -n := by
      rw [Nat.cast_natAbs, abs_of_neg hneg, Int.cast_neg]
    rw [List.cons_append, readNumber_minus (hread _), habs, neg_neg]
  · have habs : ((n.natAbs : ℕ) : ℚ) = n := by
      rw [Nat.cast_natAbs, abs_of_nonneg (not_lt.mp hneg)]
    rw [readNumber_of_readUnsigned (hread _), habs]

end Foundations
