import Gateway.Foundations.Hex
import Gateway.Foundations.NumberText

/-!
# JSON text

What `json.dumps` writes for a value, without blanks and with every character outside ASCII escaped,
and a reader after the standard, which knows nothing of the writer: it skips blanks, reads every
escape, joins surrogates, and keeps numbers exactly. What is written is read as the document that
the value stands for (`read_dumps`), whatever the value and its texts are.
-/

namespace Foundations

/-- A JSON document as the standard defines it: its numbers are exact. -/
inductive Doc
  | null
  | bool (b : Bool)
  | number (q : ℚ)
  | string (s : String)
  | array (items : List Doc)
  | object (members : List (String × Doc))

namespace JsonText

/-! ## Writing -/

/-- `\uXXXX`. -/
def unicodeEscape (n : ℕ) : List Char := '\\' :: 'u' :: Bytes.hex (Bytes.ofNat 2 n)

/-- A character in a text, as it is written with `ensure_ascii`. -/
def escapeChar (c : Char) : List Char :=
  if c = '"' then ['\\', '"']
  else if c = '\\' then ['\\', '\\']
  else if c = '\n' then ['\\', 'n']
  else if c = '\r' then ['\\', 'r']
  else if c = '\t' then ['\\', 't']
  else if c.toNat = 8 then ['\\', 'b']
  else if c.toNat = 12 then ['\\', 'f']
  else if 32 ≤ c.toNat ∧ c.toNat ≤ 126 then [c]
  else if c.toNat < 0x10000 then unicodeEscape c.toNat
  else
    let v := c.toNat - 0x10000
    unicodeEscape (0xd800 + v / 0x400) ++ unicodeEscape (0xdc00 + v % 0x400)

/-- A string with its quotes. -/
def writeString (s : String) : List Char := '"' :: (s.toList.flatMap escapeChar ++ ['"'])

mutual

/-- `json.dumps(j, separators=(",", ":"))`. -/
def dumps : Json → List Char
  | .null => "null".toList
  | .bool b => if b then "true".toList else "false".toList
  | .int n => intText n
  | .float f => f.repr
  | .str s => writeString s
  | .arr items => '[' :: (List.intercalate [','] (writeItems items) ++ [']'])
  | .obj members => '{' :: (List.intercalate [','] (writeMembers members) ++ ['}'])

/-- The texts of the items of an array. -/
def writeItems : List Json → List (List Char)
  | [] => []
  | j :: items => dumps j :: writeItems items

/-- The texts of the members of an object. -/
def writeMembers : List (String × Json) → List (List Char)
  | [] => []
  | (key, j) :: members => (writeString key ++ ':' :: dumps j) :: writeMembers members

end

mutual

/-- The document that a value stands for; `none` when it contains a number that JSON has not. -/
def doc? : Json → Option Doc
  | .null => some .null
  | .bool b => some (.bool b)
  | .int n => some (.number n)
  | .float f => f.value?.map .number
  | .str s => some (.string s)
  | .arr items => (docItems? items).map .array
  | .obj members => (docMembers? members).map .object

/-- The items of an array. -/
def docItems? : List Json → Option (List Doc)
  | [] => some []
  | j :: items => (doc? j).bind fun d => (docItems? items).map (d :: ·)

/-- The members of an object. -/
def docMembers? : List (String × Json) → Option (List (String × Doc))
  | [] => some []
  | (key, j) :: members => (doc? j).bind fun d => (docMembers? members).map ((key, d) :: ·)

end

/-! ## Reading -/

/-- The blanks that may stand between the parts of a text. -/
def isBlank (c : Char) : Bool := c = ' ' || c = '\t' || c = '\n' || c = '\r'

/-- The text from the first character on that is no blank. -/
def skipBlanks (cs : List Char) : List Char := cs.dropWhile isBlank

/-- The number of four hexadecimal digits, and what follows them. -/
def readUnit (cs : List Char) : Option (ℕ × List Char) :=
  if cs.length < 4 then none
  else (Bytes.unhex? (cs.take 4)).map fun bytes => (Bytes.toNat bytes, cs.drop 4)

/-- The character of an escape, after the backslash. -/
def readEscape : List Char → Option (Char × List Char)
  | 'u' :: cs => (readUnit cs).bind fun (u, cs) =>
      if u < 0xd800 ∨ 0xdfff < u then some (Char.ofNat u, cs)
      else if u ≤ 0xdbff then
        match cs with
        | '\\' :: 'u' :: cs => (readUnit cs).bind fun (v, cs) =>
            if 0xdc00 ≤ v ∧ v ≤ 0xdfff then
              some (Char.ofNat (0x10000 + (u - 0xd800) * 0x400 + (v - 0xdc00)), cs)
            else none
        | _ => none
      else none
  | '"' :: cs => some ('"', cs)
  | '\\' :: cs => some ('\\', cs)
  | '/' :: cs => some ('/', cs)
  | 'n' :: cs => some ('\n', cs)
  | 'r' :: cs => some ('\r', cs)
  | 't' :: cs => some ('\t', cs)
  | 'b' :: cs => some (Char.ofNat 8, cs)
  | 'f' :: cs => some (Char.ofNat 12, cs)
  | _ => none

/-- A text after its opening quote, and what follows it. -/
def readString : ℕ → List Char → Option (List Char × List Char)
  | 0, _ => none
  | _ + 1, [] => none
  | n + 1, c :: cs =>
    if c = '"' then some ([], cs)
    else if c = '\\' then
      (readEscape cs).bind fun (c, cs) => (readString n cs).map fun (s, cs) => (c :: s, cs)
    else if c.toNat < 32 then none
    else (readString n cs).map fun (s, cs) => (c :: s, cs)

/-- Items up to a closing bracket, at least one. -/
def readItems {α : Type} (item : List Char → Option (α × List Char)) (close : Char) :
    ℕ → List Char → Option (List α × List Char)
  | 0, _ => none
  | n + 1, cs => (item cs).bind fun (a, cs) =>
      match skipBlanks cs with
      | [] => none
      | c :: cs =>
        if c = close then some ([a], cs)
        else if c = ',' then (readItems item close n cs).map fun (as, cs) => (a :: as, cs)
        else none

/-- Items between brackets, after the opening one. -/
def readSequence {α : Type} (item : List Char → Option (α × List Char)) (close : Char)
    (cs : List Char) : Option (List α × List Char) :=
  if (skipBlanks cs).head? = some close then some ([], (skipBlanks cs).tail)
  else readItems item close cs.length cs

/-- A member of an object. -/
def readMember (value : List Char → Option (Doc × List Char)) (cs : List Char) :
    Option ((String × Doc) × List Char) :=
  match skipBlanks cs with
  | '"' :: cs => (readString cs.length cs).bind fun (key, cs) =>
      match skipBlanks cs with
      | ':' :: cs => (value cs).map fun (d, cs) => ((String.ofList key, d), cs)
      | _ => none
  | _ => none

/-- A value that is nested at most so deep, and what follows it. -/
def readValue : ℕ → List Char → Option (Doc × List Char)
  | 0, _ => none
  | n + 1, cs =>
    match skipBlanks cs with
    | 'n' :: 'u' :: 'l' :: 'l' :: cs => some (.null, cs)
    | 't' :: 'r' :: 'u' :: 'e' :: cs => some (.bool true, cs)
    | 'f' :: 'a' :: 'l' :: 's' :: 'e' :: cs => some (.bool false, cs)
    | '"' :: cs => (readString cs.length cs).map fun (s, cs) => (.string (String.ofList s), cs)
    | '[' :: cs => (readSequence (readValue n) ']' cs).map fun (items, cs) => (.array items, cs)
    | '{' :: cs => (readSequence (readMember (readValue n)) '}' cs).map fun (members, cs) =>
        (.object members, cs)
    | cs => (readNumber cs).map fun (q, cs) => (.number q, cs)

/-- The document of a text. -/
def read (text : List Char) : Option Doc :=
  (readValue (text.length + 1) text).bind fun (d, cs) => if skipBlanks cs = [] then some d else none

/-! ## Texts -/

theorem readUnit_hex {n : ℕ} (hn : n < 0x10000) (rest : List Char) :
    readUnit (Bytes.hex (Bytes.ofNat 2 n) ++ rest) = some (n, rest) := by
  have hlength : (Bytes.hex (Bytes.ofNat 2 n)).length = 4 := by
    rw [Bytes.length_hex, Bytes.length_ofNat]
  have hlt : ¬ (Bytes.hex (Bytes.ofNat 2 n) ++ rest).length < 4 := by
    rw [List.length_append, hlength]
    omega
  rw [readUnit, if_neg hlt, List.take_left' hlength, List.drop_left' hlength, Bytes.unhex?_hex,
    Option.map_some, Bytes.toNat_ofNat (hn.trans_eq (by norm_num))]

/-- Surrogates are no characters. -/
theorem toNat_bounds (c : Char) :
    c.toNat < 0xd800 ∨ (0xdfff < c.toNat ∧ c.toNat < 0x110000) := c.valid

theorem readEscape_unicode {c : Char} (h : c.toNat < 0x10000) (rest : List Char) :
    readEscape ('u' :: (Bytes.hex (Bytes.ofNat 2 c.toNat) ++ rest)) = some (c, rest) := by
  have hvalid : c.toNat < 0xd800 ∨ 0xdfff < c.toNat := by
    have := toNat_bounds c
    omega
  rw [readEscape, readUnit_hex h, Option.bind_some]
  simp only [hvalid, if_true, Char.ofNat_toNat]

/-- Two surrogates are read as one character. -/
theorem readEscape_surrogates {u v : ℕ} (hu : 0xd800 ≤ u ∧ u ≤ 0xdbff)
    (hv : 0xdc00 ≤ v ∧ v ≤ 0xdfff) (rest : List Char) :
    readEscape ('u' :: (Bytes.hex (Bytes.ofNat 2 u) ++ (unicodeEscape v ++ rest))) =
      some (Char.ofNat (0x10000 + (u - 0xd800) * 0x400 + (v - 0xdc00)), rest) := by
  have hsurrogate : ¬ (u < 0xd800 ∨ 0xdfff < u) := by omega
  rw [readEscape, readUnit_hex (by omega), Option.bind_some]
  simp only [hsurrogate, if_false, hu.2, if_true, unicodeEscape, List.cons_append]
  rw [readUnit_hex (by omega), Option.bind_some]
  simp only [hv, and_self, if_true]

/-- **A character is read from what is written for it.** -/
theorem readString_escapeChar (c : Char) (n : ℕ) (rest : List Char) :
    readString (n + 1) (escapeChar c ++ rest) =
      (readString n rest).map fun (s, cs) => (c :: s, cs) := by
  unfold escapeChar
  split_ifs with hquote hslash hn hr ht hb hf hplain hbasic
  · subst hquote
    rfl
  · subst hslash
    rfl
  · subst hn
    rfl
  · subst hr
    rfl
  · subst ht
    rfl
  · rw [← Char.ofNat_toNat c, hb]
    rfl
  · rw [← Char.ofNat_toNat c, hf]
    rfl
  · have hge : ¬ c.toNat < 32 := by omega
    simp [readString, hquote, hslash, hge]
  · rw [unicodeEscape, List.cons_append, List.cons_append, readString, if_neg (by decide),
      if_pos rfl, readEscape_unicode hbasic, Option.bind_some]
  · simp only [unicodeEscape, List.cons_append, List.append_assoc]
    rw [readString, if_neg (by decide), if_pos rfl]
    have hvalid := toNat_bounds c
    generalize hv : c.toNat - 0x10000 = v
    have hread := readEscape_surrogates (u := 0xd800 + v / 0x400) (v := 0xdc00 + v % 0x400)
      (by omega) (by omega) rest
    have hjoin : 0x10000 + (0xd800 + v / 0x400 - 0xd800) * 0x400 + (0xdc00 + v % 0x400 - 0xdc00) =
        c.toNat := by omega
    simp only [unicodeEscape, List.cons_append] at hread
    rw [hread, Option.bind_some, hjoin, Char.ofNat_toNat]

theorem readString_flatMap (s rest : List Char) {n : ℕ} (hn : s.length < n) :
    readString n (s.flatMap escapeChar ++ '"' :: rest) = some (s, rest) := by
  induction s generalizing n with
  | nil =>
    obtain ⟨n, rfl⟩ := Nat.exists_eq_add_of_lt hn
    rfl
  | cons c s ih =>
    obtain ⟨n, rfl⟩ : ∃ m, n = m + 1 := ⟨n - 1, by simp only [List.length_cons] at hn; omega⟩
    rw [List.flatMap_cons, List.append_assoc, readString_escapeChar,
      ih (by simpa using hn), Option.map_some]

theorem escapeChar_ne_nil (c : Char) : escapeChar c ≠ [] := by
  unfold escapeChar
  split_ifs <;> exact List.cons_ne_nil _ _

theorem length_le_flatMap (s : List Char) : s.length ≤ (s.flatMap escapeChar).length := by
  induction s with
  | nil => exact le_rfl
  | cons c s ih =>
    have hpos := List.length_pos_iff.mpr (escapeChar_ne_nil c)
    rw [List.flatMap_cons, List.length_append, List.length_cons]
    omega

/-- **A text is read as it was**, after its opening quote. -/
theorem readString_writeString (s : String) (rest : List Char) :
    let cs := s.toList.flatMap escapeChar ++ '"' :: rest
    readString cs.length cs = some (s.toList, rest) := by
  apply readString_flatMap
  have := length_le_flatMap s.toList
  rw [List.length_append, List.length_cons]
  omega

/-! ## Items -/

theorem skipBlanks_cons {c : Char} (h : isBlank c = false) (cs : List Char) :
    skipBlanks (c :: cs) = c :: cs := by
  rw [skipBlanks, List.dropWhile_cons_of_neg (by simp [h])]

/-- The closing bracket of a sequence. -/
structure Closes (close : Char) : Prop where
  blank : isBlank close = false
  comma : close ≠ ','
  ends : ∀ rest, EndsNumber (close :: rest)

theorem closes_bracket : Closes ']' where
  blank := rfl
  comma := by decide
  ends := by
    rintro rest c ⟨⟩
    decide

theorem closes_brace : Closes '}' where
  blank := rfl
  comma := by decide
  ends := by
    rintro rest c ⟨⟩
    decide

theorem endsNumber_comma (rest : List Char) : EndsNumber (',' :: rest) := by
  rintro c ⟨⟩
  decide

section Items

variable {α : Type} {item : List Char → Option (α × List Char)} {close : Char}

/-- The item is read from the text. -/
def ReadsAs (item : List Char → Option (α × List Char)) (text : List Char) (a : α) : Prop :=
  ∀ rest, EndsNumber rest → item (text ++ rest) = some (a, rest)

theorem length_le_intercalate (texts : List (List Char)) :
    texts.length ≤ (List.intercalate [','] texts).length + 1 := by
  induction texts with
  | nil => exact Nat.zero_le _
  | cons t texts ih =>
    cases texts with
    | nil => simp
    | cons t' texts =>
      rw [List.intercalate_cons_cons, List.length_append, List.length_append,
        List.length_cons (a := t)]
      simp only [List.length_cons] at ih ⊢
      omega

/-- **The items are read**, one after the other. -/
theorem readItems_intercalate (hclose : Closes close) {texts : List (List Char)} {as : List α}
    (h : List.Forall₂ (ReadsAs item) texts as) (hne : texts ≠ []) {n : ℕ} (hn : texts.length ≤ n)
    (rest : List Char) : readItems item close n (List.intercalate [','] texts ++ close :: rest) =
      some (as, rest) := by
  induction h generalizing n with
  | nil => exact absurd rfl hne
  | @cons t a texts as hread htexts ih =>
    obtain ⟨n, rfl⟩ : ∃ m, n = m + 1 := ⟨n - 1, by simp only [List.length_cons] at hn; omega⟩
    cases htexts with
    | nil =>
      rw [List.intercalate_singleton, readItems, hread _ (hclose.ends rest), Option.bind_some]
      simp only [skipBlanks_cons hclose.blank, if_true]
    | @cons t' a' texts as hread' htexts =>
      have htail := ih (List.cons_ne_nil _ _) (Nat.le_of_succ_le_succ hn)
      have hcomma (cs : List Char) : skipBlanks (',' :: cs) = ',' :: cs :=
        skipBlanks_cons (by decide) cs
      rw [List.intercalate_cons_cons, List.append_assoc, List.append_assoc, readItems,
        List.singleton_append, hread _ (endsNumber_comma _), Option.bind_some]
      simp only [hcomma, hclose.comma.symm, if_false, if_true, htail, Option.map_some]

/-- **The items are read between their brackets.** -/
theorem readSequence_intercalate (hclose : Closes close)
    (hitem : ∀ cs, (skipBlanks cs).head? = some close → item cs = none) {texts : List (List Char)}
    {as : List α} (h : List.Forall₂ (ReadsAs item) texts as) (rest : List Char) :
    readSequence item close (List.intercalate [','] texts ++ close :: rest) = some (as, rest) := by
  cases h with
  | nil =>
    have hcs : List.intercalate [','] ([] : List (List Char)) ++ close :: rest = close :: rest :=
      rfl
    rw [hcs, readSequence, skipBlanks_cons hclose.blank, List.head?_cons, if_pos rfl,
      List.tail_cons]
  | @cons t a texts as hread htexts =>
    have hitems := readItems_intercalate hclose (.cons hread htexts) (List.cons_ne_nil _ _)
      (n := (List.intercalate [','] (t :: texts) ++ close :: rest).length)
      (by
        have := length_le_intercalate (t :: texts)
        rw [List.length_append, List.length_cons (a := close)]
        omega) rest
    rw [readSequence, if_neg, hitems]
    intro hhead
    have hnone := hitem _ hhead
    rw [List.length_append, List.length_cons, ← Nat.add_assoc, readItems, hnone] at hitems
    cases hitems

end Items

/-! ## Values -/

/-- How a number begins. -/
theorem head_of_readNumber {cs rest : List Char} {q : ℚ} (h : readNumber cs = some (q, rest)) :
    ∃ c cs', cs = c :: cs' ∧ (c = '-' ∨ c.isDigit) := by
  cases cs with
  | nil => cases h
  | cons c cs =>
    refine ⟨c, cs, rfl, ?_⟩
    by_contra hc
    rw [not_or, Bool.not_eq_true] at hc
    have hunsigned : readNumber (c :: cs) = readUnsigned (c :: cs) := by
      unfold readNumber
      split
      · rename_i heq
        exact absurd (List.cons.inj heq).1 hc.1
      · rfl
    have hnone : readUnsigned (c :: cs) = none := by
      simp [readUnsigned, spanDigits, hc.2]
    rw [hunsigned, hnone] at h
    cases h

theorem readValue_of_readNumber {cs rest : List Char} {q : ℚ} (n : ℕ)
    (h : readNumber cs = some (q, rest)) : readValue (n + 1) cs = some (.number q, rest) := by
  obtain ⟨c, cs, rfl, hc⟩ := head_of_readNumber h
  have hblank : isBlank c = false := by
    by_contra hblank
    simp only [isBlank, Bool.not_eq_false, Bool.or_eq_true, decide_eq_true_eq] at hblank
    rcases hblank with ((rfl | rfl) | rfl) | rfl <;> revert hc <;> decide
  have hhead : ∀ {d : Char} {ds : List Char}, ¬ (d = '-' ∨ d.isDigit) → c :: cs ≠ d :: ds := by
    rintro d ds hd heq
    rw [(List.cons.inj heq).1] at hc
    exact hd hc
  rw [readValue, skipBlanks_cons hblank]
  split
  case h_7 => rw [h, Option.map_some]
  all_goals exact absurd (by assumption) (hhead (by decide))

/-- No value begins with a closing bracket. -/
theorem readValue_of_closing {cs : List Char} (n : ℕ) (h : (skipBlanks cs).head? = some ']') :
    readValue n cs = none := by
  cases n with
  | zero => rfl
  | succ n =>
    obtain ⟨cs', hcs⟩ := List.head?_eq_some_iff.mp h
    rw [readValue, hcs]
    rfl

/-- No member begins with a closing brace. -/
theorem readMember_of_closing {value : List Char → Option (Doc × List Char)} {cs : List Char}
    (h : (skipBlanks cs).head? = some '}') : readMember value cs = none := by
  obtain ⟨cs', hcs⟩ := List.head?_eq_some_iff.mp h
  rw [readMember, hcs]
  rfl

/-- A member is read from its key and its value. -/
theorem readMember_writeString {value : List Char → Option (Doc × List Char)} {text : List Char}
    {d : Doc} (key : String) (h : ReadsAs value text d) :
    ReadsAs (readMember value) (writeString key ++ ':' :: text) (key, d) := by
  intro rest hrest
  have hkey := readString_writeString key (':' :: (text ++ rest))
  have hquote (cs : List Char) : skipBlanks ('"' :: cs) = '"' :: cs := skipBlanks_cons rfl cs
  have hcolon (cs : List Char) : skipBlanks (':' :: cs) = ':' :: cs := skipBlanks_cons rfl cs
  have htext : writeString key ++ ':' :: text ++ rest =
      '"' :: (key.toList.flatMap escapeChar ++ '"' :: ':' :: (text ++ rest)) := by
    simp [writeString]
  simp only at hkey
  rw [htext, readMember, hquote]
  simp only [hkey, Option.bind_some, hcolon, h rest hrest, Option.map_some, String.ofList_toList]

theorem length_le_of_mem_intercalate {texts : List (List Char)} {t : List Char} (h : t ∈ texts) :
    t.length ≤ (List.intercalate [','] texts).length := by
  induction texts with
  | nil => cases h
  | cons t' texts ih =>
    cases texts with
    | nil =>
      obtain rfl := List.mem_singleton.mp h
      simp
    | cons t'' texts =>
      rw [List.intercalate_cons_cons, List.length_append, List.length_append]
      rcases List.mem_cons.mp h with rfl | h
      · omega
      · have := ih h
        omega

mutual

/-- What is written for a value is read as its document. -/
theorem readValue_dumps : ∀ (j : Json) {d : Doc} {n : ℕ}, doc? j = some d →
    (dumps j).length < n + 1 → ReadsAs (readValue (n + 1)) (dumps j) d
  | .null, d, n, hd, _ => by
    cases hd
    intro rest _
    rfl
  | .bool b, d, n, hd, _ => by
    cases hd
    intro rest _
    cases b <;> rfl
  | .int z, d, n, hd, _ => by
    cases hd
    intro rest hrest
    exact readValue_of_readNumber n (readNumber_intText z hrest)
  | .float f, d, n, hd, _ => by
    obtain ⟨q, hq, rfl⟩ := Option.map_eq_some_iff.mp hd
    intro rest hrest
    exact readValue_of_readNumber n (readNumber_repr hq hrest)
  | .str s, d, n, hd, _ => by
    cases hd
    intro rest _
    have hread := readString_writeString s rest
    have htext : dumps (.str s) ++ rest = '"' :: (s.toList.flatMap escapeChar ++ '"' :: rest) := by
      simp [dumps, writeString]
    simp only at hread
    rw [htext, readValue, skipBlanks_cons rfl]
    simp only [hread, Option.map_some, String.ofList_toList]
  | .arr items, d, n, hd, hn => by
    obtain ⟨ds, hds, rfl⟩ := Option.map_eq_some_iff.mp hd
    intro rest _
    have hitems := readValue_writeItems items hds (n := n) fun t ht => by
      have hle := length_le_of_mem_intercalate ht
      simp only [dumps, List.length_cons, List.length_append] at hn
      omega
    have hread := readSequence_intercalate closes_bracket
      (fun cs => readValue_of_closing n) hitems rest
    have htext : dumps (.arr items) ++ rest =
        '[' :: (List.intercalate [','] (writeItems items) ++ ']' :: rest) := by
      simp [dumps]
    rw [htext, readValue, skipBlanks_cons rfl]
    simp only [hread, Option.map_some]
  | .obj members, d, n, hd, hn => by
    obtain ⟨ds, hds, rfl⟩ := Option.map_eq_some_iff.mp hd
    intro rest _
    have hmembers := readMember_writeMembers members hds (n := n) fun t ht => by
      have hle := length_le_of_mem_intercalate ht
      simp only [dumps, List.length_cons, List.length_append] at hn
      omega
    have hread := readSequence_intercalate closes_brace
      (fun cs => readMember_of_closing) hmembers rest
    have htext : dumps (.obj members) ++ rest =
        '{' :: (List.intercalate [','] (writeMembers members) ++ '}' :: rest) := by
      simp [dumps]
    rw [htext, readValue, skipBlanks_cons rfl]
    simp only [hread, Option.map_some]

theorem readValue_writeItems : ∀ (items : List Json) {ds : List Doc} {n : ℕ},
    docItems? items = some ds → (∀ t ∈ writeItems items, t.length < n) →
    List.Forall₂ (ReadsAs (readValue n)) (writeItems items) ds
  | [], ds, n, hds, _ => by
    cases hds
    exact .nil
  | j :: items, ds, n, hds, hn => by
    obtain ⟨d, hd, hrest⟩ := Option.bind_eq_some_iff.mp hds
    obtain ⟨ds, htail, rfl⟩ := Option.map_eq_some_iff.mp hrest
    have hlength := hn _ List.mem_cons_self
    obtain ⟨n, rfl⟩ : ∃ m, n = m + 1 := ⟨n - 1, by omega⟩
    refine .cons (readValue_dumps j hd hlength) ?_
    exact readValue_writeItems items htail fun t ht => hn t (List.mem_cons_of_mem _ ht)

theorem readMember_writeMembers : ∀ (members : List (String × Json))
    {ds : List (String × Doc)} {n : ℕ}, docMembers? members = some ds →
    (∀ t ∈ writeMembers members, t.length < n) →
    List.Forall₂ (ReadsAs (readMember (readValue n))) (writeMembers members) ds
  | [], ds, n, hds, _ => by
    cases hds
    exact .nil
  | (key, j) :: members, ds, n, hds, hn => by
    obtain ⟨d, hd, hrest⟩ := Option.bind_eq_some_iff.mp hds
    obtain ⟨ds, htail, rfl⟩ := Option.map_eq_some_iff.mp hrest
    have hlength := hn _ List.mem_cons_self
    rw [List.length_append, List.length_cons] at hlength
    obtain ⟨n, rfl⟩ : ∃ m, n = m + 1 := ⟨n - 1, by omega⟩
    refine .cons (readMember_writeString key (readValue_dumps j hd (by omega))) ?_
    exact readMember_writeMembers members htail fun t ht => hn t (List.mem_cons_of_mem _ ht)

end

/-- **What is written is read**: the text of a value is a JSON text, and its document is the one
that the value stands for. -/
theorem read_dumps {j : Json} {d : Doc} (h : doc? j = some d) : read (dumps j) = some d := by
  have hends : EndsNumber [] := by
    rintro c ⟨⟩
  have hread := readValue_dumps j h (Nat.lt_succ_self _) [] hends
  rw [List.append_nil] at hread
  rw [read, hread]
  rfl

end JsonText

end Foundations
