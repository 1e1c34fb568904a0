import Mathlib.Data.Int.Init
import Mathlib.Data.Rat.Floor
import Mathlib.Tactic.Ring

/-!
# Moments as text

A moment in UTC, in microseconds since the epoch, as Python's `datetime.isoformat` writes it: the
date of the Gregorian calendar, the time of the day, a fraction of the second unless it is zero, and
the offset. A reader of such texts recovers the moment (`readMoment_isoformat`), for all moments
from the year 1 to the year 9999.
-/

namespace Foundations.Calendar

/-! ## Dates -/

/-- A day of the Gregorian calendar. -/
structure Date where
  year : ℕ
  month : ℕ
  day : ℕ
  deriving DecidableEq

/-- Is it a leap year? -/
def isLeap (year : ℕ) : Bool := year % 4 = 0 && (year % 100 ≠ 0 || year % 400 = 0)

/-- The lengths of the months. -/
def monthLengths (leap : Bool) : List ℕ :=
  [31, if leap then 29 else 28, 31, 30, 31, 30, 31, 31, 30, 31, 30, 31]

/-- The days before a month, counted from one. -/
def daysBeforeMonth (leap : Bool) (month : ℕ) : ℕ := ((monthLengths leap).take (month - 1)).sum

/-- The days before a year since the first of January of the year 1. -/
def daysBeforeYear (year : ℕ) : ℕ :=
  let y := year - 1
  y * 365 + y / 4 - y / 100 + y / 400

/-- The days before a date. -/
def Date.days (d : Date) : ℕ :=
  daysBeforeYear d.year + daysBeforeMonth (isLeap d.year) d.month + (d.day - 1)

/-- The month and the day of a day of the year, which is counted from zero. -/
def monthDay : ℕ → List ℕ → ℕ → ℕ × ℕ
  | month, length :: lengths, n =>
    if n < length then (month, n + 1) else monthDay (month + 1) lengths (n - length)
  | month, [], n => (month, n + 1)

/-- The date after so many days: cycles of 400, 100, 4 years and single years. -/
def ofDays (n : ℕ) : Date :=
  let n400 := n / 146097
  let n := n % 146097
  let n100 := min (n / 36524) 3
  let n := n - n100 * 36524
  let n4 := n / 1461
  let n := n % 1461
  let n1 := min (n / 365) 3
  let n := n - n1 * 365
  let year := 400 * n400 + 100 * n100 + 4 * n4 + n1 + 1
  let md := monthDay 1 (monthLengths (isLeap year)) n
  { year, month := md.1, day := md.2 }

/-- The days of a year are those of its months. -/
theorem monthDay_spec (leap : Bool) {n : ℕ} (hn : n < if leap then 366 else 365) :
    daysBeforeMonth leap (monthDay 1 (monthLengths leap) n).1 +
      ((monthDay 1 (monthLengths leap) n).2 - 1) = n ∧
    (monthDay 1 (monthLengths leap) n).1 ≤ 12 ∧ (monthDay 1 (monthLengths leap) n).2 ≤ 31 := by
  cases leap with
  | false =>
    have hall : ∀ n < 365, daysBeforeMonth false (monthDay 1 (monthLengths false) n).1 +
        ((monthDay 1 (monthLengths false) n).2 - 1) = n ∧
        (monthDay 1 (monthLengths false) n).1 ≤ 12 ∧
        (monthDay 1 (monthLengths false) n).2 ≤ 31 := by
      decide +kernel
    exact hall n hn
  | true =>
    have hall : ∀ n < 366, daysBeforeMonth true (monthDay 1 (monthLengths true) n).1 +
        ((monthDay 1 (monthLengths true) n).2 - 1) = n ∧
        (monthDay 1 (monthLengths true) n).1 ≤ 12 ∧
        (monthDay 1 (monthLengths true) n).2 ≤ 31 := by
      decide +kernel
    exact hall n hn

theorem daysBeforeYear_cycles {a b c d : ℕ} (hb : b ≤ 3) (hc : c ≤ 24) (hd : d ≤ 3) :
    daysBeforeYear (400 * a + 100 * b + 4 * c + d + 1) =
      146097 * a + 36524 * b + 1461 * c + 365 * d := by
  simp only [daysBeforeYear, Nat.add_sub_cancel]
  omega

/-- The last year of four is a leap year, but for three centuries of four. -/
theorem isLeap_cycles {a b c : ℕ} (hc : c ≤ 24) (hleap : c = 24 → b = 3) :
    isLeap (400 * a + 100 * b + 4 * c + 3 + 1) = true := by
  simp only [isLeap, Bool.and_eq_true, Bool.or_eq_true, decide_eq_true_eq, ne_eq]
  omega

/-- **A date is the one of its days.** -/
theorem days_ofDays (n : ℕ) :
    (ofDays n).days = n ∧ (ofDays n).month ≤ 12 ∧ (ofDays n).day ≤ 31 := by
  set a := n / 146097 with ha
  set r := n % 146097 with hr
  set b := min (r / 36524) 3 with hb
  set r₁ := r - b * 36524 with hr₁
  set c := r₁ / 1461 with hc
  set r₂ := r₁ % 1461 with hr₂
  set d := min (r₂ / 365) 3 with hd
  set r₃ := r₂ - d * 365 with hr₃
  have hrlt : r < 146097 := Nat.mod_lt _ (by norm_num)
  have hb3 : b ≤ 3 := min_le_right _ _
  have hd3 : d ≤ 3 := min_le_right _ _
  have hr₁le : r₁ ≤ 36524 ∧ b * 36524 ≤ r ∧ (r₁ = 36524 → b = 3) := by omega
  have hc24 : c ≤ 24 := by omega
  have hr₂lt : r₂ < 1461 := Nat.mod_lt _ (by norm_num)
  have hr₃le : r₃ ≤ 365 ∧ d * 365 ≤ r₂ ∧ (r₃ = 365 → d = 3 ∧ r₂ = 1460) := by omega
  have hsplit : n = 146097 * a + 36524 * b + 1461 * c + 365 * d + r₃ := by omega
  have hspec := monthDay_spec (isLeap (400 * a + 100 * b + 4 * c + d + 1)) (n := r₃) ?_
  · have hdate : ofDays n = ⟨400 * a + 100 * b + 4 * c + d + 1,
        (monthDay 1 (monthLengths (isLeap (400 * a + 100 * b + 4 * c + d + 1))) r₃).1,
        (monthDay 1 (monthLengths (isLeap (400 * a + 100 * b + 4 * c + d + 1))) r₃).2⟩ := rfl
    rw [hdate]
    refine ⟨?_, hspec.2⟩
    rw [Date.days, daysBeforeYear_cycles hb3 hc24 hd3, Nat.add_assoc, hspec.1]
    exact hsplit.symm
  · -- the last day of a leap year
    by_cases hlast : r₃ = 365
    · obtain ⟨hd', hr₂'⟩ := hr₃le.2.2 hlast
      have hleap := isLeap_cycles (a := a) (b := b) hc24 fun h24 => hr₁le.2.2 (by omega)
      rw [hd', hleap, hlast]
      decide
    · split_ifs <;> omega

theorem year_ofDays {n : ℕ} (hn : n < 3652059) : (ofDays n).year ≤ 9999 := by
  simp only [ofDays]
  omega

/-! ## Writing -/

/-- A number with at least so many digits. -/
def pad (width n : ℕ) : List Char :=
  List.replicate (width - (Nat.toDigits 10 n).length) '0' ++ Nat.toDigits 10 n

/-- The days from the first of January of the year 1 to the epoch. -/
def epochDays : ℤ := 719162

/-- The moments that a `datetime` can have. -/
def InRange (t : ℤ) : Prop := -62135596800000000 ≤ t ∧ t < 253402300800000000

/-- `isoformat()` of a moment in UTC. -/
def isoformat (t : ℤ) : List Char :=
  let date := ofDays (t / 86400000000 + epochDays).toNat
  let micros := (t % 86400000000).toNat
  let seconds := micros / 1000000
  let fraction := micros % 1000000
  pad 4 date.year ++ '-' :: (pad 2 date.month ++ '-' :: (pad 2 date.day ++ 'T' ::
    (pad 2 (seconds / 3600) ++ ':' :: (pad 2 (seconds / 60 % 60) ++ ':' ::
      (pad 2 (seconds % 60) ++ ((if fraction = 0 then [] else '.' :: pad 6 fraction) ++
        "+00:00".toList))))))

/-! ## Reading -/

/-- A number of exactly so many digits. -/
def readDigits (width : ℕ) (cs : List Char) : Option (ℕ × List Char) :=
  if (cs.take width).length = width ∧ (cs.take width).all Char.isDigit then
    some (Nat.ofDigitChars 10 (cs.take width) 0, cs.drop width)
  else none

/-- The text after a character. -/
def expect (c : Char) : List Char → Option (List Char)
  | [] => none
  | d :: cs => if d = c then some cs else none

/-- The fraction of a second, in microseconds. -/
def readFraction (cs : List Char) : Option (ℕ × List Char) :=
  if cs.head? = some '.' then readDigits 6 cs.tail else some (0, cs)

/-- The moment that a text in UTC names. -/
def readMoment (cs : List Char) : Option ℤ := do
  let (year, cs) ← readDigits 4 cs
  let cs ← expect '-' cs
  let (month, cs) ← readDigits 2 cs
  let cs ← expect '-' cs
  let (day, cs) ← readDigits 2 cs
  let cs ← expect 'T' cs
  let (hour, cs) ← readDigits 2 cs
  let cs ← expect ':' cs
  let (minute, cs) ← readDigits 2 cs
  let cs ← expect ':' cs
  let (second, cs) ← readDigits 2 cs
  let (micro, cs) ← readFraction cs
  if cs = "+00:00".toList then
    let days : ℤ := (Date.mk year month day).days
    some ((days - epochDays) * 86400000000 +
      ((hour * 3600 + minute * 60 + second) * 1000000 + micro : ℕ))
  else none

theorem readDigits_pad {width n : ℕ} (h : n < 10 ^ width) (hwidth : width ≠ 0) (rest : List Char) :
    readDigits width (pad width n ++ rest) = some (n, rest) := by
  have hlength : (Nat.toDigits 10 n).length ≤ width :=
    (Nat.length_toDigits_le_iff (by decide) (by omega)).mpr h
  have hpad : (pad width n).length = width := by
    rw [pad, List.length_append, List.length_replicate]
    omega
  have hdigits : (pad width n).all Char.isDigit := by
    rw [pad, List.all_append, List.all_replicate, Bool.and_eq_true, List.all_eq_true]
    refine ⟨by simp, fun c hc => ?_⟩
    exact Nat.isDigit_of_mem_toDigits (by decide) (by decide) hc
  rw [readDigits, List.take_left' hpad, List.drop_left' hpad, if_pos ⟨hpad, hdigits⟩, pad,
    Nat.ofDigitChars_append, Nat.ofDigitChars_replicate_zero, Nat.mul_zero,
    Nat.ofDigitChars_ten_toDigits]

theorem expect_cons (c : Char) (cs : List Char) : expect c (c :: cs) = some cs := if_pos rfl

theorem readFraction_of_lt {micro : ℕ} (h : micro < 1000000) {rest : List Char}
    (hrest : rest.head? ≠ some '.') :
    readFraction ((if micro = 0 then [] else '.' :: pad 6 micro) ++ rest) = some (micro, rest) := by
  split_ifs with hzero
  · rw [List.nil_append, readFraction, if_neg hrest, hzero]
  · rw [readFraction, List.cons_append, List.head?_cons, if_pos rfl, List.tail_cons]
    exact readDigits_pad h (by decide) rest

/-- **A moment is read as it was.** -/
theorem readMoment_isoformat {t : ℤ} (h : InRange t) : readMoment (isoformat t) = some t := by
  obtain ⟨hlow, hhigh⟩ := h
  generalize hn : (t / 86400000000 + epochDays).toNat = n
  generalize hmicros : (t % 86400000000).toNat = micros
  have hn' : (n : ℤ) = t / 86400000000 + epochDays := by
    rw [epochDays] at hn ⊢
    omega
  have hmicros' : (micros : ℤ) = t % 86400000000 := by omega
  have hlt : micros < 86400000000 := by omega
  have hnlt : n < 3652059 := by
    rw [epochDays] at hn'
    omega
  obtain ⟨hdays, hmonth, hday⟩ := days_ofDays n
  have hyear := year_ofDays hnlt
  have hzone : "+00:00".toList.head? ≠ some '.' := by decide
  have hread (width m : ℕ) (hm : m < 10 ^ width) (hwidth : width ≠ 0) (rest : List Char) :
      readDigits width (pad width m ++ rest) = some (m, rest) := readDigits_pad hm hwidth rest
  have hmicro := readFraction_of_lt (show micros % 1000000 < 1000000 by omega) hzone
  simp only [isoformat, readMoment, hn, hmicros, bind, Option.bind_some, expect_cons, hmicro,
    if_true, hread 4 (ofDays n).year (by omega) (by decide),
    hread 2 (ofDays n).month (by omega) (by decide), hread 2 (ofDays n).day (by omega) (by decide),
    hread 2 (micros / 1000000 / 3600) (by omega) (by decide),
    hread 2 (micros / 1000000 / 60 % 60) (by omega) (by decide),
    hread 2 (micros / 1000000 % 60) (by omega) (by decide), hdays, Option.some.injEq]
  push_cast
  omega

end Foundations.Calendar
