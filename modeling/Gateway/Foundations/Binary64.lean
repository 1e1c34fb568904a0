import Gateway.Foundations.Json

/-!
# Binary64 numbers and the decimals they print as

A decimal becomes a float by rounding to 53 bits, half to even (`round`), and a float prints as the
shortest decimal that rounds back to it (`shortest`); `ofRat` is both. Decimals of at most fifteen
digits survive: two of them that round to one float are equal (`eq_of_round_eq`), so what is printed
is what was read (`value?_ofRat_of_digits`). Seventeen digits always suffice (`exists_shortest`),
and what is printed is never far from what was read (`exists_value?_ofRat`).
-/

namespace Foundations

open Decimal (roundHalfEven)

theorem abs_roundHalfEven_sub_le (q : ℚ) : |roundHalfEven q - q| ≤ 1 / 2 := by
  have hfloor := Int.floor_le q
  have hlt := Int.lt_floor_add_one q
  rcases Decimal.roundHalfEven_eq q with ⟨heq, hle⟩ | ⟨heq, hle⟩
  · rw [heq, abs_le]
    constructor <;> linarith
  · rw [heq, abs_le]
    push_cast
    constructor <;> linarith

/-- A number near an integer is rounded to it. -/
theorem roundHalfEven_eq_of_abs_lt {q : ℚ} {n : ℤ} (h : |q - n| < 1 / 2) :
    roundHalfEven q = n := by
  have hround := abs_le.mp (abs_roundHalfEven_sub_le q)
  have hn := abs_lt.mp h
  have hlt : (roundHalfEven q : ℚ) < n + 1 := by linarith
  have hgt : (n : ℚ) - 1 < roundHalfEven q := by linarith
  have hlt' : roundHalfEven q < n + 1 := by exact_mod_cast hlt
  have hgt' : n - 1 < roundHalfEven q := by exact_mod_cast hgt
  omega

namespace Binary64

/-- The smallest float that is not subnormal. -/
def minNormal : ℚ := 2 ^ (-1022 : ℤ)

/-- The exponent of the last bit that is kept of a number. -/
def quantum (x : ℚ) : ℤ := max (Int.log 2 |x| - 52) (-1074)

/-- The nearest number with 53 bits, ties to the even one. -/
def round (x : ℚ) : ℚ := roundHalfEven (x / 2 ^ quantum x) * 2 ^ quantum x

/-- The decimal `m * 10 ^ k`, if it reads as the float. -/
def reads (x : ℚ) (k m : ℤ) : Option PyFloat :=
  if h : |m| < 10 ^ 17 then if round (m * 10 ^ k) = x then some (.finite m k h) else none else none

/-- A decimal of `n` digits that reads as the float: the nearest one, or one on either side. -/
def digits (x : ℚ) (n : ℕ) : Option PyFloat :=
  let k := Int.log 10 |x| - (n - 1)
  [roundHalfEven (x / 10 ^ k), ⌊x / 10 ^ k⌋, ⌈x / 10 ^ k⌉].findSome? (reads x k)

/-- The decimal with the fewest digits that reads as the float. -/
def shortest (x : ℚ) : Option PyFloat := (List.range' 1 17).findSome? (digits x)

/-- `float(x)` of a decimal number, as `repr` prints it; the sign of a zero is not kept. -/
def ofRat (x : ℚ) : PyFloat :=
  let y := round |x|
  if 2 ^ 1024 ≤ y then .infinity (x < 0)
  else
    let f := (shortest y).getD .nan
    if x < 0 then f.neg else f

/-! ## The error of rounding -/

theorem two_zpow_pos (e : ℤ) : (0 : ℚ) < 2 ^ e := zpow_pos (by norm_num) e

theorem minNormal_pos : 0 < minNormal := two_zpow_pos _

theorem abs_round_sub_le_quantum (x : ℚ) : |round x - x| ≤ 2 ^ quantum x / 2 := by
  have hpos := two_zpow_pos (quantum x)
  have hx : round x - x =
      (roundHalfEven (x / 2 ^ quantum x) - x / 2 ^ quantum x) * 2 ^ quantum x := by
    rw [round, sub_mul, div_mul_cancel₀ x hpos.ne']
  rw [hx, abs_mul, abs_of_pos hpos]
  linarith [mul_le_mul_of_nonneg_right (abs_roundHalfEven_sub_le (x / 2 ^ quantum x)) hpos.le]

/-- **The relative error** of rounding a number that is not subnormal. -/
theorem abs_round_sub_le {x : ℚ} (hx : minNormal ≤ x) : |round x - x| ≤ x / 2 ^ 53 := by
  have hpos : 0 < x := minNormal_pos.trans_le hx
  have hlog : -1022 ≤ Int.log 2 x :=
    (Int.zpow_le_iff_le_log (by norm_num) hpos).mp (by exact_mod_cast hx)
  have hquantum : quantum x = Int.log 2 x - 52 := by
    rw [quantum, abs_of_pos hpos]
    omega
  have hle : (2 : ℚ) ^ Int.log 2 x ≤ x := by
    exact_mod_cast Int.zpow_log_le_self (by norm_num) hpos
  refine (abs_round_sub_le_quantum x).trans ?_
  rw [hquantum, zpow_sub₀ (by norm_num)]
  norm_num
  linarith

theorem round_zero : round 0 = 0 := by
  have hzero : roundHalfEven (0 : ℚ) = 0 := by decide +kernel
  rw [round, zero_div, hzero, Int.cast_zero, zero_mul]

/-- **The absolute error** of rounding a number of at most this size. -/
theorem abs_round_sub_le_of_le {x B : ℚ} (h : |x| ≤ B) :
    |round x - x| ≤ B / 2 ^ 53 + minNormal := by
  have hpos := minNormal_pos
  have hB := (abs_nonneg x).trans h
  rcases eq_or_ne x 0 with rfl | hx
  · rw [round_zero, sub_zero, abs_zero]
    positivity
  · refine (abs_round_sub_le_quantum x).trans ?_
    rcases le_or_gt (-1022) (Int.log 2 |x|) with hlog | hlog
    · have hquantum : quantum x = Int.log 2 |x| - 52 := by
        rw [quantum]
        omega
      have hle : (2 : ℚ) ^ Int.log 2 |x| ≤ |x| := by
        exact_mod_cast Int.zpow_log_le_self (by norm_num) (abs_pos.mpr hx)
      rw [hquantum, zpow_sub₀ (by norm_num)]
      norm_num
      linarith
    · have hquantum : quantum x = -1074 := by
        rw [quantum]
        omega
      have hsmall : (2 : ℚ) ^ quantum x ≤ minNormal :=
        zpow_le_zpow_right₀ (by norm_num) (by omega)
      have hB' : 0 ≤ B / 2 ^ 53 := by positivity
      linarith [two_zpow_pos (quantum x)]

/-! ## Fifteen digits -/

/-- The number has at most `n` decimal digits. -/
def HasDigits (n : ℕ) (d : ℚ) : Prop := ∃ m k : ℤ, |m| < 10 ^ n ∧ d = m * 10 ^ k

theorem ten_zpow_pos (k : ℤ) : (0 : ℚ) < 10 ^ k := zpow_pos (by norm_num) k

/-- A multiple of a power is one of every smaller power. -/
theorem exists_eq_mul_zpow {b : ℤ} (hb : b ≠ 0) {m k k' : ℤ} (h : k' ≤ k) :
    ∃ m' : ℤ, (m : ℚ) * b ^ k = m' * b ^ k' := by
  obtain ⟨j, rfl⟩ := Int.exists_add_of_le h
  refine ⟨m * b ^ j, ?_⟩
  rw [zpow_add₀ (by exact_mod_cast hb), zpow_natCast]
  push_cast
  ring

theorem hasDigits_of_le {n : ℕ} (hn : 1 ≤ n) {m k : ℤ} (h0 : 0 ≤ m) (h : m ≤ 10 ^ n) :
    HasDigits n (m * 10 ^ k) := by
  rcases h.lt_or_eq with hlt | rfl
  · exact ⟨m, k, by rwa [abs_of_nonneg h0], rfl⟩
  · refine ⟨1, n + k, ?_, ?_⟩
    · rw [abs_one]
      exact one_lt_pow₀ (by norm_num) (by omega)
    · rw [zpow_add₀ (by norm_num), zpow_natCast]
      push_cast
      ring

/-- Two different multiples of a power of ten are at least that far apart. -/
theorem zpow_le_sub {m m' k : ℤ} (h : (m : ℚ) * 10 ^ k < m' * 10 ^ k) :
    (10 : ℚ) ^ k ≤ m' * 10 ^ k - m * 10 ^ k := by
  have hpos := ten_zpow_pos k
  have hlt : (m : ℚ) < m' := lt_of_mul_lt_mul_right h hpos.le
  have hle : (m : ℚ) + 1 ≤ m' := by exact_mod_cast hlt
  nlinarith

theorem lt_of_hasDigits {m k : ℤ} {n : ℕ} (h : |m| < 10 ^ n) :
    (m : ℚ) * 10 ^ k / 10 ^ n < 10 ^ k := by
  have hpos := ten_zpow_pos k
  have hlt : (m : ℚ) < 10 ^ n := by exact_mod_cast (le_abs_self m).trans_lt h
  rw [div_lt_iff₀ (by positivity), mul_comm]
  exact mul_lt_mul_of_pos_left hlt hpos

/-- **Two decimals of `n` digits** are at a relative distance of more than `10 ^ -n`. -/
theorem HasDigits.lt_sub {n : ℕ} {c d : ℚ} (hc : HasDigits n c) (hd : HasDigits n d) (h : d < c) :
    d / 10 ^ n < c - d := by
  obtain ⟨m, k, hm, rfl⟩ := hd
  obtain ⟨m', k', hm', rfl⟩ := hc
  rcases le_total k k' with hk | hk
  · obtain ⟨j, hj⟩ := exists_eq_mul_zpow (b := 10) (by norm_num) (m := m') hk
    push_cast at hj
    rw [hj] at h ⊢
    exact (lt_of_hasDigits hm).trans_le (zpow_le_sub h)
  · obtain ⟨j, hj⟩ := exists_eq_mul_zpow (b := 10) (by norm_num) (m := m) hk
    push_cast at hj
    rw [hj] at h ⊢
    have hlt := lt_of_hasDigits (k := k') hm'
    have hle : (j : ℚ) * 10 ^ k' / 10 ^ n ≤ m' * 10 ^ k' / 10 ^ n := by gcongr
    exact (hle.trans_lt hlt).trans_le (zpow_le_sub h)

/-- Decimals of fifteen digits that are close to each other are equal. -/
theorem HasDigits.eq_of_close {c d : ℚ} (hc : HasDigits 15 c) (hd : HasDigits 15 d)
    (h : |c - d| ≤ (c + d) / 2 ^ 53) : c = d := by
  rw [abs_le] at h
  rcases lt_trichotomy c d with hlt | heq | hlt
  · have := hd.lt_sub hc hlt
    norm_num at this h
    linarith
  · exact heq
  · have := hc.lt_sub hd hlt
    norm_num at this h
    linarith

/-- **Fifteen digits determine a float**: the decimals that are rounded to it are equal. -/
theorem eq_of_round_eq {c d : ℚ} (hc : HasDigits 15 c) (hd : HasDigits 15 d)
    (hc0 : minNormal ≤ c) (hd0 : minNormal ≤ d) (h : round c = round d) : c = d := by
  have hcr := abs_le.mp (abs_round_sub_le hc0)
  have hdr := abs_le.mp (abs_round_sub_le hd0)
  apply hc.eq_of_close hd
  rw [h] at hcr
  rw [abs_le]
  constructor <;> linarith [add_div c d (2 ^ 53)]

/-! ## The shortest decimal -/

variable {x d : ℚ} {f : PyFloat} {n : ℕ}

theorem reads_eq_some {k m : ℤ} (h : reads x k m = some f) :
    ∃ hm, f = .finite m k hm ∧ round (m * 10 ^ k) = x := by
  unfold reads at h
  split_ifs at h with hm hround
  exact ⟨hm, (Option.some.inj h).symm, hround⟩

theorem exists_reads {k m : ℤ} (hm : |m| < 10 ^ 17) (hround : round (m * 10 ^ k) = x) :
    ∃ f, reads x k m = some f := ⟨_, by rw [reads, dif_pos hm, if_pos hround]⟩

theorem exists_digits {k m : ℤ} (hk : k = Int.log 10 |x| - (n - 1))
    (hmem : m ∈ [roundHalfEven (x / 10 ^ k), ⌊x / 10 ^ k⌋, ⌈x / 10 ^ k⌉])
    (h : reads x k m = some f) : ∃ f, digits x n = some f := by
  subst hk
  rw [← Option.isSome_iff_exists, digits, List.findSome?_isSome_iff]
  exact ⟨m, hmem, by rw [h, Option.isSome_some]⟩

/-- The size of a number in units of its `n`-th digit. -/
theorem mantissa_bounds (hx : 0 < x) {k : ℤ} (hk : k = Int.log 10 |x| - (n - 1)) :
    10 ^ n ≤ 10 * (x / 10 ^ k) ∧ x / 10 ^ k < 10 ^ n := by
  rw [abs_of_pos hx] at hk
  have hpos := ten_zpow_pos k
  have hle : (10 : ℚ) ^ Int.log 10 x ≤ x := by
    exact_mod_cast Int.zpow_log_le_self (by norm_num) hx
  have hlt : x < 10 ^ (Int.log 10 x + 1) := by
    exact_mod_cast Int.lt_zpow_succ_log_self (by norm_num) x
  have hexp : (10 : ℚ) ^ (Int.log 10 x + 1) = 10 ^ n * 10 ^ k := by
    rw [← zpow_natCast, ← zpow_add₀ (by norm_num), hk]
    congr 1
    ring
  constructor
  · rw [mul_div_assoc', le_div_iff₀ hpos, ← hexp, zpow_add_one₀ (by norm_num)]
    linarith
  · rw [div_lt_iff₀ hpos, ← hexp]
    exact hlt

/-- What is printed reads as the float, and has that many digits. -/
theorem digits_eq_some (hx : 0 < x) (hn : 1 ≤ n) (h : digits x n = some f) :
    ∃ m k hm, f = .finite m k hm ∧ round (m * 10 ^ k) = x ∧ HasDigits n (m * 10 ^ k) := by
  obtain ⟨m, hmem, hreads⟩ := List.exists_of_findSome?_eq_some h
  obtain ⟨hm, hf, hround⟩ := reads_eq_some hreads
  refine ⟨m, _, hm, hf, hround, ?_⟩
  set k := Int.log 10 |x| - (n - 1) with hk
  have hpos := ten_zpow_pos k
  have hy0 : 0 ≤ x / 10 ^ k := (div_pos hx hpos).le
  have hyn : x / 10 ^ k ≤ (10 ^ n : ℤ) := by
    exact_mod_cast (mantissa_bounds hx hk).2.le
  have hbounds : 0 ≤ m ∧ m ≤ 10 ^ n := by
    simp only [List.mem_cons, List.not_mem_nil, or_false] at hmem
    rcases hmem with rfl | rfl | rfl
    · exact ⟨Decimal.le_roundHalfEven (by exact_mod_cast hy0), Decimal.roundHalfEven_le hyn⟩
    · exact ⟨Int.floor_nonneg.mpr hy0, Int.floor_le_iff.mpr (by linarith)⟩
    · exact ⟨Int.ceil_nonneg hy0, Int.ceil_le.mpr hyn⟩
  exact hasDigits_of_le hn hbounds.1 hbounds.2

/-- The search ends at the latest with the digits that are known to suffice. -/
theorem shortest_of_digits (hn : n ∈ List.range' 1 17) (h : digits x n = some f) :
    ∃ n' f', 1 ≤ n' ∧ n' ≤ n ∧ digits x n' = some f' ∧ shortest x = some f' := by
  obtain ⟨f', hf'⟩ : ∃ f', shortest x = some f' := by
    rw [← Option.isSome_iff_exists, shortest, List.findSome?_isSome_iff]
    exact ⟨n, hn, by rw [h, Option.isSome_some]⟩
  obtain ⟨before, n', after, hlist, hdigits, hnone⟩ := List.findSome?_eq_some_iff.mp hf'
  have hsorted : (before ++ n' :: after).Pairwise (· < ·) := hlist ▸ List.pairwise_lt_range'
  have hn' : n' ∈ List.range' 1 17 := by
    rw [hlist]
    exact List.mem_append_right _ List.mem_cons_self
  refine ⟨n', f', (List.mem_range'_1.mp hn').1, ?_, hdigits, hf'⟩
  rw [hlist, List.mem_append, List.mem_cons] at hn
  rcases hn with hbefore | rfl | hafter
  · rw [hnone n hbefore] at h
    cases h
  · exact le_rfl
  · exact ((List.pairwise_cons.mp (List.pairwise_append.mp hsorted).2.1).1 n hafter).le

/-- What is rounded to a number that is not subnormal is not subnormal itself. -/
theorem le_of_le_round {c : ℚ} (h : 2 * minNormal ≤ round c) : minNormal ≤ c := by
  by_contra hlt
  rw [not_le] at hlt
  have hpos := minNormal_pos
  have hround : round c < 2 * minNormal := by
    rcases le_or_gt c 0 with hneg | hc
    · have hdiv : c / 2 ^ quantum c ≤ (0 : ℤ) := by
        rw [Int.cast_zero]
        exact div_nonpos_of_nonpos_of_nonneg hneg (two_zpow_pos _).le
      have hzero : (roundHalfEven (c / 2 ^ quantum c) : ℚ) ≤ 0 := by
        exact_mod_cast Decimal.roundHalfEven_le hdiv
      have hle := mul_nonpos_of_nonpos_of_nonneg hzero (two_zpow_pos (quantum c)).le
      rw [round]
      linarith
    · have hlog : Int.log 2 c < -1022 :=
        (Int.lt_zpow_iff_log_lt (by norm_num) hc).mp (by exact_mod_cast hlt)
      have hquantum : quantum c = -1074 := by
        rw [quantum, abs_of_pos hc]
        omega
      have herror := abs_le.mp (abs_round_sub_le_quantum c)
      have hsmall : (2 : ℚ) ^ quantum c ≤ minNormal :=
        zpow_le_zpow_right₀ (by norm_num) (by omega)
      linarith
  linarith

/-- Fifteen digits within half an ulp of a decimal of fifteen digits are that decimal, and read as
its float. -/
theorem exists_reads_of_close (hd : HasDigits 15 d) (hx : x = round d) {m k : ℤ} (h0 : 0 ≤ m)
    (hle : m ≤ 10 ^ 15) (hclose : |(m : ℚ) * 10 ^ k - d| ≤ d / 2 ^ 53) :
    ∃ f, reads x k m = some f := by
  have hdigits : HasDigits 15 (m * 10 ^ k) := hasDigits_of_le (by norm_num) h0 hle
  have hpos := abs_le.mp hclose
  have hclose' : |(m : ℚ) * 10 ^ k - d| ≤ (m * 10 ^ k + d) / 2 ^ 53 := by
    refine hclose.trans ?_
    norm_num at hpos ⊢
    linarith
  refine exists_reads ?_ (by rw [hdigits.eq_of_close hd hclose', hx])
  rw [abs_of_nonneg h0]
  omega

/-- A decimal of fifteen digits is a multiple of a weight, or below all numbers that have fifteen
digits from that weight on. -/
theorem HasDigits.grid_or_lt (hd : HasDigits 15 d) (k : ℤ) :
    (∃ j : ℤ, d = j * 10 ^ k) ∨ d < 10 ^ 14 * 10 ^ k := by
  obtain ⟨m, k', hm, hd'⟩ := hd
  rcases le_or_gt k k' with hle | hlt
  · left
    rw [hd']
    exact_mod_cast exists_eq_mul_zpow (b := 10) (by norm_num) (m := m) hle
  · right
    have hm' : (m : ℚ) < 10 ^ 15 := by exact_mod_cast (le_abs_self m).trans_lt hm
    have hexp : (10 : ℚ) ^ (k' + 1) ≤ 10 ^ k := zpow_le_zpow_right₀ (by norm_num) (by omega)
    rw [zpow_add_one₀ (by norm_num)] at hexp
    have hlt' := mul_lt_mul_of_pos_right hm' (ten_zpow_pos k')
    rw [hd']
    linarith only [hlt', hexp]

/-- Fifteen digits suffice for a float that was read from fifteen digits. -/
theorem exists_digits_fifteen (hd : HasDigits 15 d) (hnormal : minNormal ≤ d)
    (hx : x = round d) : ∃ f, digits x 15 = some f := by
  have hd0 : 0 < d := minNormal_pos.trans_le hnormal
  have herror := abs_le.mp (abs_round_sub_le hnormal)
  rw [← hx] at herror
  have hx0 : 0 < x := by
    norm_num at herror
    linarith
  set k := Int.log 10 |x| - ((15 : ℕ) - 1) with hk
  have hpos := ten_zpow_pos k
  obtain ⟨hlow, hhigh⟩ := mantissa_bounds hx0 hk
  have hgrid := hd.grid_or_lt k
  have hfloor : (10 ^ 14 : ℤ) ≤ ⌊x / 10 ^ k⌋ := by
    rw [Int.le_floor]
    push_cast
    linarith only [hlow]
  have hxk : x / 10 ^ k * 10 ^ k = x := div_mul_cancel₀ x hpos.ne'
  have hceil : ⌈x / 10 ^ k⌉ ≤ 10 ^ 15 := by
    rw [Int.ceil_le]
    exact_mod_cast hhigh.le
  rcases le_total d x with hdx | hxd
  · -- rounded up: the decimal is at most the one below the float
    have hbelow : d ≤ ⌊x / 10 ^ k⌋ * 10 ^ k := by
      rcases hgrid with ⟨j, rfl⟩ | hsmall
      · gcongr
        rw [Int.le_floor, le_div_iff₀ hpos]
        exact hdx
      · refine hsmall.le.trans ?_
        gcongr
        exact_mod_cast hfloor
    have habove : (⌊x / 10 ^ k⌋ : ℚ) * 10 ^ k ≤ x := by
      have := mul_le_mul_of_nonneg_right (Int.floor_le (x / 10 ^ k)) hpos.le
      rwa [hxk] at this
    have hle : ⌊x / 10 ^ k⌋ ≤ 10 ^ 15 := (Int.floor_le_ceil _).trans hceil
    have hclose : |(⌊x / 10 ^ k⌋ : ℚ) * 10 ^ k - d| ≤ d / 2 ^ 53 := by
      rw [abs_of_nonneg (sub_nonneg.mpr hbelow)]
      exact (sub_le_sub_right habove d).trans herror.2
    obtain ⟨f, hf⟩ := exists_reads_of_close hd hx (by omega) hle hclose
    exact exists_digits hk (by simp) hf
  · -- rounded down: the decimal is at least the one above the float
    have habove : (⌈x / 10 ^ k⌉ : ℚ) * 10 ^ k ≤ d := by
      rcases hgrid with ⟨j, rfl⟩ | hsmall
      · gcongr
        rw [Int.ceil_le, div_le_iff₀ hpos]
        exact hxd
      · have hle : (10 : ℚ) ^ 14 * 10 ^ k ≤ x / 10 ^ k * 10 ^ k := by
          gcongr
          linarith only [hlow]
        linarith only [hxd, hxk, hsmall, hle]
    have hbelow : x ≤ ⌈x / 10 ^ k⌉ * 10 ^ k := by
      have := mul_le_mul_of_nonneg_right (Int.le_ceil (x / 10 ^ k)) hpos.le
      rwa [hxk] at this
    have h0 : 0 ≤ ⌈x / 10 ^ k⌉ := by
      have := Int.floor_le_ceil (x / 10 ^ k)
      omega
    have hclose : |(⌈x / 10 ^ k⌉ : ℚ) * 10 ^ k - d| ≤ d / 2 ^ 53 := by
      rw [abs_sub_comm, abs_of_nonneg (sub_nonneg.mpr habove)]
      linarith only [hbelow, herror.1]
    obtain ⟨f, hf⟩ := exists_reads_of_close hd hx h0 hceil hclose
    exact exists_digits hk (by simp) hf

/-! ## Seventeen digits -/

/-- A float is its integral significand in units of its last bit. -/
theorem exists_significand (hx : 0 < x) (hfloat : round x = x) :
    ∃ s : ℤ, x = s * 2 ^ quantum x ∧ 0 < s ∧ s < 2 ^ 53 ∧
      (-1074 < quantum x → 2 ^ 52 * 2 ^ quantum x ≤ x) := by
  have hpos := two_zpow_pos (quantum x)
  have hlt : x < 2 ^ (Int.log 2 x + 1) := by
    exact_mod_cast Int.lt_zpow_succ_log_self (by norm_num) x
  have hle : (2 : ℚ) ^ Int.log 2 x ≤ x := by
    exact_mod_cast Int.zpow_log_le_self (by norm_num) hx
  have hlog : Int.log 2 x ≤ quantum x + 52 := by
    rw [quantum, abs_of_pos hx]
    omega
  have hbound : x < 2 ^ 53 * 2 ^ quantum x := by
    have hexp : (2 : ℚ) ^ (Int.log 2 x + 1) ≤ 2 ^ ((53 : ℕ) + quantum x) :=
      zpow_le_zpow_right₀ (by norm_num) (by push_cast; omega)
    rw [zpow_add₀ (by norm_num) ((53 : ℕ) : ℤ), zpow_natCast] at hexp
    exact hlt.trans_le hexp
  have hs : x = roundHalfEven (x / 2 ^ quantum x) * 2 ^ quantum x := hfloat.symm
  refine ⟨roundHalfEven (x / 2 ^ quantum x), hs, ?_, ?_, ?_⟩
  · exact_mod_cast pos_of_mul_pos_left (hx.trans_eq hs) hpos.le
  · exact_mod_cast lt_of_mul_lt_mul_right (hs.symm.trans_lt hbound) hpos.le
  · intro hquantum
    have hexp : Int.log 2 x = (52 : ℕ) + quantum x := by
      rw [quantum, abs_of_pos hx] at hquantum ⊢
      push_cast
      omega
    rw [hexp, zpow_add₀ (by norm_num), zpow_natCast] at hle
    exact hle

theorem round_eq_of_quantum {c : ℚ} {e m : ℤ} (he : quantum c = e)
    (h : |c - m * 2 ^ e| < 2 ^ e / 2) : round c = m * 2 ^ e := by
  have hpos := two_zpow_pos e
  have hdiv : c / 2 ^ e - m = (c - m * 2 ^ e) / 2 ^ e := by
    rw [sub_div, mul_div_cancel_right₀ _ hpos.ne']
  have hclose : |c / 2 ^ e - m| < 1 / 2 := by
    rw [hdiv, abs_div, abs_of_pos hpos, div_lt_iff₀ hpos]
    linarith
  rw [round, he, roundHalfEven_eq_of_abs_lt hclose]

/-- The last bit of a number of fewer than `2 ^ 53` units has a weight of at most one of them. -/
theorem quantum_le_of_lt {c : ℚ} {q : ℤ} (hc : 0 < c) (hq : -1074 ≤ q) (h : c < 2 ^ 53 * 2 ^ q) :
    quantum c ≤ q := by
  have hlt : c < 2 ^ ((53 : ℕ) + q) := by
    rwa [zpow_add₀ (by norm_num), zpow_natCast]
  have hlog := (Int.lt_zpow_iff_log_lt (b := 2) (by norm_num) hc).mp (by exact_mod_cast hlt)
  rw [quantum, abs_of_pos hc]
  omega

/-- The last bit of a number of at least `2 ^ 52` units has a weight of at least one of them. -/
theorem quantum_eq_of_le {c : ℚ} {q : ℤ} (hc : 0 < c) (h : 2 ^ 52 * 2 ^ q ≤ c)
    (hle : quantum c ≤ q) : quantum c = q := by
  have hexp : (2 : ℚ) ^ ((52 : ℕ) + q) ≤ c := by
    rwa [zpow_add₀ (by norm_num), zpow_natCast]
  have hlog := (Int.zpow_le_iff_le_log (b := 2) (by norm_num) hc).mp (by exact_mod_cast hexp)
  have hge : Int.log 2 c - 52 ≤ quantum c := by
    rw [quantum, abs_of_pos hc]
    omega
  omega

/-- **What is within a relative distance of `10 ^ -16 / 2` of a float reads as it.** -/
theorem round_eq_of_close (hx : 0 < x) (hfloat : round x = x) {c : ℚ}
    (h : |c - x| ≤ x / (2 * 10 ^ 16)) : round c = x := by
  obtain ⟨s, hs, hs0, hs53, hs52⟩ := exists_significand hx hfloat
  have hclose := abs_le.mp h
  have hc : 0 < c := by
    norm_num at hclose
    linarith
  generalize hq : quantum x = q at hs hs52
  have hpos := two_zpow_pos q
  have hsq : (s : ℚ) + 1 ≤ 2 ^ 53 := by exact_mod_cast hs53
  have hs1 : (1 : ℚ) ≤ s := by exact_mod_cast hs0
  have hmin (y : ℚ) : -1074 ≤ quantum y := by
    rw [quantum]
    omega
  -- the unit of `c` is at most that of the float
  have hle : quantum c ≤ q := by
    refine quantum_le_of_lt hc (hq ▸ hmin x) ?_
    have := mul_le_mul_of_nonneg_right hsq hpos.le
    norm_num at hclose this ⊢
    nlinarith
  rcases hle.eq_or_lt with heq | hlt
  · rw [hs]
    refine round_eq_of_quantum heq ?_
    rw [← hs]
    refine h.trans_lt ?_
    have := mul_le_mul_of_nonneg_right hsq hpos.le
    norm_num at this ⊢
    linarith
  · -- the float is a power of two, and `c` below it has a finer unit
    have hx52 : (2 : ℚ) ^ 52 * 2 ^ q ≤ x := hs52 ((hmin c).trans_lt hlt)
    have hhalf : (2 : ℚ) ^ q = 2 * 2 ^ (q - 1) := by
      rw [← zpow_one_add₀ (by norm_num), add_sub_cancel]
    have hc52 : c < 2 ^ 52 * 2 ^ q := by
      by_contra hnot
      rw [not_lt] at hnot
      exact hlt.ne (quantum_eq_of_le hc hnot hlt.le)
    have hunit : quantum c = q - 1 := by
      refine quantum_eq_of_le hc ?_ (Int.le_sub_one_of_lt hlt)
      norm_num at hclose hx52 hhalf ⊢
      linarith
    have hs' : x = (2 * s : ℤ) * 2 ^ (q - 1) := by
      rw [hs, hhalf]
      push_cast
      ring
    rw [hs']
    refine round_eq_of_quantum hunit ?_
    rw [← hs']
    refine h.trans_lt ?_
    norm_num at hclose hc52 ⊢
    linarith

/-- **Seventeen digits suffice for every float.** -/
theorem exists_shortest (hx : 0 < x) (hfloat : round x = x) : ∃ f, shortest x = some f := by
  set k := Int.log 10 |x| - ((17 : ℕ) - 1) with hk
  have hpos := ten_zpow_pos k
  obtain ⟨hlow, hhigh⟩ := mantissa_bounds hx hk
  set y := x / 10 ^ k with hy
  have hxy : x = y * 10 ^ k := (div_mul_cancel₀ x hpos.ne').symm
  have herror := abs_le.mp (abs_roundHalfEven_sub_le y)
  have hround : round (roundHalfEven y * 10 ^ k) = x := by
    apply round_eq_of_close hx hfloat
    have hsub : (roundHalfEven y : ℚ) * 10 ^ k - x = (roundHalfEven y - y) * 10 ^ k := by
      rw [hxy]
      ring
    have hlow' := mul_le_mul_of_nonneg_right hlow hpos.le
    rw [mul_assoc, ← hxy] at hlow'
    rw [hsub, abs_mul, abs_of_pos hpos]
    refine (mul_le_mul_of_nonneg_right (abs_roundHalfEven_sub_le y) hpos.le).trans ?_
    norm_num at hlow' ⊢
    linarith only [hlow']
  have h0 : 0 ≤ roundHalfEven y :=
    Decimal.le_roundHalfEven (by exact_mod_cast (div_pos hx hpos).le)
  have h17 : roundHalfEven y ≤ 10 ^ 17 := Decimal.roundHalfEven_le (by exact_mod_cast hhigh.le)
  obtain ⟨n, hn, f, hf⟩ : ∃ n ∈ List.range' 1 17, ∃ f, digits x n = some f := by
    rcases h17.lt_or_eq with hlt | heq
    · obtain ⟨f, hf⟩ := exists_reads (by rwa [abs_of_nonneg h0]) hround
      exact ⟨17, by simp, exists_digits hk (by simp [hy]) hf⟩
    · -- a power of ten has one digit
      have hk' : k + 16 = Int.log 10 |x| - ((1 : ℕ) - 1) := by
        rw [hk]
        push_cast
        ring
      have hten : (10 : ℚ) ^ (k + 16) = 10 ^ k * 10 ^ 16 := by
        rw [zpow_add₀ (by norm_num)]
        norm_num
      have hdigit : roundHalfEven (x / 10 ^ (k + 16)) = 10 := by
        apply roundHalfEven_eq_of_abs_lt
        have hy' : x / 10 ^ (k + 16) = y / 10 ^ 16 := by rw [hten, ← div_div]
        rw [heq] at herror
        rw [hy', abs_lt]
        norm_num at herror ⊢
        constructor <;> linarith only [herror.1, herror.2]
      have hround' : round ((10 : ℤ) * 10 ^ (k + 16)) = x := by
        rw [← hround, heq, hten]
        congr 1
        push_cast
        ring
      obtain ⟨f, hf⟩ := exists_reads (by norm_num) hround'
      exact ⟨1, by simp, exists_digits hk' (by rw [hdigit]; simp) hf⟩
  obtain ⟨n', f', -, -, -, hshortest⟩ := shortest_of_digits hn hf
  exact ⟨f', hshortest⟩

theorem round_of_multiple {j : ℤ} (h : x = j * 2 ^ quantum x) : round x = x := by
  have hpos := two_zpow_pos (quantum x)
  have hdiv : x / 2 ^ quantum x = j := (div_eq_iff hpos.ne').mpr h
  have hj : roundHalfEven (x / 2 ^ quantum x) = j :=
    roundHalfEven_eq_of_abs_lt (by rw [hdiv, sub_self, abs_zero]; norm_num)
  rw [round, hj]
  exact h.symm

/-- Rounding yields a float. -/
theorem round_round (hx : 0 < round x) : round (round x) = round x := by
  set s := roundHalfEven (x / 2 ^ quantum x) with hs
  have hround : round x = s * 2 ^ quantum x := rfl
  generalize hq : quantum x = q at hround hs
  have hpos := two_zpow_pos q
  have hq' : -1074 ≤ q := by
    rw [← hq, quantum]
    omega
  have hs53 : s ≤ 2 ^ 53 := by
    apply Decimal.roundHalfEven_le
    rw [hq, div_le_iff₀ hpos]
    have hlt : |x| < 2 ^ (Int.log 2 |x| + 1) := by
      exact_mod_cast Int.lt_zpow_succ_log_self (by norm_num) |x|
    have hexp : (2 : ℚ) ^ (Int.log 2 |x| + 1) ≤ 2 ^ ((53 : ℕ) + q) := by
      refine zpow_le_zpow_right₀ (by norm_num) ?_
      rw [← hq, quantum]
      omega
    have hpower : (2 : ℚ) ^ ((53 : ℕ) + q) = 2 ^ 53 * 2 ^ q := by
      rw [zpow_add₀ (by norm_num), zpow_natCast]
    push_cast
    exact (le_abs_self x).trans (hlt.le.trans (hexp.trans_eq hpower))
  rw [hround] at hx ⊢
  rcases hs53.lt_or_eq with hlt | heq
  · have hsize : (s : ℚ) * 2 ^ q < 2 ^ ((53 : ℕ) + q) := by
      rw [zpow_add₀ (by norm_num), zpow_natCast]
      exact mul_lt_mul_of_pos_right (by exact_mod_cast hlt) hpos
    have hlog := (Int.lt_zpow_iff_log_lt (b := 2) (by norm_num) hx).mp (by exact_mod_cast hsize)
    have hle : quantum (s * 2 ^ q) ≤ q := by
      rw [quantum, abs_of_pos hx]
      omega
    obtain ⟨j, hj⟩ := exists_eq_mul_zpow (b := 2) (by norm_num) (m := s) hle
    exact round_of_multiple (j := j) (by exact_mod_cast hj)
  · -- the significand was rounded up to the next power of two
    have hpower : (s : ℚ) * 2 ^ q = 2 ^ ((53 : ℕ) + q) := by
      rw [zpow_add₀ (by norm_num), zpow_natCast, heq]
      push_cast
      rfl
    have hlog : Int.log 2 ((s : ℚ) * 2 ^ q) = 53 + q := by
      rw [hpower]
      exact_mod_cast Int.log_zpow (R := ℚ) (b := 2) (by norm_num) (53 + q)
    have hunit : quantum (s * 2 ^ q) = q + 1 := by
      rw [quantum, abs_of_pos hx, hlog]
      omega
    refine round_of_multiple (j := 2 ^ 52) ?_
    rw [hunit, hpower, zpow_add₀ (by norm_num), zpow_add_one₀ (by norm_num), zpow_natCast]
    push_cast
    ring

/-! ## What is printed of a number that was read -/

/-- A number of middle size, whose float is neither subnormal nor infinite. -/
structure IsNormal (d : ℚ) : Prop where
  low : 4 * minNormal ≤ |d|
  high : |d| < 2 ^ 1023

theorem ten_pow_le : (10 : ℚ) ^ 100 ≤ 2 ^ 1000 := by
  have h : (10 : ℚ) ^ 100 ≤ (2 ^ 10) ^ 100 := by
    gcongr
    norm_num
  rwa [← pow_mul] at h

theorem minNormal_le : 4 * minNormal ≤ 1 / 10 ^ 100 := by
  have hfour : 4 * minNormal = 1 / 2 ^ 1020 := by
    rw [minNormal, zpow_neg, show (1022 : ℤ) = ((1020 + 2 : ℕ) : ℤ) from rfl, zpow_natCast,
      pow_add, one_div, mul_inv, mul_comm, mul_assoc]
    norm_num
  rw [hfour]
  apply one_div_le_one_div_of_le (by positivity)
  exact ten_pow_le.trans (pow_le_pow_right₀ (by norm_num) (by norm_num))

/-- Numbers of at most a hundred digits before and behind the point are of middle size. -/
theorem IsNormal.of_digits (hlow : 1 / 10 ^ 100 ≤ |d|) (hhigh : |d| ≤ 10 ^ 100) : IsNormal d where
  low := minNormal_le.trans hlow
  high := by
    refine (hhigh.trans ten_pow_le).trans_lt ?_
    exact pow_lt_pow_right₀ (by norm_num) (by norm_num)

/-- A number of middle size is rounded to a float of middle size. -/
theorem IsNormal.round_bounds (h : IsNormal d) :
    0 < round |d| ∧ 2 * minNormal ≤ round |d| ∧ ¬ (2 : ℚ) ^ 1024 ≤ round |d| := by
  obtain ⟨hlow, hhigh⟩ := h
  have hpos := minNormal_pos
  have herror := abs_le.mp (abs_round_sub_le (show minNormal ≤ |d| by linarith))
  have hbounds : |d| / 2 ≤ round |d| ∧ round |d| < 2 * |d| := by
    norm_num at herror
    constructor <;> linarith
  refine ⟨by linarith, by linarith, ?_⟩
  rw [pow_succ']
  generalize (2 : ℚ) ^ 1023 = bound at hhigh
  linarith

/-- What is printed of a number is what is printed of its absolute value, with the sign. -/
theorem exists_value?_of_shortest (h : IsNormal d) (hf : shortest (round |d|) = some f) {v : ℚ}
    (hv : f.value? = some v) : ∃ v', (ofRat d).value? = some v' ∧ |v' - d| = |v - (|d|)| := by
  obtain ⟨-, -, hfinite⟩ := h.round_bounds
  simp only [ofRat, if_neg hfinite, hf, Option.getD_some]
  split_ifs with hneg
  · refine ⟨-v, by rw [PyFloat.value?_neg, hv, Option.map_some], ?_⟩
    rw [abs_of_neg hneg, ← abs_neg (v - -d)]
    congr 1
    ring
  · exact ⟨v, hv, by rw [abs_of_nonneg (not_lt.mp hneg)]⟩

/-- **Fifteen digits survive**: a decimal that is read as a float is printed as it was. -/
theorem value?_ofRat_of_digits (hd : HasDigits 15 d) (h : IsNormal d) :
    (ofRat d).value? = some d := by
  have hd' : HasDigits 15 |d| := by
    obtain ⟨m, k, hm, rfl⟩ := hd
    refine ⟨|m|, k, by rwa [abs_abs], ?_⟩
    rw [abs_mul, abs_of_pos (ten_zpow_pos k), Int.cast_abs]
  have hnormal : minNormal ≤ |d| := by linarith [minNormal_pos, h.low]
  obtain ⟨hx0, hxlow, -⟩ := h.round_bounds
  obtain ⟨f, hf⟩ := exists_digits_fifteen hd' hnormal rfl
  obtain ⟨n, f', hn, hle, hdigits, hshortest⟩ := shortest_of_digits (by simp) hf
  obtain ⟨m, k, hm, rfl, hround, hmk⟩ := digits_eq_some hx0 hn hdigits
  have hmk' : HasDigits 15 (m * 10 ^ k) := by
    obtain ⟨m', k', hm', heq⟩ := hmk
    exact ⟨m', k', hm'.trans_le (pow_le_pow_right₀ (by norm_num) hle), heq⟩
  have hvalue := eq_of_round_eq hmk' hd' (le_of_le_round (hround ▸ hxlow)) hnormal hround
  obtain ⟨v, hv, hclose⟩ := exists_value?_of_shortest h hshortest rfl
  rw [hvalue, sub_self, abs_zero, abs_eq_zero, sub_eq_zero] at hclose
  rw [hv, hclose]

theorem value?_ofRat_zero : (ofRat 0).value? = some 0 := by
  decide +kernel

/-- **A number of cents survives.** -/
theorem value?_ofRat_cents {k : ℤ} (hk : |k| < 10 ^ 15) :
    (ofRat (k / 10 ^ 2)).value? = some (k / 10 ^ 2 : ℚ) := by
  by_cases hzero : k = 0
  · rw [hzero, Int.cast_zero, zero_div]
    exact value?_ofRat_zero
  · have hone : (1 : ℚ) ≤ |(k : ℚ)| := by exact_mod_cast Int.one_le_abs hzero
    have hlt : |(k : ℚ)| < 10 ^ 15 := by exact_mod_cast hk
    have habs : |(k / 10 ^ 2 : ℚ)| = |(k : ℚ)| / 10 ^ 2 := by
      rw [abs_div, abs_of_pos (show (0 : ℚ) < 10 ^ 2 by norm_num)]
    have hdigits : HasDigits 15 (k / 10 ^ 2) :=
      ⟨k, -2, hk, by rw [zpow_neg, div_eq_mul_inv]; rfl⟩
    refine value?_ofRat_of_digits hdigits (.of_digits ?_ ?_)
    · rw [habs]
      refine le_trans ?_ (div_le_div_of_nonneg_right hone (by norm_num))
      norm_num
    · rw [habs]
      refine (div_le_div_of_nonneg_right hlt.le (by norm_num)).trans ?_
      norm_num

/-- **What is printed is close to what was read**, whatever its digits. -/
theorem exists_value?_ofRat (h : IsNormal d) :
    ∃ v, (ofRat d).value? = some v ∧ |v - d| ≤ |d| / 2 ^ 51 := by
  have hnormal : minNormal ≤ |d| := by linarith [minNormal_pos, h.low]
  obtain ⟨hx0, hxlow, -⟩ := h.round_bounds
  obtain ⟨f, hshortest⟩ := exists_shortest hx0 (round_round hx0)
  obtain ⟨n, hn, hdigits⟩ := List.exists_of_findSome?_eq_some hshortest
  obtain ⟨m, k, hm, rfl, hround, -⟩ := digits_eq_some hx0 (List.mem_range'_1.mp hn).1 hdigits
  obtain ⟨v, hv, hclose⟩ := exists_value?_of_shortest h hshortest rfl
  refine ⟨v, hv, ?_⟩
  have herror := abs_le.mp (abs_round_sub_le hnormal)
  have herror' := abs_le.mp (abs_round_sub_le (le_of_le_round (hround ▸ hxlow)))
  rw [hround] at herror'
  rw [hclose, abs_le]
  norm_num at herror herror' ⊢
  constructor <;> linarith

end Binary64

end Foundations
