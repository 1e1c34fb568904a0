import Mathlib.Algebra.Order.Group.MinMax
import Gateway.Foundations.Binary64
import Gateway.Merchant.Fees

/-!
# Volumes and fees in floats

The volume of a cycle and the fees paid in it are columns of whole cents, but the program computes
with them in floats: a confirmation adds `float(amount)` to `float(monthly_volume_usd)`, the sum
stays in the session until it is flushed, and `fee_owed_usd` multiplies by a rate that no float
equals. Elsewhere in this development the counters are exact, and here they are compared with what
the program computes. Over all confirmations of a session, rollovers included, the column that is
flushed holds the exact volume, if that is in whole cents, and is less than a cent off otherwise;
and the fee that is reported of it is a number of cents, less than one off the exact fee
(`float_counters`).
-/

namespace Gateway

open Foundations

/-! ## The program's arithmetic -/

namespace Merchant

/-- The volume with a confirmed amount, added in floats. -/
def bookVolumeFloat (clock : Timestamp) (amount : ℚ) (merchant : Merchant) : Merchant :=
  if merchant.billingMode = .volume then
    let merchant := merchant.ensureBillingCycleCurrent clock
    { merchant with
      monthlyVolumeUsd :=
        Binary64.round (Binary64.round merchant.monthlyVolumeUsd + Binary64.round amount) }
  else merchant

end Merchant

/-- The confirmation of an order, with the volume in floats. -/
def confirmOnFloat (payment : Payment) (clock : Timestamp) (m : Merchant) : Merchant :=
  (m.claimPayment payment).bookVolumeFloat clock payment.amount

/-- `round(x, 2)`, as it is printed. -/
def roundCents (x : ℚ) : PyFloat :=
  Binary64.ofRat (Decimal.roundHalfEven (x * 10 ^ 2) / 10 ^ 2)

/-- `fee_owed_usd`. -/
def feeOwedUsdFloat (m : Merchant) : PyFloat :=
  if m.billingMode ≠ .volume then Binary64.ofRat 0
  else
    let fee := Binary64.round (Binary64.round m.monthlyVolumeUsd * Binary64.round volumeFeeRate)
    let owed := Binary64.round (fee - Binary64.round m.volumeFeePaidUsd)
    roundCents (max 0 owed)

/-- The confirmations of a session, one after the other. -/
def confirmAll (confirm : Payment → Timestamp → Merchant → Merchant)
    (confirmed : List (Payment × Timestamp)) (m : Merchant) : Merchant :=
  confirmed.foldl (fun m x => confirm x.1 x.2 m) m

/-! ## The volume -/

/-- Two copies of a merchant that differ in their volumes, by `e` at most. -/
structure VolumeNear (e : ℚ) (m m' : Merchant) : Prop where
  same : m' = { m with monthlyVolumeUsd := m'.monthlyVolumeUsd }
  near : |m'.monthlyVolumeUsd - m.monthlyVolumeUsd| ≤ e

namespace VolumeNear

variable {e B : ℚ} {m m' : Merchant}

theorem refl (m : Merchant) : VolumeNear 0 m m := ⟨rfl, by simp⟩

theorem mode (h : VolumeNear e m m') : m'.billingMode = m.billingMode := by rw [h.same]

theorem claimPayment (h : VolumeNear e m m') (payment : Payment) :
    VolumeNear e (m.claimPayment payment) (m'.claimPayment payment) := by
  obtain ⟨hsame, hnear⟩ := h
  generalize m'.monthlyVolumeUsd = x at hsame hnear
  subst hsame
  cases payment with
  | evm found => exact ⟨rfl, hnear⟩
  | solana found =>
    simp only [Merchant.claimPayment]
    cases found.asset <;> exact ⟨rfl, hnear⟩

/-- A rollover clears both volumes, or none of them. -/
theorem ensureBillingCycleCurrent (h : VolumeNear e m m') (clock : Timestamp) :
    VolumeNear e (m.ensureBillingCycleCurrent clock) (m'.ensureBillingCycleCurrent clock) := by
  obtain ⟨hsame, hnear⟩ := h
  have he : 0 ≤ e := (abs_nonneg _).trans hnear
  generalize m'.monthlyVolumeUsd = x at hsame hnear
  subst hsame
  have hover : Merchant.cycleOver clock { m with monthlyVolumeUsd := x } = m.cycleOver clock := rfl
  have hroll : VolumeNear e (m.rollOver clock)
      (Merchant.rollOver clock { m with monthlyVolumeUsd := x }) := by
    unfold Merchant.rollOver
    rw [hover]
    split_ifs
    · exact ⟨rfl, by simpa [Merchant.startCycle] using he⟩
    · exact ⟨rfl, hnear⟩
  obtain ⟨hsame, hnear⟩ := hroll
  unfold Merchant.ensureBillingCycleCurrent
  generalize Merchant.rollOver clock { m with monthlyVolumeUsd := x } = m₂ at hsame hnear
  generalize m.rollOver clock = m₁ at hsame hnear
  generalize m₂.monthlyVolumeUsd = x₂ at hsame hnear
  subst hsame
  have hlapsed : Merchant.planLapsed clock { m₁ with monthlyVolumeUsd := x₂ } =
      m₁.planLapsed clock := rfl
  unfold Merchant.lapsePlan
  rw [hlapsed]
  split_ifs <;> exact ⟨rfl, hnear⟩

/-- **The error of an addition**: three roundings of numbers of this size. -/
theorem abs_addFloat_sub_le {x v a : ℚ} (hB : 1 ≤ B) (hv : 0 ≤ v) (ha : 0 ≤ a) (hsum : v + a ≤ B)
    (he : e ≤ B) (hx : |x - v| ≤ e) :
    |Binary64.round (Binary64.round x + Binary64.round a) - (v + a)| ≤ e + B / 2 ^ 50 := by
  have hx' := abs_le.mp hx
  have htiny : 4 * Binary64.minNormal ≤ B / 2 ^ 53 := by
    refine Binary64.minNormal_le.trans (le_trans ?_ (div_le_div_of_nonneg_right hB (by norm_num)))
    norm_num
  have hround_x := abs_le.mp (Binary64.abs_round_sub_le_of_le (x := x) (B := 2 * B)
    (abs_le.mpr ⟨by linarith, by linarith⟩))
  have hround_a := abs_le.mp (Binary64.abs_round_sub_le_of_le (x := a) (B := B)
    (abs_le.mpr ⟨by linarith, by linarith⟩))
  have hpos := Binary64.minNormal_pos
  norm_num at htiny hround_x hround_a ⊢
  have hround := abs_le.mp (Binary64.abs_round_sub_le_of_le
    (x := Binary64.round x + Binary64.round a) (B := 4 * B)
    (abs_le.mpr ⟨by linarith, by linarith⟩))
  norm_num at hround
  rw [abs_le]
  constructor <;> linarith

/-- A confirmation makes the error larger by the one of its addition. -/
theorem confirm (h : VolumeNear e m m') (hB : 1 ≤ B) (hv : 0 ≤ m.monthlyVolumeUsd)
    {payment : Payment} (hamount : 0 ≤ payment.amount)
    (hsum : m.monthlyVolumeUsd + payment.amount ≤ B) (he : e ≤ B) (clock : Timestamp) :
    VolumeNear (e + B / 2 ^ 50) (confirmOn payment clock m) (confirmOnFloat payment clock m') := by
  have hclaim := h.claimPayment payment
  have hensure := hclaim.ensureBillingCycleCurrent clock
  obtain ⟨hvolume, -⟩ := claimPayment_fees payment m
  unfold confirmOn confirmOnFloat Merchant.bookVolume Merchant.bookVolumeFloat
  rw [hclaim.mode]
  split_ifs with hmode
  · have hbounds : 0 ≤ ((m.claimPayment payment).ensureBillingCycleCurrent clock).monthlyVolumeUsd ∧
        ((m.claimPayment payment).ensureBillingCycleCurrent clock).monthlyVolumeUsd +
          payment.amount ≤ B := by
      rcases ensureBillingCycleCurrent_cases clock (m.claimPayment payment) with
        ⟨-, -, hkept, -⟩ | ⟨-, hcleared, -⟩
      · rw [hkept, hvolume]
        exact ⟨hv, hsum⟩
      · rw [hcleared]
        exact ⟨le_rfl, by linarith⟩
    have hadd := abs_addFloat_sub_le hB hbounds.1 hamount hbounds.2 he hensure.near
    refine ⟨?_, hadd⟩
    have hsame := hensure.same
    generalize (m'.claimPayment payment).ensureBillingCycleCurrent clock = m₂ at hsame ⊢
    rw [hsame]
  · refine ⟨hclaim.same, hclaim.near.trans ?_⟩
    have : 0 ≤ B / 2 ^ 50 := by positivity
    linarith

/-- The exact volume grows by the amount at most. -/
theorem volume_confirmOn {payment : Payment} (hv : 0 ≤ m.monthlyVolumeUsd)
    (hamount : 0 ≤ payment.amount) (clock : Timestamp) :
    0 ≤ (confirmOn payment clock m).monthlyVolumeUsd ∧
      (confirmOn payment clock m).monthlyVolumeUsd ≤ m.monthlyVolumeUsd + payment.amount := by
  by_cases hmode : m.billingMode = .volume
  · have haccrues : Accrues clock payment.amount m (confirmOn payment clock m) :=
      accrues_confirmOn hmode
    rcases haccrues with ⟨-, hvolume, -⟩ | ⟨-, hvolume, -⟩
    · rw [hvolume]
      exact ⟨by linarith, le_rfl⟩
    · rw [hvolume]
      exact ⟨hamount, by linarith⟩
  · have hclaim := sameCycle_claimPayment payment m
    have hmode' : (m.claimPayment payment).billingMode ≠ .volume := by rwa [hclaim.mode]
    obtain ⟨hvolume, -⟩ := claimPayment_fees payment m
    rw [confirmOn, Merchant.bookVolume, if_neg hmode', hvolume]
    exact ⟨hv, by linarith⟩

/-- **The confirmations of a session** leave the volume with as many errors of an addition. -/
theorem confirmAll {confirmed : List (Payment × Timestamp)} (h : VolumeNear e m m') (hB : 1 ≤ B)
    (hv : 0 ≤ m.monthlyVolumeUsd) (hamounts : ∀ x ∈ confirmed, 0 ≤ x.1.amount)
    (hsum : m.monthlyVolumeUsd + (confirmed.map fun x => x.1.amount).sum ≤ B)
    (he : e + confirmed.length * (B / 2 ^ 50) ≤ B) :
    VolumeNear (e + confirmed.length * (B / 2 ^ 50)) (Gateway.confirmAll confirmOn confirmed m)
        (Gateway.confirmAll confirmOnFloat confirmed m') ∧
      0 ≤ (Gateway.confirmAll confirmOn confirmed m).monthlyVolumeUsd ∧
      (Gateway.confirmAll confirmOn confirmed m).monthlyVolumeUsd ≤ B := by
  induction confirmed generalizing e m m' with
  | nil =>
    simp only [List.map_nil, List.sum_nil, add_zero] at hsum
    simpa using ⟨h, hv, hsum⟩
  | cons x confirmed ih =>
    obtain ⟨payment, clock⟩ := x
    simp only [List.forall_mem_cons, List.map_cons, List.sum_cons, List.length_cons,
      Nat.cast_succ] at hamounts hsum he ⊢
    have hrest : 0 ≤ (confirmed.map fun x => x.1.amount).sum :=
      List.sum_nonneg fun q hq => by
        obtain ⟨x, hx, rfl⟩ := List.mem_map.mp hq
        exact hamounts.2 x hx
    have hunit : 0 ≤ B / 2 ^ 50 := by positivity
    have hunits : 0 ≤ confirmed.length * (B / 2 ^ 50) := by positivity
    have hnext := h.confirm hB hv hamounts.1 (by linarith) (by linarith) clock
    obtain ⟨hv', hle⟩ := volume_confirmOn hv hamounts.1 clock
    have hall := ih hnext hv' hamounts.2 (by linarith) (by linarith)
    rw [add_assoc, ← one_add_mul, add_comm (1 : ℚ)] at hall
    exact hall

end VolumeNear

/-! ## The fee -/

section Fee

variable {v q : ℚ}

/-- **The error of the fee**, before it is rounded to cents. -/
theorem abs_owedFloat_sub_le (hv : -1 ≤ v) (hv' : v ≤ 3 * 10 ^ 12) (hq : 0 ≤ q)
    (hq' : q ≤ 10 ^ 12) :
    |Binary64.round (Binary64.round (Binary64.round v * Binary64.round volumeFeeRate) -
        Binary64.round q) - (v * volumeFeeRate - q)| ≤ 1 / 1000 := by
  have htiny : 4 * Binary64.minNormal ≤ 1 / 10 ^ 30 := by
    refine Binary64.minNormal_le.trans ?_
    norm_num
  have hpos := Binary64.minNormal_pos
  have hround_v := abs_le.mp (Binary64.abs_round_sub_le_of_le (x := v) (B := 3 * 10 ^ 12)
    (abs_le.mpr ⟨by linarith, hv'⟩))
  have hround_q := abs_le.mp (Binary64.abs_round_sub_le_of_le (x := q) (B := 10 ^ 12)
    (abs_le.mpr ⟨by linarith, hq'⟩))
  have hround_rate := Binary64.abs_round_sub_le_of_le (x := volumeFeeRate) (B := 3 / 1000)
    (by rw [volumeFeeRate, abs_of_pos (by norm_num)])
  generalize Binary64.round volumeFeeRate = rate at hround_rate ⊢
  generalize Binary64.round v = v₁ at hround_v ⊢
  generalize Binary64.round q = q₁ at hround_q ⊢
  norm_num at htiny hround_v hround_q hround_rate ⊢
  -- the product
  have hproduct : |v₁ * rate - v * volumeFeeRate| ≤ 1 / 10 ^ 5 := by
    have hsplit : v₁ * rate - v * volumeFeeRate =
        v₁ * (rate - volumeFeeRate) + volumeFeeRate * (v₁ - v) := by ring
    have hv₁ : |v₁| ≤ 4 * 10 ^ 12 := abs_le.mpr ⟨by linarith, by linarith⟩
    have hdiff : |v₁ - v| ≤ 1 / 10 ^ 3 := abs_le.mpr ⟨by linarith, by linarith⟩
    have hrate : |rate - volumeFeeRate| ≤ 1 / 10 ^ 18 := by
      refine hround_rate.trans ?_
      norm_num at htiny ⊢
      linarith
    have hfirst := mul_le_mul hv₁ hrate (abs_nonneg _) (by norm_num)
    have hsecond : |volumeFeeRate| * |v₁ - v| ≤ 3 / 1000 * (1 / 10 ^ 3) :=
      mul_le_mul (by rw [volumeFeeRate, abs_of_pos (by norm_num)]) hdiff (abs_nonneg _)
        (by norm_num)
    rw [hsplit]
    refine (abs_add_le _ _).trans ?_
    rw [abs_mul, abs_mul]
    refine (add_le_add hfirst hsecond).trans ?_
    norm_num
  have hexact : -1 ≤ v * volumeFeeRate ∧ v * volumeFeeRate ≤ 9 * 10 ^ 9 := by
    rw [volumeFeeRate]
    constructor <;> linarith
  have hproduct' := abs_le.mp hproduct
  have hround_fee := abs_le.mp (Binary64.abs_round_sub_le_of_le (x := v₁ * rate) (B := 10 ^ 10)
    (abs_le.mpr ⟨by linarith, by linarith⟩))
  generalize Binary64.round (v₁ * rate) = fee at hround_fee ⊢
  generalize v₁ * rate = product at hproduct' hround_fee
  norm_num at hround_fee hproduct'
  have hround_owed := abs_le.mp (Binary64.abs_round_sub_le_of_le (x := fee - q₁) (B := 2 * 10 ^ 12)
    (abs_le.mpr ⟨by linarith, by linarith⟩))
  norm_num at hround_owed
  rw [abs_le]
  constructor <;> linarith

/-- **The fee is reported in cents**, less than one off the exact fee. -/
theorem exists_feeOwedUsdFloat {m : Merchant} (hv : -1 ≤ m.monthlyVolumeUsd)
    (hv' : m.monthlyVolumeUsd ≤ 3 * 10 ^ 12) (hq : 0 ≤ m.volumeFeePaidUsd)
    (hq' : m.volumeFeePaidUsd ≤ 10 ^ 12) :
    ∃ k : ℤ, (feeOwedUsdFloat m).value? = some (k / 10 ^ 2 : ℚ) ∧
      |(k / 10 ^ 2 : ℚ) - feeOwedUsd m| ≤ 6 / 1000 := by
  unfold feeOwedUsdFloat feeOwedUsd
  split_ifs with hmode
  · exact ⟨0, by simpa using Binary64.value?_ofRat_zero, by norm_num⟩
  · have howed := abs_owedFloat_sub_le hv hv' hq hq'
    dsimp only
    generalize Binary64.round (Binary64.round (Binary64.round m.monthlyVolumeUsd *
      Binary64.round volumeFeeRate) - Binary64.round m.volumeFeePaidUsd) = owed at howed ⊢
    have hlow : m.monthlyVolumeUsd * volumeFeeRate - m.volumeFeePaidUsd ≤ 10 ^ 10 := by
      rw [volumeFeeRate]
      linarith
    generalize m.monthlyVolumeUsd * volumeFeeRate - m.volumeFeePaidUsd = ideal at howed hlow ⊢
    have hmax : |max 0 owed - max 0 ideal| ≤ 1 / 1000 := by
      rw [max_comm 0 owed, max_comm 0 ideal]
      exact (abs_max_sub_max_le_abs owed ideal 0).trans howed
    have hbound : 0 ≤ max 0 owed ∧ max 0 owed ≤ 10 ^ 11 := by
      refine ⟨le_max_left _ _, max_le (by norm_num) ?_⟩
      linarith [(abs_le.mp howed).2]
    generalize max 0 owed = fee at hmax hbound ⊢
    have hcents := abs_le.mp (abs_roundHalfEven_sub_le (fee * 10 ^ 2))
    have hmax' := abs_le.mp hmax
    rw [roundCents]
    generalize Decimal.roundHalfEven (fee * 10 ^ 2) = k at hcents ⊢
    have hlt : |k| < 10 ^ 15 := by
      have hcast : |(k : ℚ)| < 10 ^ 15 := abs_lt.mpr ⟨by linarith, by linarith⟩
      exact_mod_cast hcast
    refine ⟨k, Binary64.value?_ofRat_cents hlt, ?_⟩
    rw [abs_le]
    constructor <;> linarith

/-- The exact fee of a volume that is off. -/
theorem abs_feeOwedUsd_sub_le {m : Merchant} {e : ℚ} (h : |v - m.monthlyVolumeUsd| ≤ e) :
    |feeOwedUsd { m with monthlyVolumeUsd := v } - feeOwedUsd m| ≤ e * volumeFeeRate := by
  have hrate : 0 < volumeFeeRate := by norm_num [volumeFeeRate]
  unfold feeOwedUsd
  split_ifs
  · rw [sub_self, abs_zero]
    exact mul_nonneg ((abs_nonneg _).trans h) hrate.le
  · rw [max_comm 0, max_comm 0]
    refine (abs_max_sub_max_le_abs _ _ 0).trans ?_
    rw [sub_sub_sub_cancel_right, ← sub_mul, abs_mul, abs_of_pos hrate]
    exact mul_le_mul_of_nonneg_right h hrate.le

end Fee

/-! ## The counters after a session -/

/-- A driver that writes a float as a number next to it: as the float itself, or as its text. -/
def WritesFloats (bind : ℚ → ℚ) : Prop := ∀ x, |bind x - x| ≤ |x| / 2 ^ 52 + Binary64.minNormal

/-- The merchant as its volume is flushed. -/
def flushVolume (bind : ℚ → ℚ) (m : Merchant) : Merchant :=
  { m with monthlyVolumeUsd := storeNumeric 2 (bind m.monthlyVolumeUsd) }

theorem paid_confirmOn (payment : Payment) (clock : Timestamp) (m : Merchant) :
    (confirmOn payment clock m).volumeFeePaidUsd = m.volumeFeePaidUsd ∨
      (confirmOn payment clock m).volumeFeePaidUsd = 0 := by
  by_cases hmode : m.billingMode = .volume
  · have haccrues : Accrues clock payment.amount m (confirmOn payment clock m) :=
      accrues_confirmOn hmode
    rcases haccrues with ⟨-, -, hpaid⟩ | ⟨-, -, hpaid⟩
    · exact .inl hpaid
    · exact .inr hpaid
  · have hmode' : (m.claimPayment payment).billingMode ≠ .volume := by
      rwa [(sameCycle_claimPayment payment m).mode]
    rw [confirmOn, Merchant.bookVolume, if_neg hmode']
    exact .inl (claimPayment_fees payment m).2

theorem paid_confirmAll (confirmed : List (Payment × Timestamp)) (m : Merchant) :
    (confirmAll confirmOn confirmed m).volumeFeePaidUsd = m.volumeFeePaidUsd ∨
      (confirmAll confirmOn confirmed m).volumeFeePaidUsd = 0 := by
  induction confirmed generalizing m with
  | nil => exact .inl rfl
  | cons x confirmed ih =>
    rcases ih (confirmOn x.1 x.2 m) with hsame | hzero
    · rcases paid_confirmOn x.1 x.2 m with hpaid | hpaid
      · exact .inl (hsame.trans hpaid)
      · exact .inr (hsame.trans hpaid)
    · exact .inr hzero

theorem VolumeNear.flush_same {e : ℚ} {m m' : Merchant} (h : VolumeNear e m m') (bind : ℚ → ℚ) :
    flushVolume bind m' =
      { m with monthlyVolumeUsd := (flushVolume bind m').monthlyVolumeUsd } := by
  obtain ⟨hsame, -⟩ := h
  generalize m'.monthlyVolumeUsd = x at hsame
  subst hsame
  rfl

/-- **The flushed volume** is next to the exact one, and the exact one if that is in whole cents. -/
theorem VolumeNear.flush {bind : ℚ → ℚ} (hbind : WritesFloats bind) {e B : ℚ} {m m' : Merchant}
    (h : VolumeNear e m m') (hB : 1 ≤ B) (hv : 0 ≤ m.monthlyVolumeUsd)
    (hv' : m.monthlyVolumeUsd ≤ B)
    (he : e + B / 2 ^ 50 ≤ 1 / 2 ^ 9) :
    |(flushVolume bind m').monthlyVolumeUsd - m.monthlyVolumeUsd| ≤ 7 / 1000 ∧
      (Scaled 2 m.monthlyVolumeUsd → flushVolume bind m' = m) := by
  obtain ⟨hsame, hnear⟩ := h
  have hnear' := abs_le.mp hnear
  have hsize : |m'.monthlyVolumeUsd| ≤ 2 * B := by
    have hunit : 0 ≤ B / 2 ^ 50 := by positivity
    rw [abs_le]
    norm_num at he
    constructor <;> linarith
  have htiny : 4 * Binary64.minNormal ≤ B / 2 ^ 53 := by
    refine Binary64.minNormal_le.trans (le_trans ?_ (div_le_div_of_nonneg_right hB (by norm_num)))
    norm_num
  have hpos := Binary64.minNormal_pos
  have hwrite := abs_le.mp (hbind m'.monthlyVolumeUsd)
  have hclose : |bind m'.monthlyVolumeUsd - m.monthlyVolumeUsd| ≤ 1 / 2 ^ 9 := by
    have hdiv : |m'.monthlyVolumeUsd| / 2 ^ 52 ≤ 2 * B / 2 ^ 52 :=
      div_le_div_of_nonneg_right hsize (by norm_num)
    norm_num at he htiny hwrite hdiv ⊢
    rw [abs_le]
    constructor <;> linarith
  constructor
  · have hstore := abs_le.mp (abs_storeNumeric_sub_le 2 (bind m'.monthlyVolumeUsd))
    have hclose' := abs_le.mp hclose
    show |storeNumeric 2 (bind m'.monthlyVolumeUsd) - m.monthlyVolumeUsd| ≤ 7 / 1000
    norm_num at hstore hclose'
    rw [abs_le]
    constructor <;> linarith
  · intro hscaled
    have hstored := storeNumeric_of_close hscaled (hclose.trans_lt (by norm_num))
    rw [flushVolume, hstored, hsame]

/-- **Floats count to the cent.** Whatever a session confirms for a merchant, rollovers included, as
long as the volume times the number of confirmations stays below `2 ^ 41` dollars: the row that is
flushed is the one of exact arithmetic, up to a volume that is off by less than a cent when the
exact one is not in whole cents; and the fee that is reported of it is a number of cents, less than
one off the exact fee. -/
theorem float_counters {bind : ℚ → ℚ} (hbind : WritesFloats bind) {m : Merchant} {B : ℚ}
    {confirmed : List (Payment × Timestamp)} (hB : 1 ≤ B) (hv : 0 ≤ m.monthlyVolumeUsd)
    (hamounts : ∀ x ∈ confirmed, 0 ≤ x.1.amount)
    (hsum : m.monthlyVolumeUsd + (confirmed.map fun x => x.1.amount).sum ≤ B)
    (hsize : (confirmed.length + 1) * B ≤ 2 ^ 41)
    (hpaid : 0 ≤ m.volumeFeePaidUsd) (hpaid' : m.volumeFeePaidUsd ≤ 10 ^ 12) :
    let ideal := confirmAll confirmOn confirmed m
    let flushed := flushVolume bind (confirmAll confirmOnFloat confirmed m)
    (flushed = { ideal with monthlyVolumeUsd := flushed.monthlyVolumeUsd }) ∧
      (Scaled 2 ideal.monthlyVolumeUsd → flushed = ideal) ∧
      |flushed.monthlyVolumeUsd - ideal.monthlyVolumeUsd| ≤ 7 / 1000 ∧
      ∃ k : ℤ, (feeOwedUsdFloat flushed).value? = some (k / 10 ^ 2 : ℚ) ∧
        |(k / 10 ^ 2 : ℚ) - feeOwedUsd ideal| ≤ 7 / 1000 := by
  intro ideal flushed
  have hunit : 0 ≤ B / 2 ^ 50 := by positivity
  have herror : (confirmed.length : ℚ) * (B / 2 ^ 50) + B / 2 ^ 50 ≤ 1 / 2 ^ 9 := by
    have hdiv := div_le_div_of_nonneg_right hsize (show (0 : ℚ) ≤ 2 ^ 50 by norm_num)
    rw [add_mul, one_mul, add_div, mul_div_assoc] at hdiv
    refine hdiv.trans ?_
    norm_num
  have hB' : B ≤ 2 ^ 41 := by
    have hlength : (0 : ℚ) ≤ confirmed.length * B := by positivity
    linarith
  obtain ⟨hnear, hv₁, hv₁'⟩ := (VolumeNear.refl m).confirmAll hB hv hamounts hsum (by linarith)
  rw [zero_add] at hnear
  obtain ⟨hclose, hcents⟩ := hnear.flush hbind hB hv₁ hv₁' herror
  refine ⟨hnear.flush_same bind, hcents, hclose, ?_⟩
  -- the fee on the flushed row, and on the exact one
  have hpaid₁ : 0 ≤ ideal.volumeFeePaidUsd ∧ ideal.volumeFeePaidUsd ≤ 10 ^ 12 := by
    rcases paid_confirmAll confirmed m with hkept | hzero
    · exact ⟨hpaid.trans_eq hkept.symm, hkept.trans_le hpaid'⟩
    · exact ⟨hzero.ge, hzero.trans_le (by norm_num)⟩
  have hsame : flushed = { ideal with monthlyVolumeUsd := flushed.monthlyVolumeUsd } :=
    hnear.flush_same bind
  have hvolume : 0 ≤ ideal.monthlyVolumeUsd ∧ ideal.monthlyVolumeUsd ≤ B := ⟨hv₁, hv₁'⟩
  have hoff : |flushed.monthlyVolumeUsd - ideal.monthlyVolumeUsd| ≤ 7 / 1000 := hclose
  clear_value flushed ideal
  have hoff' := abs_le.mp hoff
  obtain ⟨k, hk, hfee⟩ := exists_feeOwedUsdFloat (m := flushed) (by linarith) (by linarith)
    (by rw [hsame]; exact hpaid₁.1) (by rw [hsame]; exact hpaid₁.2)
  refine ⟨k, hk, ?_⟩
  have hideal := abs_feeOwedUsd_sub_le hoff
  rw [← hsame, volumeFeeRate] at hideal
  have hsplit := abs_sub_le (k / 10 ^ 2 : ℚ) (feeOwedUsd flushed) (feeOwedUsd ideal)
  linarith

/-- Two payments of a cycle, and two of the next, whose floats add up to more than thirty cents. -/
def sampleSession : List (Payment × Timestamp) :=
  [(samplePayment (1999 / 100), 0), (samplePayment (1 / 2), 0),
    (samplePayment (1 / 10), monthlyReset), (samplePayment (1 / 5), monthlyReset)]

/-- They are flushed as thirty cents. -/
theorem float_counters_session :
    (confirmAll confirmOnFloat sampleSession volumeRun.merchant).monthlyVolumeUsd ≠ 3 / 10 ∧
      flushVolume id (confirmAll confirmOnFloat sampleSession volumeRun.merchant) =
        confirmAll confirmOn sampleSession volumeRun.merchant ∧
      (confirmAll confirmOn sampleSession volumeRun.merchant).monthlyVolumeUsd = 3 / 10 := by
  have hbind : WritesFloats id := fun x => by
    rw [id, sub_self, abs_zero]
    exact add_nonneg (by positivity) Binary64.minNormal_pos.le
  have hvolume : (confirmAll confirmOn sampleSession volumeRun.merchant).monthlyVolumeUsd =
      3 / 10 := by
    decide +kernel
  have hamounts : ∀ x ∈ sampleSession, 0 ≤ x.1.amount := by decide +kernel
  obtain ⟨-, hcents, -⟩ := float_counters hbind (show (1 : ℚ) ≤ 100 by norm_num) le_rfl hamounts
    (by decide +kernel) (by norm_num [sampleSession]) le_rfl
    (show volumeRun.merchant.volumeFeePaidUsd ≤ 10 ^ 12 by decide +kernel)
  refine ⟨by decide +kernel, hcents ⟨30, ?_⟩, hvolume⟩
  rw [hvolume]
  norm_num

end Gateway
