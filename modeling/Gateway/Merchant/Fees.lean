import Mathlib.Algebra.Order.BigOperators.Group.List
import Gateway.Merchant.Cycles

/-!
# Owed volume fees

The reported debt of a volume-billed merchant is the difference of two counters of its cycle. A
rollover clears both of them, and with them whatever is still owed. In every run, the fee on all
confirmed amounts is what has been paid, what is reported as owed, and what has been cleared in this
way (`FeesOk`); the debt is conserved exactly when the fee of every cycle was settled before its
rollover (`fees_conserved_iff`).
-/

namespace Gateway

open Foundations

/-! ## What a step does to the counters -/

/-- The merchant is billed by volume, and confirmed amounts are not negative. -/
def VolumeBilled (s : BillingRun) : BillingEvent → Prop
  | .confirm payment _ => s.merchant.billingMode = .volume ∧ 0 ≤ payment.amount
  | _ => s.merchant.billingMode = .volume

theorem VolumeBilled.mode {s : BillingRun} {e : BillingEvent} (h : VolumeBilled s e) :
    s.merchant.billingMode = .volume := by
  cases e with
  | confirm payment clock => exact h.1
  | _ => exact h

/-- The volume grows by an amount, in the same cycle or from zero in the next one. -/
def Accrues (now : Timestamp) (amount : ℚ) (m m' : Merchant) : Prop :=
  (SameCycle m m' ∧ m'.monthlyVolumeUsd = m.monthlyVolumeUsd + amount ∧
      m'.volumeFeePaidUsd = m.volumeFeePaidUsd) ∨
    (NextCycle now m m' ∧ m'.monthlyVolumeUsd = amount ∧ m'.volumeFeePaidUsd = 0)

theorem accrues_self (now : Timestamp) (m : Merchant) : Accrues now 0 m m :=
  .inl ⟨⟨rfl, rfl, rfl, rfl⟩, (add_zero _).symm, rfl⟩

theorem accrues_ensure (now : Timestamp) (m : Merchant) :
    Accrues now 0 m (m.ensureBillingCycleCurrent now) := by
  rcases ensureBillingCycleCurrent_cases now m with ⟨-, hsame, hvolume, hpaid⟩ | h
  · exact .inl ⟨hsame, by rw [hvolume, add_zero], hpaid⟩
  · exact .inr h

theorem claimPayment_fees (payment : Payment) (m : Merchant) :
    (m.claimPayment payment).monthlyVolumeUsd = m.monthlyVolumeUsd ∧
      (m.claimPayment payment).volumeFeePaidUsd = m.volumeFeePaidUsd := by
  cases payment with
  | evm em => exact ⟨rfl, rfl⟩
  | solana sm =>
    rw [Merchant.claimPayment]
    cases sm.asset <;> exact ⟨rfl, rfl⟩

/-- A confirmed amount is added to the volume of the cycle that it is confirmed in. -/
theorem accrues_confirmOn {payment : Payment} {clock : Timestamp} {m : Merchant}
    (hmode : m.billingMode = .volume) :
    Accrues clock payment.amount m (confirmOn payment clock m) := by
  have hclaim := sameCycle_claimPayment payment m
  obtain ⟨hvolume, hpaid⟩ := claimPayment_fees payment m
  have hbook : confirmOn payment clock m =
      { (m.claimPayment payment).ensureBillingCycleCurrent clock with
        monthlyVolumeUsd :=
          ((m.claimPayment payment).ensureBillingCycleCurrent clock).monthlyVolumeUsd +
            payment.amount } := if_pos (hclaim.mode.trans hmode)
  rw [hbook]
  rcases ensureBillingCycleCurrent_cases clock (m.claimPayment payment) with
    ⟨-, hsame, hvolume', hpaid'⟩ | ⟨hnext, hvolume', hpaid'⟩
  · refine .inl ⟨hclaim.trans (hsame.trans ⟨rfl, rfl, rfl, rfl⟩), ?_, hpaid'.trans hpaid⟩
    show _ + _ = _
    rw [hvolume', hvolume]
  · refine .inr ⟨.same (.of_same hclaim hnext) ⟨rfl, rfl, rfl, rfl⟩, ?_, hpaid'⟩
    show _ + _ = _
    rw [hvolume', zero_add]

/-- An amount is confirmed and a fee is paid, in the same cycle or in the next one, whose beginning
clears the counters. -/
def Booked (s s' : BillingRun) (amount fee : ℚ) : Prop :=
  s'.confirmed = s.confirmed + amount ∧ s'.paid = s.paid + fee ∧
    ((s'.lapsed = s.lapsed ∧
        unsettledFee s'.merchant = unsettledFee s.merchant + amount * volumeFeeRate - fee) ∨
      (s'.lapsed = unsettledFee s.merchant :: s.lapsed ∧
        unsettledFee s'.merchant = amount * volumeFeeRate ∧ fee = 0))

/-- Nothing is booked when the counters stay the same. -/
theorem booked_zero {s s' : BillingRun} (hconfirmed : s'.confirmed = s.confirmed)
    (hpaid : s'.paid = s.paid) (hlapsed : s'.lapsed = s.lapsed)
    (hfee : unsettledFee s'.merchant = unsettledFee s.merchant) : Booked s s' 0 0 := by
  refine ⟨?_, ?_, .inl ⟨hlapsed, ?_⟩⟩
  · rw [hconfirmed, add_zero]
  · rw [hpaid, add_zero]
  · rw [hfee, zero_mul, add_zero, sub_zero]

namespace BillingRun

variable {s s' : BillingRun} {m : Merchant} {now : Timestamp}

/-- What is observed of a merchant whose volume grows. -/
theorem booked_of_accrues {amount : ℚ} (hm : Accrues now amount s.merchant m)
    (hconfirmed : s'.confirmed = s.confirmed + amount) (hpaid : s'.paid = s.paid)
    (hlapsed : s'.lapsed = (s.observe m now).lapsed)
    (hvolume : s'.merchant.monthlyVolumeUsd = m.monthlyVolumeUsd)
    (hfee : s'.merchant.volumeFeePaidUsd = m.volumeFeePaidUsd) : Booked s s' amount 0 := by
  refine ⟨hconfirmed, by rw [hpaid, add_zero], ?_⟩
  rcases hm with ⟨hsame, hvolume', hfee'⟩ | ⟨hnext, hvolume', hfee'⟩
  · rw [observe_of_same hsame] at hlapsed
    refine .inl ⟨hlapsed, ?_⟩
    rw [unsettledFee, unsettledFee, hvolume, hvolume', hfee, hfee']
    ring
  · rw [observe_of_next hnext] at hlapsed
    refine .inr ⟨hlapsed, ?_, rfl⟩
    rw [unsettledFee, hvolume, hvolume', hfee, hfee', sub_zero]

theorem observe_totals (s : BillingRun) (m : Merchant) (now : Timestamp) :
    (s.observe m now).confirmed = s.confirmed ∧ (s.observe m now).paid = s.paid := by
  unfold observe
  split_ifs <;> exact ⟨rfl, rfl⟩

/-- **What an event books**: a confirmed amount, or a fee up to what is owed. -/
theorem exists_booked {e : BillingEvent} (hs : s.step deriveEvmAddress e = some s')
    (hok : VolumeBilled s e) : ∃ amount fee, 0 ≤ amount ∧ 0 ≤ fee ∧
      fee ≤ feeOwedUsd s.merchant ∧ (fee = 0 ∨ e = .payFee fee) ∧ Booked s s' amount fee := by
  have howed : 0 ≤ feeOwedUsd s.merchant := by
    unfold feeOwedUsd
    split_ifs
    · exact le_rfl
    · exact le_max_left _ _
  cases e with
  | setBillingMode mode =>
    simp only [step] at hs
    refine ⟨0, 0, le_rfl, le_rfl, howed, .inl rfl, ?_⟩
    split at hs
    · cases hs
      exact booked_zero rfl rfl rfl rfl
    · rename_i m hset
      cases hs
      have hfee : unsettledFee m = unsettledFee s.merchant := by
        unfold setBillingMode at hset
        split at hset
        · cases hset
        · split_ifs at hset <;> cases hset <;> rfl
      exact booked_zero rfl rfl rfl hfee
  | createOrder req keep =>
    refine ⟨0, 0, le_rfl, le_rfl, howed, .inl rfl, ?_⟩
    obtain ⟨-, m, ⟨rfl, -, rfl⟩ | ⟨hm, rfl⟩⟩ := step_createOrder hs
    · obtain ⟨hconfirmed, hpaid⟩ := observe_totals s
        (s.merchant.ensureBillingCycleCurrent req.checkedAt) req.checkedAt
      refine booked_of_accrues (accrues_ensure req.checkedAt s.merchant) ?_ hpaid rfl ?_ ?_
      · rw [add_zero]
        exact hconfirmed
      · simp [countCreated, countOrder]
      · simp [countCreated, countOrder]
    · obtain ⟨hconfirmed, hpaid⟩ := observe_totals s m req.checkedAt
      have haccrues : Accrues req.checkedAt 0 s.merchant m := by
        rcases hm with rfl | rfl
        · exact accrues_ensure _ _
        · exact accrues_self _ _
      exact booked_of_accrues haccrues (by rw [hconfirmed, add_zero]) hpaid rfl
        (by rw [observe_merchant]) (by rw [observe_merchant])
  | confirm payment clock =>
    obtain ⟨hmode, hamount⟩ := hok
    simp only [step] at hs
    split_ifs at hs
    cases hs
    obtain ⟨hconfirmed, hpaid⟩ := observe_totals s (confirmOn payment clock s.merchant) clock
    refine ⟨payment.amount, 0, hamount, le_rfl, howed, .inl rfl, ?_⟩
    refine booked_of_accrues (accrues_confirmOn hmode) ?_ hpaid rfl ?_ ?_
    · simp only [hconfirmed]
    · simp only [observe_merchant]
    · simp only [observe_merchant]
  | payFee amount =>
    simp only [step] at hs
    split_ifs at hs with hpay
    cases hs
    refine ⟨0, amount, le_rfl, hpay.1, hpay.2, .inr rfl, (add_zero _).symm, rfl, .inl ⟨rfl, ?_⟩⟩
    simp only [unsettledFee]
    ring

end BillingRun

/-! ## Conservation -/

/-- The fee on what has been confirmed was paid, is owed in this cycle, or was owed when an earlier
one ended. -/
structure FeesOk (s : BillingRun) : Prop where
  covered : 0 ≤ unsettledFee s.merchant
  balance : s.confirmed * volumeFeeRate - s.paid = unsettledFee s.merchant + s.lapsed.sum
  lapsed_nonneg : ∀ q ∈ s.lapsed, 0 ≤ q

namespace FeesOk

variable {s s' : BillingRun} {e : BillingEvent}

theorem feeOwedUsd_eq (h : FeesOk s) (hmode : s.merchant.billingMode = .volume) :
    feeOwedUsd s.merchant = unsettledFee s.merchant := by
  unfold feeOwedUsd
  rw [if_neg (not_not.mpr hmode)]
  exact max_eq_right h.covered

theorem step (h : FeesOk s) (hs : s.step deriveEvmAddress e = some s') (hok : VolumeBilled s e) :
    FeesOk s' := by
  have howed := h.feeOwedUsd_eq hok.mode
  obtain ⟨amount, fee, hamount, hfee, hle, -, hconfirmed, hpaid, hcounters⟩ :=
    BillingRun.exists_booked hs hok
  have hrate : 0 ≤ amount * volumeFeeRate := mul_nonneg hamount (by norm_num [volumeFeeRate])
  have hbalance := h.balance
  rcases hcounters with ⟨hlapsed, hunsettled⟩ | ⟨hlapsed, hunsettled, hzero⟩
  · constructor
    · rw [hunsettled]
      linarith
    · rw [hconfirmed, hpaid, hunsettled, hlapsed]
      linarith
    · rw [hlapsed]
      exact h.lapsed_nonneg
  · constructor
    · rw [hunsettled]
      exact hrate
    · rw [hconfirmed, hpaid, hunsettled, hlapsed, List.sum_cons, hzero]
      linarith
    · rw [hlapsed]
      intro q hq
      rcases List.mem_cons.mp hq with rfl | hq
      · exact h.covered
      · exact h.lapsed_nonneg q hq

/-- Unless something is owed when a cycle ends, only a payment lowers what is owed. -/
theorem le_of_step (h : FeesOk s) (hs : s.step deriveEvmAddress e = some s')
    (hok : VolumeBilled s e) (hmode : s'.merchant.billingMode = .volume)
    (hpay : ∀ amount, e ≠ .payFee amount) (hlapsed : ∀ q ∈ s'.lapsed, q = 0) :
    feeOwedUsd s.merchant ≤ feeOwedUsd s'.merchant := by
  rw [h.feeOwedUsd_eq hok.mode, (h.step hs hok).feeOwedUsd_eq hmode]
  obtain ⟨amount, fee, hamount, -, -, hfee, -, -, hcounters⟩ := BillingRun.exists_booked hs hok
  have hzero : fee = 0 := hfee.resolve_right (hpay fee)
  have hrate : 0 ≤ amount * volumeFeeRate := mul_nonneg hamount (by norm_num [volumeFeeRate])
  rcases hcounters with ⟨-, hunsettled⟩ | ⟨hl, hunsettled, -⟩
  · linarith
  · have hnothing : unsettledFee s.merchant = 0 :=
      hlapsed _ (by rw [hl]; exact List.mem_cons_self)
    linarith

end FeesOk

/-- Fees that have lapsed stay lapsed. -/
theorem lapsed_suffix {s s' : BillingRun} {es : List BillingEvent}
    (h : Run (BillingRun.step deriveEvmAddress) VolumeBilled s es s') : s.lapsed <:+ s'.lapsed := by
  induction h with
  | nil s => exact List.suffix_rfl
  | cons hok hs _ ih =>
    obtain ⟨amount, fee, -, -, -, -, -, -, hcounters⟩ := BillingRun.exists_booked hs hok
    rcases hcounters with ⟨hlapsed, -⟩ | ⟨hlapsed, -⟩
    · rwa [hlapsed] at ih
    · rw [hlapsed] at ih
      exact (List.suffix_cons _ _).trans ih

/-- A merchant with zero counters. -/
structure ZeroFees (s : BillingRun) : Prop where
  volume : s.merchant.monthlyVolumeUsd = 0
  feePaid : s.merchant.volumeFeePaidUsd = 0
  lapsed : s.lapsed = []
  confirmed : s.confirmed = 0
  paid : s.paid = 0

theorem ZeroFees.feesOk {s : BillingRun} (h : ZeroFees s) : FeesOk s where
  covered := by rw [unsettledFee, h.volume, h.feePaid, zero_mul, sub_zero]
  balance := by
    rw [unsettledFee, h.volume, h.feePaid, h.lapsed, h.confirmed, h.paid, List.sum_nil, add_zero]
  lapsed_nonneg := by
    rw [h.lapsed]
    nofun

/-- **Owed fees are conserved exactly when every cycle ends with its fee settled**: then, and only
then, the fee on all confirmed amounts less all payments is what is reported as owed. -/
theorem fees_conserved_iff {s₀ s : BillingRun} {es : List BillingEvent} (h0 : ZeroFees s₀)
    (h : Run (BillingRun.step deriveEvmAddress) VolumeBilled s₀ es s)
    (hmode : s.merchant.billingMode = .volume) :
    (s.confirmed * volumeFeeRate - s.paid = feeOwedUsd s.merchant ∧
      ∀ es₁ e es₂ t t', es = es₁ ++ e :: es₂ →
        exec (BillingRun.step deriveEvmAddress) s₀ es₁ = some t →
        t.step deriveEvmAddress e = some t' → (∀ amount, e ≠ .payFee amount) →
          feeOwedUsd t.merchant ≤ feeOwedUsd t'.merchant) ↔
      ∀ q ∈ s.lapsed, q = 0 := by
  have hkeep : ∀ s e s', FeesOk s → VolumeBilled s e →
      BillingRun.step deriveEvmAddress s e = some s' → FeesOk s' :=
    fun _ _ _ hold hok hs => hold.step hs hok
  have hfees : FeesOk s := h.invariant hkeep h0.feesOk
  have hsum : s.confirmed * volumeFeeRate - s.paid = feeOwedUsd s.merchant ↔
      ∀ q ∈ s.lapsed, q = 0 := by
    rw [hfees.balance, hfees.feeOwedUsd_eq hmode, add_eq_left]
    exact ⟨List.all_zero_of_le_zero_le_of_sum_eq_zero hfees.lapsed_nonneg, List.sum_eq_zero⟩
  refine ⟨fun hall => hsum.mp hall.1, fun hlapsed => ⟨hsum.mpr hlapsed, ?_⟩⟩
  rintro es₁ e es₂ t t' rfl ht ht' hpay
  obtain ⟨u, hrun₁, hrun₂⟩ := h.of_append
  obtain rfl : u = t := Option.some.inj (hrun₁.exec_eq.symm.trans ht)
  cases hrun₂ with
  | cons hok hs hrest =>
    have heq := Option.some.inj (ht'.symm.trans hs)
    subst heq
    have hu : FeesOk u := hrun₁.invariant hkeep h0.feesOk
    have hmode' : t'.merchant.billingMode = .volume := by
      cases hrest with
      | nil => exact hmode
      | cons hok' _ _ => exact hok'.mode
    refine hu.le_of_step hs hok hmode' hpay fun q hq => ?_
    exact hlapsed q ((lapsed_suffix hrest).subset hq)

/-- A volume-billed merchant with zero counters. -/
def volumeRun : BillingRun := newRun { newMerchant with billingMode := .volume }

/-- An EVM payment of some dollars. -/
def samplePayment (amount : ℚ) : Payment := .evm { chain := .bsc, asset := .usdt, amount }

/-- Does the event keep the merchant billed by volume? -/
def volumeBilled (s : BillingRun) : BillingEvent → Bool
  | .confirm payment _ => s.merchant.billingMode = .volume && 0 ≤ payment.amount
  | _ => s.merchant.billingMode = .volume

theorem volumeBilled_sound {s : BillingRun} {e : BillingEvent} (h : volumeBilled s e) :
    VolumeBilled s e := by
  cases e with
  | confirm payment clock => simpa [volumeBilled, VolumeBilled] using h
  | setBillingMode mode => simpa [volumeBilled, VolumeBilled] using h
  | createOrder req keep => simpa [volumeBilled, VolumeBilled] using h
  | payFee amount => simpa [volumeBilled, VolumeBilled] using h

/-- A thousand dollars, their fee of three, and a checkout in the next cycle. -/
theorem fees_conserved_iff_paid : ∃ s,
    exec (BillingRun.step fun _ _ => some "0x") volumeRun
      [.confirm (samplePayment 1000) 0, .payFee 3, sampleCheckout monthlyReset,
        .confirm (samplePayment 10) monthlyReset] = some s ∧
      s.confirmed * volumeFeeRate - s.paid = feeOwedUsd s.merchant := by
  have hrun : ((exec (restrict volumeBilled (BillingRun.step fun _ _ => some "0x")) volumeRun
      [.confirm (samplePayment 1000) 0, .payFee 3, sampleCheckout monthlyReset,
        .confirm (samplePayment 10) monthlyReset]).map fun s =>
          (s.merchant.billingMode, s.lapsed)) = some (.volume, [0, 0]) := by
    decide +kernel
  obtain ⟨s, hs, he⟩ := Option.map_eq_some_iff.mp hrun
  simp only [Prod.mk.injEq] at he
  obtain ⟨hmode, hlapsed⟩ := he
  have run := (Run.of_exec_restrict hs).mono fun _ _ => volumeBilled_sound
  refine ⟨s, run.exec_eq, ((fees_conserved_iff ⟨rfl, rfl, rfl, rfl, rfl⟩ run hmode).mpr ?_).1⟩
  rw [hlapsed]
  simp

/-- The fee on a thousand dollars is forgotten when it has not been paid by the end of the cycle. -/
theorem fee_lapses :
    ((exec (BillingRun.step fun _ _ => some "0x") volumeRun
      [.confirm (samplePayment 1000) 0]).map fun s => feeOwedUsd s.merchant) = some 3 ∧
    ((exec (BillingRun.step fun _ _ => some "0x") volumeRun
      [.confirm (samplePayment 1000) 0, sampleCheckout monthlyReset]).map fun s =>
        (s.confirmed * volumeFeeRate - s.paid, feeOwedUsd s.merchant)) = some (3, 0) := by
  refine ⟨by decide +kernel, by decide +kernel⟩

end Gateway
