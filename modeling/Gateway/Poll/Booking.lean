import Gateway.Merchant.Fees
import Gateway.Poll.Sequential

/-!
# The mode in which an amount is booked

The poll loop looks at the billing mode before the rollover that may change it. An order that is
confirmed after the end of a cycle is thus booked in the mode of that cycle: a switch to volume
billing that is due is not applied and the amount is not counted, and with a switch back to the
flat plan the amount is counted all the same. So an amount is booked in the mode that is in force
exactly when no switch is due (`volume_booked_in_force_iff`).
-/

namespace Gateway

open Foundations

/-- Would the rollover at this time change the billing mode? -/
def Merchant.switchDue (now : Timestamp) (m : Merchant) : Bool :=
  m.cycleOver now && m.pendingBillingMode.getD m.billingMode ≠ m.billingMode

/-- A payment that is confirmed at a time makes `m'` of the merchant `m`, in the mode in force then:
billed by volume, the rollover is applied and the amount is added; on the flat plan, the volume of
the cycle does not change. -/
structure BookedInForce (now : Timestamp) (payment : Payment) (m m' : Merchant) : Prop where
  volume : (m.ensureBillingCycleCurrent now).billingMode = .volume →
    m' = { (m.claimPayment payment).ensureBillingCycleCurrent now with
      monthlyVolumeUsd :=
        (m.ensureBillingCycleCurrent now).monthlyVolumeUsd + payment.amount }
  flat : (m.ensureBillingCycleCurrent now).billingMode = .flat →
    m'.monthlyVolumeUsd =
      if m'.billingCycleResetAt = m.billingCycleResetAt then m.monthlyVolumeUsd
      else (m.ensureBillingCycleCurrent now).monthlyVolumeUsd

namespace Merchant

variable {now : Timestamp} {payment : Payment} {m : Merchant}

/-- **The mode in force** is another one exactly when a switch is due. -/
theorem switchDue_iff :
    m.switchDue now ↔ (m.ensureBillingCycleCurrent now).billingMode ≠ m.billingMode := by
  have hlapse : (m.ensureBillingCycleCurrent now).billingMode = (m.rollOver now).billingMode :=
    (lapsePlan_cycle now (m.rollOver now)).1.mode
  rw [hlapse, switchDue, Bool.and_eq_true, decide_eq_true_eq, rollOver]
  split_ifs with hover
  · simp [hover, startCycle]
  · simp [hover]

/-- A claim has nothing to do with the billing. -/
theorem ensureBillingCycleCurrent_claimPayment (now : Timestamp) (payment : Payment)
    (m : Merchant) : (m.claimPayment payment).ensureBillingCycleCurrent now =
      (m.ensureBillingCycleCurrent now).claimPayment payment := by
  cases payment with
  | evm em => rfl
  | solana sm =>
    simp only [claimPayment, ensureBillingCycleCurrent, rollOver_setConsumed, lapsePlan_setConsumed]

/-- The volume after the rollover is the one of the cycle that has begun, if one has. -/
theorem volume_ensureBillingCycleCurrent (now : Timestamp) (m : Merchant) :
    (m.ensureBillingCycleCurrent now).monthlyVolumeUsd =
      if (m.ensureBillingCycleCurrent now).billingCycleResetAt = m.billingCycleResetAt then
        m.monthlyVolumeUsd
      else (m.ensureBillingCycleCurrent now).monthlyVolumeUsd := by
  rcases ensureBillingCycleCurrent_cases now m with ⟨-, hsame, hvolume, -⟩ | ⟨hnext, -⟩
  · rw [if_pos hsame.resetAt, hvolume]
  · rw [if_neg (BillingRun.resetAt_ne_of_next hnext)]

/-- The poll loop on a merchant who is billed by volume before the rollover. -/
theorem confirmOn_of_volume (hmode : m.billingMode = .volume) :
    confirmOn payment now m = { (m.claimPayment payment).ensureBillingCycleCurrent now with
      monthlyVolumeUsd :=
        (m.ensureBillingCycleCurrent now).monthlyVolumeUsd + payment.amount } := by
  have hmode' : (m.claimPayment payment).billingMode = .volume :=
    (sameCycle_claimPayment payment m).mode.trans hmode
  have hvolume : ((m.claimPayment payment).ensureBillingCycleCurrent now).monthlyVolumeUsd =
      (m.ensureBillingCycleCurrent now).monthlyVolumeUsd := by
    rw [ensureBillingCycleCurrent_claimPayment]
    exact (claimPayment_fees payment _).1
  rw [confirmOn, bookVolume, if_pos hmode', ← hvolume]

theorem confirmOn_of_flat (hmode : m.billingMode = .flat) :
    confirmOn payment now m = m.claimPayment payment := by
  have hmode' : (m.claimPayment payment).billingMode = .flat :=
    (sameCycle_claimPayment payment m).mode.trans hmode
  exact if_neg (by simp [hmode'])

/-- The cycle of a merchant who is billed by volume before the rollover. -/
theorem resetAt_confirmOn_of_volume (hmode : m.billingMode = .volume) :
    (confirmOn payment now m).billingCycleResetAt =
      (m.ensureBillingCycleCurrent now).billingCycleResetAt := by
  rw [confirmOn_of_volume hmode, ensureBillingCycleCurrent_claimPayment]
  exact (sameCycle_claimPayment payment _).resetAt

/-- A merchant on the flat plan is left on it. -/
theorem bookedInForce_of_flat (hmode : m.billingMode = .flat) :
    BookedInForce now payment m (confirmOn payment now m) ↔
      (m.ensureBillingCycleCurrent now).billingMode = .flat := by
  constructor
  · intro h
    cases hforce : (m.ensureBillingCycleCurrent now).billingMode with
    | flat => rfl
    | volume =>
      have hleft := congrArg billingMode (h.volume hforce)
      rw [confirmOn_of_flat hmode, ensureBillingCycleCurrent_claimPayment,
        (sameCycle_claimPayment payment m).mode, hmode] at hleft
      have hclaimed := (sameCycle_claimPayment payment (m.ensureBillingCycleCurrent now)).mode
      exact absurd (hleft.trans (hclaimed.trans hforce)) (by decide)
  · intro hforce
    refine ⟨fun hvolume => absurd (hforce.symm.trans hvolume) (by decide), fun _ => ?_⟩
    rw [confirmOn_of_flat hmode, if_pos (sameCycle_claimPayment payment m).resetAt]
    exact (claimPayment_fees payment m).1

/-- A merchant who is billed by volume has the amount added to the volume. -/
theorem bookedInForce_of_volume (hmode : m.billingMode = .volume) :
    BookedInForce now payment m (confirmOn payment now m) ↔
      (m.ensureBillingCycleCurrent now).billingMode = .volume ∨ payment.amount = 0 := by
  have hadded : (confirmOn payment now m).monthlyVolumeUsd =
      (m.ensureBillingCycleCurrent now).monthlyVolumeUsd + payment.amount := by
    rw [confirmOn_of_volume hmode]
  constructor
  · intro h
    cases hforce : (m.ensureBillingCycleCurrent now).billingMode with
    | volume => exact .inl rfl
    | flat =>
      have hbooked := h.flat hforce
      rw [hadded, resetAt_confirmOn_of_volume hmode, ← volume_ensureBillingCycleCurrent] at hbooked
      exact .inr (add_eq_left.mp hbooked)
  · intro h
    refine ⟨fun _ => confirmOn_of_volume hmode, fun hforce => ?_⟩
    rcases h with hvolume | hzero
    · exact absurd (hforce.symm.trans hvolume) (by decide)
    · rw [hadded, resetAt_confirmOn_of_volume hmode, ← volume_ensureBillingCycleCurrent, hzero,
        add_zero]

/-- **When the poll loop books in the mode in force.** -/
theorem bookedInForce_iff : BookedInForce now payment m (confirmOn payment now m) ↔
    m.switchDue now = false ∨ m.billingMode = .volume ∧ payment.amount = 0 := by
  rw [← Bool.not_eq_true, switchDue_iff, not_not]
  cases hmode : m.billingMode with
  | flat => simp [bookedInForce_of_flat hmode]
  | volume => simp [bookedInForce_of_volume hmode]

end Merchant

/-- **Volume is booked in the mode in force** when an order is confirmed exactly if no switch of the
mode is due then, or nothing is added on the way from volume billing to the flat plan. -/
theorem volume_booked_in_force_iff {now : Timestamp} {a : Answers} {order order' : MerchantOrder}
    {m : Merchant} {merchant' : Option Merchant} {c : Confirmation}
    (h : visitOrder now a order (some m) = some (.paid order' merchant' c)) :
    ∃ payment m', findPayment a order (some m) = some (some payment) ∧
      order'.paidAmount = some payment.amount ∧ merchant' = some m' ∧
      (BookedInForce a.clock payment m m' ↔
        m.switchDue a.clock = false ∨ m.billingMode = .volume ∧ payment.amount = 0) := by
  obtain ⟨-, payment, hpayment, hconfirm⟩ := confirm_of_visit h
  simp only [confirm, Visit.paid.injEq] at hconfirm
  obtain ⟨rfl, rfl, -⟩ := hconfirm
  refine ⟨payment, confirmOn payment a.clock m, hpayment, ?_, rfl, Merchant.bookedInForce_iff⟩
  split_ifs <;> rfl

/-! ### Switches that are due and that are not -/

/-- A payment of $20 on an EVM chain, and nothing on Solana. -/
def evmAnswers : Answers :=
  { sampleAnswers 0 with evm := some (some { chain := .bsc, asset := .usdt, amount := 20 }) }

/-- The sample merchant in a mode, with a switch to another one, and a cycle until some time. -/
def switchingMerchant (mode pendingMode : BillingMode) (resetAt : Timestamp) : Merchant :=
  { sampleMerchant with
    billingMode := mode
    pendingBillingMode := some pendingMode
    billingCycleResetAt := some resetAt }

theorem visitOrder_evmAnswers (m : Merchant) : ∃ order' c,
    visitOrder 5 evmAnswers (sampleOrder 1) (some m) =
      some (.paid order' (some (confirmOn (samplePayment 20) 10 m)) c) :=
  ⟨_, _, rfl⟩

/-- An amount that is confirmed before the switch to the flat plan counts. -/
theorem volume_booked_in_force_running :
    ∃ order' m' c, visitOrder 5 evmAnswers (sampleOrder 1)
        (some (switchingMerchant .volume .flat 20)) = some (.paid order' (some m') c) ∧
      m'.monthlyVolumeUsd = 20 ∧
      BookedInForce 10 (samplePayment 20) (switchingMerchant .volume .flat 20) m' := by
  obtain ⟨order', c, h⟩ := visitOrder_evmAnswers (switchingMerchant .volume .flat 20)
  obtain ⟨payment, m', hpayment, -, hm', hbooked⟩ := volume_booked_in_force_iff h
  obtain rfl := Option.some.inj hm'
  have hfind : findPayment evmAnswers (sampleOrder 1) (some (switchingMerchant .volume .flat 20)) =
      some (some (samplePayment 20)) := rfl
  obtain rfl := Option.some.inj (Option.some.inj (hfind.symm.trans hpayment))
  exact ⟨order', _, c, h, by decide +kernel, hbooked.mpr (.inl (by decide))⟩

/-- After the end of the cycle, a queued switch to volume billing is not applied, and an amount
still counts when the switch to the flat plan is. -/
theorem volume_booked_before_the_switch :
    (∃ order' m' c, visitOrder 5 evmAnswers (sampleOrder 1)
        (some (switchingMerchant .flat .volume 10)) = some (.paid order' (some m') c) ∧
      m' = switchingMerchant .flat .volume 10 ∧
      ¬ BookedInForce 10 (samplePayment 20) (switchingMerchant .flat .volume 10) m') ∧
    ∃ order' m' c, visitOrder 5 evmAnswers (sampleOrder 1)
        (some (switchingMerchant .volume .flat 10)) = some (.paid order' (some m') c) ∧
      m'.billingMode = .flat ∧ m'.monthlyVolumeUsd = 20 ∧
      ¬ BookedInForce 10 (samplePayment 20) (switchingMerchant .volume .flat 10) m' := by
  obtain ⟨order', c, h⟩ := visitOrder_evmAnswers (switchingMerchant .flat .volume 10)
  obtain ⟨order'', c', h'⟩ := visitOrder_evmAnswers (switchingMerchant .volume .flat 10)
  refine ⟨⟨order', _, c, h, by decide +kernel, ?_⟩,
    order'', _, c', h', by decide +kernel, by decide +kernel, ?_⟩
  · rw [Merchant.bookedInForce_iff]
    decide +kernel
  · rw [Merchant.bookedInForce_iff]
    decide +kernel

end Gateway
