import Gateway.Foundations.Runs
import Gateway.Poll.Visit

/-!
# Billing cycles over time

`BillingRun` is one merchant on which switches of the billing mode, checkouts, confirmed orders and
fee payments are executed one after the other, with what has happened to it so far. The rollover is
lazy: a cycle ends with the first checkout or volume-billed confirmation at or after its end.

In every run that starts before the first cycle, the mode only changes when a cycle begins, and then
to the mode that was last requested; cycles begin at least thirty days apart; the count is that of
the orders of the cycle; and a flat cycle has at most fifty orders on the free plan
(`billing_cycles`).
-/

namespace Gateway

open Foundations

/-! ## What a rollover does -/

/-- The cycle goes on. -/
structure SameCycle (m m' : Merchant) : Prop where
  resetAt : m'.billingCycleResetAt = m.billingCycleResetAt
  mode : m'.billingMode = m.billingMode
  pendingMode : m'.pendingBillingMode = m.pendingBillingMode
  count : m'.monthlyOrderCount = m.monthlyOrderCount

/-- The cycle was over, and the next one has begun. -/
structure NextCycle (now : Timestamp) (m m' : Merchant) : Prop where
  ended : ∀ r ∈ m.billingCycleResetAt, r ≤ now
  resetAt : m'.billingCycleResetAt = some (now + monthlyReset)
  mode : m'.billingMode = m.pendingBillingMode.getD m.billingMode
  pendingMode : m'.pendingBillingMode = none
  count : m'.monthlyOrderCount = 0

theorem SameCycle.trans {m m' m'' : Merchant} (h : SameCycle m m') (h' : SameCycle m' m'') :
    SameCycle m m'' :=
  ⟨h'.resetAt.trans h.resetAt, h'.mode.trans h.mode, h'.pendingMode.trans h.pendingMode,
    h'.count.trans h.count⟩

theorem NextCycle.of_same {now : Timestamp} {m m' m'' : Merchant} (h : SameCycle m m')
    (h' : NextCycle now m' m'') : NextCycle now m m'' where
  ended := by
    rw [← h.resetAt]
    exact h'.ended
  resetAt := h'.resetAt
  mode := by rw [h'.mode, h.pendingMode, h.mode]
  pendingMode := h'.pendingMode
  count := h'.count

theorem NextCycle.same {now : Timestamp} {m m' m'' : Merchant} (h : NextCycle now m m')
    (h' : SameCycle m' m'') : NextCycle now m m'' :=
  ⟨h.ended, h'.resetAt.trans h.resetAt, h'.mode.trans h.mode, h'.pendingMode.trans h.pendingMode,
    h'.count.trans h.count⟩

/-- The fall back to the free plan leaves the cycle and the fees alone. -/
theorem lapsePlan_cycle (now : Timestamp) (m : Merchant) : SameCycle m (m.lapsePlan now) ∧
    (m.lapsePlan now).monthlyVolumeUsd = m.monthlyVolumeUsd ∧
      (m.lapsePlan now).volumeFeePaidUsd = m.volumeFeePaidUsd := by
  unfold Merchant.lapsePlan
  split_ifs <;> exact ⟨⟨rfl, rfl, rfl, rfl⟩, rfl, rfl⟩

/-- **The rollover** keeps a running cycle with its fees, or begins the next one without any. -/
theorem ensureBillingCycleCurrent_cases (now : Timestamp) (m : Merchant) :
    (m.billingCycleResetAt.isSome ∧ SameCycle m (m.ensureBillingCycleCurrent now) ∧
      (m.ensureBillingCycleCurrent now).monthlyVolumeUsd = m.monthlyVolumeUsd ∧
      (m.ensureBillingCycleCurrent now).volumeFeePaidUsd = m.volumeFeePaidUsd) ∨
    (NextCycle now m (m.ensureBillingCycleCurrent now) ∧
      (m.ensureBillingCycleCurrent now).monthlyVolumeUsd = 0 ∧
      (m.ensureBillingCycleCurrent now).volumeFeePaidUsd = 0) := by
  obtain ⟨hlapse, hvolume, hpaid⟩ := lapsePlan_cycle now (m.rollOver now)
  unfold Merchant.ensureBillingCycleCurrent
  rw [hvolume, hpaid]
  by_cases hover : m.cycleOver now
  · have hroll : m.rollOver now = m.startCycle now := if_pos hover
    rw [hroll] at hlapse ⊢
    refine .inr ⟨NextCycle.same ⟨fun r hr => ?_, rfl, rfl, rfl, rfl⟩ hlapse, rfl, rfl⟩
    rw [Option.mem_def] at hr
    simpa [Merchant.cycleOver, hr] using hover
  · have hroll : m.rollOver now = m := if_neg hover
    rw [hroll] at hlapse ⊢
    refine .inl ⟨?_, hlapse, rfl, rfl⟩
    cases hreset : m.billingCycleResetAt with
    | none => simp [Merchant.cycleOver, hreset] at hover
    | some r => rfl

theorem sameCycle_claimPayment (payment : Payment) (m : Merchant) :
    SameCycle m (m.claimPayment payment) := by
  cases payment with
  | evm em => exact ⟨rfl, rfl, rfl, rfl⟩
  | solana sm =>
    rw [Merchant.claimPayment]
    cases sm.asset <;> exact ⟨rfl, rfl, rfl, rfl⟩

/-- The confirmation of an order, as the poll loop makes it of the merchant. -/
def confirmOn (payment : Payment) (clock : Timestamp) (m : Merchant) : Merchant :=
  (m.claimPayment payment).bookVolume clock payment.amount

/-- It is what the visit of a paid order makes of the merchant. -/
theorem confirm_eq_confirmOn (now : Timestamp) (a : Answers) (payment : Payment)
    (order : MerchantOrder) (m : Merchant) : ∃ order' confirmation,
      confirm now a payment order (some m) =
        .paid order' (some (confirmOn payment a.clock m)) confirmation :=
  ⟨_, _, rfl⟩

theorem confirmOn_cycle (payment : Payment) (clock : Timestamp) (m : Merchant) :
    SameCycle m (confirmOn payment clock m) ∨ NextCycle clock m (confirmOn payment clock m) := by
  have hclaim := sameCycle_claimPayment payment m
  unfold confirmOn Merchant.bookVolume
  split_ifs
  · rcases ensureBillingCycleCurrent_cases clock (m.claimPayment payment) with
      ⟨-, hsame, -⟩ | ⟨hnext, -⟩
    · exact .inl (hclaim.trans (hsame.trans ⟨rfl, rfl, rfl, rfl⟩))
    · exact .inr (.same (.of_same hclaim hnext) ⟨rfl, rfl, rfl, rfl⟩)
  · exact .inl hclaim

/-! ## The system -/

/-- A merchant over time, with what has happened to its billing. -/
structure BillingRun where
  merchant : Merchant
  clock : Timestamp
  /-- When cycles have begun, the last time first. -/
  advances : List Timestamp
  /-- The mode that was last requested since then. -/
  requested : Option BillingMode
  /-- The orders created since then. -/
  created : ℕ
  /-- Those of them that found the plan to be free. -/
  createdFree : ℕ
  /-- The fee on the volume less the fees paid, whenever a cycle has ended. -/
  lapsed : List ℚ
  /-- All amounts ever confirmed. -/
  confirmed : ℚ
  /-- All fees ever paid. -/
  paid : ℚ

/-- The fee on the volume of the cycle less the fees paid in it. -/
def unsettledFee (m : Merchant) : ℚ := m.monthlyVolumeUsd * volumeFeeRate - m.volumeFeePaidUsd

/-- What touches the billing of a merchant. -/
inductive BillingEvent
  | setBillingMode (mode : String)
  /-- A checkout; when it is refused, its changes of the merchant may be kept or not. -/
  | createOrder (req : CheckoutRequest) (keep : Bool)
  /-- The poll loop confirms an order of the merchant. -/
  | confirm (payment : Payment) (clock : Timestamp)
  | payFee (amount : ℚ)

namespace BillingRun

/-- The merchant has become `m` at a time. -/
def observe (s : BillingRun) (m : Merchant) (now : Timestamp) : BillingRun :=
  if m.billingCycleResetAt = s.merchant.billingCycleResetAt then
    { s with merchant := m, clock := now }
  else
    { s with
      merchant := m
      clock := now
      advances := now :: s.advances
      requested := none
      created := 0
      createdFree := 0
      lapsed := unsettledFee s.merchant :: s.lapsed }

/-- One event; `none` when it is not enabled. -/
def step (deriveEvmAddress : ℤ → String → Option String) (s : BillingRun) :
    BillingEvent → Option BillingRun
  | .setBillingMode mode =>
    match setBillingMode mode s.merchant with
    | .error _ => some s
    | .ok m => some { s with merchant := m, requested := billingModes.lookup mode }
  | .createOrder req keep =>
    if s.clock ≤ req.checkedAt then
      match createOrder deriveEvmAddress req s.merchant with
      | .ok (m, _) =>
        let s := s.observe m req.checkedAt
        some { s with
          created := s.created + 1
          createdFree := s.createdFree + if m.plan = .free then 1 else 0 }
      | .error (.quotaExceeded _) =>
        let m := if keep then s.merchant.ensureBillingCycleCurrent req.checkedAt else s.merchant
        some (s.observe m req.checkedAt)
      | .error .derivation => some (s.observe s.merchant req.checkedAt)
    else none
  | .confirm payment clock =>
    if s.clock ≤ clock then
      let s := s.observe (confirmOn payment clock s.merchant) clock
      some { s with confirmed := s.confirmed + payment.amount }
    else none
  | .payFee amount =>
    if 0 ≤ amount ∧ amount ≤ feeOwedUsd s.merchant then
      let m := { s.merchant with volumeFeePaidUsd := s.merchant.volumeFeePaidUsd + amount }
      some { s with merchant := m, paid := s.paid + amount }
    else none

variable {s s' : BillingRun} {m m' : Merchant} {now : Timestamp}

theorem observe_of_same (h : SameCycle s.merchant m) :
    s.observe m now = { s with merchant := m, clock := now } := if_pos h.resetAt

theorem resetAt_ne_of_next (h : NextCycle now m m') :
    m'.billingCycleResetAt ≠ m.billingCycleResetAt := by
  intro heq
  have hle := h.ended (now + monthlyReset) (by rw [Option.mem_def, ← heq, h.resetAt])
  have hpos : 0 < monthlyReset := by decide
  linarith

theorem observe_of_next (h : NextCycle now s.merchant m) :
    s.observe m now =
      { s with
        merchant := m
        clock := now
        advances := now :: s.advances
        requested := none
        created := 0
        createdFree := 0
        lapsed := unsettledFee s.merchant :: s.lapsed } := if_neg (resetAt_ne_of_next h)

end BillingRun

/-! ## The invariant -/

/-- The merchant's columns say what has happened since the cycle began. -/
structure CyclesOk (s : BillingRun) : Prop where
  requested : s.merchant.pendingBillingMode.getD s.merchant.billingMode =
    s.requested.getD s.merchant.billingMode
  fresh : s.merchant.billingCycleResetAt = none →
    s.advances = [] ∧ s.merchant.pendingBillingMode = none ∧ s.created = 0
  running : ∀ r ∈ s.merchant.billingCycleResetAt,
    (∃ t ∈ s.advances.head?, r = t + monthlyReset) ∧ s.merchant.monthlyOrderCount = s.created
  apart : s.advances.Pairwise fun later earlier => earlier + monthlyReset ≤ later
  free_le : s.createdFree ≤ s.created
  cap : s.merchant.billingMode = .flat → (s.createdFree : ℤ) ≤ freeMonthlyOrderCap

namespace CyclesOk

variable {s s' : BillingRun} {m : Merchant} {now : Timestamp}

theorem same (h : CyclesOk s) (hsame : SameCycle s.merchant m) :
    CyclesOk { s with merchant := m, clock := now } where
  requested := by
    rw [hsame.pendingMode, hsame.mode]
    exact h.requested
  fresh := by
    rw [hsame.resetAt, hsame.pendingMode]
    exact h.fresh
  running := by
    rw [hsame.resetAt, hsame.count]
    exact h.running
  apart := h.apart
  free_le := h.free_le
  cap := by
    rw [hsame.mode]
    exact h.cap

theorem next (h : CyclesOk s) (hnext : NextCycle now s.merchant m) (lapsed : List ℚ) :
    CyclesOk
      { s with
        merchant := m
        clock := now
        advances := now :: s.advances
        requested := none
        created := 0
        createdFree := 0
        lapsed := lapsed } where
  requested := by rw [hnext.pendingMode]
  fresh := by
    rw [hnext.resetAt]
    nofun
  running := by
    intro r hr
    rw [hnext.resetAt] at hr
    obtain rfl := Option.some.inj hr
    exact ⟨⟨now, rfl, rfl⟩, hnext.count⟩
  apart := by
    refine List.pairwise_cons.mpr ⟨fun t ht => ?_, h.apart⟩
    cases hreset : s.merchant.billingCycleResetAt with
    | none =>
      rw [(h.fresh hreset).1] at ht
      cases ht
    | some r =>
      -- the last cycle began first, and it is over
      obtain ⟨⟨t₀, ht₀, rfl⟩, -⟩ := h.running r hreset
      have hover := hnext.ended _ hreset
      obtain ⟨rest, hadvances⟩ := List.head?_eq_some_iff.mp ht₀
      have hpos : 0 < monthlyReset := by decide
      have hapart := h.apart
      rw [hadvances] at ht hapart
      rcases List.mem_cons.mp ht with rfl | hrest
      · exact hover
      · linarith [(List.pairwise_cons.mp hapart).1 t hrest]
  free_le := le_rfl
  cap := fun _ => Int.natCast_nonneg 50

theorem observe (h : CyclesOk s) (hm : SameCycle s.merchant m ∨ NextCycle now s.merchant m) :
    CyclesOk (s.observe m now) := by
  rcases hm with hsame | hnext
  · rw [BillingRun.observe_of_same hsame]
    exact h.same hsame
  · rw [BillingRun.observe_of_next hnext]
    exact h.next hnext _

/-- Counting an order that passed the quota. -/
theorem created (h : CyclesOk s) (hrunning : s.merchant.billingCycleResetAt.isSome)
    (hquota : s.merchant.quotaExceeded = false) (newValue : ℤ) :
    CyclesOk
      { s with
        merchant := countOrder newValue s.merchant
        created := s.created + 1
        createdFree := s.createdFree + if s.merchant.plan = .free then 1 else 0 } where
  requested := h.requested
  fresh := by
    intro hreset
    change s.merchant.billingCycleResetAt = none at hreset
    rw [hreset] at hrunning
    cases hrunning
  running := by
    intro r hr
    obtain ⟨hbegan, hcount⟩ := h.running r hr
    refine ⟨hbegan, ?_⟩
    show s.merchant.monthlyOrderCount + 1 = ((s.created + 1 : ℕ) : ℤ)
    rw [hcount]
    push_cast
    rfl
  apart := h.apart
  free_le := by
    have hle := h.free_le
    show s.createdFree + (if s.merchant.plan = .free then 1 else 0) ≤ s.created + 1
    split_ifs <;> omega
  cap := by
    intro hflat
    have hcap := h.cap hflat
    show ((s.createdFree + (if s.merchant.plan = .free then 1 else 0) : ℕ) : ℤ) ≤
      freeMonthlyOrderCap
    split_ifs with hfree
    · -- the count is that of the cycle's orders, and the quota was not used up
      obtain ⟨r, hr⟩ := Option.isSome_iff_exists.mp hrunning
      have hcount := (h.running r hr).2
      have hmode : s.merchant.billingMode = .flat := hflat
      have hlt : s.merchant.monthlyOrderCount < freeMonthlyOrderCap := by
        simpa [Merchant.quotaExceeded, hmode, hfree] using hquota
      have hle := h.free_le
      push_cast
      omega
    · exact hcap

/-- Asking for a mode: at once before the first cycle, for the next one later. -/
theorem request (h : CyclesOk s) {mode : BillingMode} {requested : Option BillingMode}
    (hreset : m.billingCycleResetAt = s.merchant.billingCycleResetAt)
    (hcount : m.monthlyOrderCount = s.merchant.monthlyOrderCount)
    (hrequested : requested = some mode)
    (hmode : (mode = s.merchant.billingMode ∧ m.billingMode = s.merchant.billingMode ∧
        m.pendingBillingMode = none) ∨
      (s.merchant.billingCycleResetAt = none ∧ m.billingMode = mode ∧
        m.pendingBillingMode = s.merchant.pendingBillingMode) ∨
      (s.merchant.billingCycleResetAt.isSome ∧ m.billingMode = s.merchant.billingMode ∧
        m.pendingBillingMode = some mode)) :
    CyclesOk { s with merchant := m, requested := requested } where
  requested := by
    subst hrequested
    rcases hmode with ⟨rfl, hm, hp⟩ | ⟨hnone, hm, hp⟩ | ⟨-, hm, hp⟩
    · simp only [hp, hm, Option.getD_none, Option.getD_some]
    · simp only [hp, hm, (h.fresh hnone).2.1, Option.getD_none, Option.getD_some]
    · simp only [hp, Option.getD_some]
  fresh := by
    intro hnone
    rw [hreset] at hnone
    obtain ⟨hadvances, hpending, hcreated⟩ := h.fresh hnone
    refine ⟨hadvances, ?_, hcreated⟩
    rcases hmode with ⟨-, -, hp⟩ | ⟨-, -, hp⟩ | ⟨hsome, -, -⟩
    · exact hp
    · exact hp.trans hpending
    · rw [hnone] at hsome
      cases hsome
  running := by
    rw [hreset, hcount]
    exact h.running
  apart := h.apart
  free_le := h.free_le
  cap := by
    intro hflat
    rcases hmode with ⟨-, hm, -⟩ | ⟨hnone, -, -⟩ | ⟨-, hm, -⟩
    · exact h.cap (hm.symm.trans hflat)
    · have hcreated := (h.fresh hnone).2.2
      have hle := h.free_le
      have hzero : s.createdFree = 0 := by omega
      show (s.createdFree : ℤ) ≤ freeMonthlyOrderCap
      rw [hzero]
      decide
    · exact h.cap (hm.symm.trans hflat)

end CyclesOk

/-! ## The steps -/

/-- What a request for a mode does. -/
theorem setBillingMode_ok {mode : String} {m m' : Merchant} (h : setBillingMode mode m = .ok m') :
    ∃ requested, billingModes.lookup mode = some requested ∧
      m'.billingCycleResetAt = m.billingCycleResetAt ∧
      m'.monthlyOrderCount = m.monthlyOrderCount ∧
      ((requested = m.billingMode ∧ m'.billingMode = m.billingMode ∧
          m'.pendingBillingMode = none) ∨
        (m.billingCycleResetAt = none ∧ m'.billingMode = requested ∧
          m'.pendingBillingMode = m.pendingBillingMode) ∨
        (m.billingCycleResetAt.isSome ∧ m'.billingMode = m.billingMode ∧
          m'.pendingBillingMode = some requested)) := by
  unfold setBillingMode at h
  split at h
  · cases h
  · rename_i requested hlookup
    split_ifs at h with hcurrent hnone
    · cases h
      exact ⟨requested, hlookup, rfl, rfl, .inl ⟨hcurrent, rfl, rfl⟩⟩
    · cases h
      exact ⟨requested, hlookup, rfl, rfl,
        .inr (.inl ⟨Option.isNone_iff_eq_none.mp hnone, rfl, rfl⟩)⟩
    · cases h
      refine ⟨requested, hlookup, rfl, rfl, .inr (.inr ⟨?_, rfl, rfl⟩)⟩
      cases hreset : m.billingCycleResetAt with
      | none => simp [hreset] at hnone
      | some r => rfl

theorem ensureBillingCycleCurrent_cycle (now : Timestamp) (m : Merchant) :
    SameCycle m (m.ensureBillingCycleCurrent now) ∨
      NextCycle now m (m.ensureBillingCycleCurrent now) := by
  rcases ensureBillingCycleCurrent_cases now m with ⟨-, hsame, -⟩ | ⟨hnext, -⟩
  · exact .inl hsame
  · exact .inr hnext

/-- Counting an order changes nothing that is observed of the cycle. -/
theorem BillingRun.observe_countOrder (s : BillingRun) (newValue : ℤ) (m : Merchant)
    (now : Timestamp) : s.observe (countOrder newValue m) now =
      { s.observe m now with merchant := countOrder newValue m } := by
  have hreset : (countOrder newValue m).billingCycleResetAt = m.billingCycleResetAt := rfl
  unfold observe
  rw [hreset]
  split_ifs <;> rfl

@[simp] theorem BillingRun.observe_merchant (s : BillingRun) (m : Merchant) (now : Timestamp) :
    (s.observe m now).merchant = m := by
  unfold observe
  split_ifs <;> rfl

/-- An order has been created for the merchant. -/
def BillingRun.countCreated (s : BillingRun) (newValue : ℤ) : BillingRun :=
  { s with
    merchant := countOrder newValue s.merchant
    created := s.created + 1
    createdFree := s.createdFree + if s.merchant.plan = .free then 1 else 0 }

variable {deriveEvmAddress : ℤ → String → Option String}

/-- What a checkout does: it counts an order that passed the quota, or it is refused. -/
theorem BillingRun.step_createOrder {s s' : BillingRun} {req : CheckoutRequest} {keep : Bool}
    (h : s.step deriveEvmAddress (.createOrder req keep) = some s') :
    s.clock ≤ req.checkedAt ∧ ∃ m, (m = s.merchant.ensureBillingCycleCurrent req.checkedAt ∧
        m.quotaExceeded = false ∧
        s' = (s.observe m req.checkedAt).countCreated (m.nextEvmIndex + 1)) ∨
      ((m = s.merchant.ensureBillingCycleCurrent req.checkedAt ∨ m = s.merchant) ∧
        s' = s.observe m req.checkedAt) := by
  simp only [step] at h
  by_cases hclock : s.clock ≤ req.checkedAt
  · rw [if_pos hclock] at h
    refine ⟨hclock, ?_⟩
    split at h
    · rename_i m o hcreate
      obtain ⟨hquota, rfl, -⟩ := createOrder_eq_ok.mp hcreate
      cases h
      refine ⟨_, .inl ⟨rfl, hquota, ?_⟩⟩
      rw [observe_countOrder, countCreated, observe_merchant,
        Merchant.nextEvmIndex_ensureBillingCycleCurrent]
      rfl
    · cases h
      cases keep with
      | true => exact ⟨_, .inr ⟨.inl rfl, rfl⟩⟩
      | false => exact ⟨_, .inr ⟨.inr rfl, rfl⟩⟩
    · cases h
      exact ⟨_, .inr ⟨.inr rfl, rfl⟩⟩
  · rw [if_neg hclock] at h
    cases h

/-- **Every event keeps the invariant.** -/
theorem CyclesOk.step {s s' : BillingRun} {e : BillingEvent} (h : CyclesOk s)
    (hs : s.step deriveEvmAddress e = some s') : CyclesOk s' := by
  cases e with
  | setBillingMode mode =>
    simp only [BillingRun.step] at hs
    split at hs
    · cases hs
      exact h
    · rename_i m hset
      cases hs
      obtain ⟨requested, hlookup, hreset, hcount, hmode⟩ := setBillingMode_ok hset
      exact h.request hreset hcount hlookup hmode
  | createOrder req keep =>
    obtain ⟨-, m, ⟨rfl, hquota, rfl⟩ | ⟨hm, rfl⟩⟩ := BillingRun.step_createOrder hs
    · have hensure : CyclesOk (s.observe (s.merchant.ensureBillingCycleCurrent req.checkedAt)
          req.checkedAt) := h.observe (ensureBillingCycleCurrent_cycle _ _)
      refine hensure.created ?_ ?_ _
      · rw [BillingRun.observe_merchant]
        rcases ensureBillingCycleCurrent_cases req.checkedAt s.merchant with
          ⟨hsome, hsame, -⟩ | ⟨hnext, -⟩
        · rw [hsame.resetAt, hsome]
        · rw [hnext.resetAt]
          rfl
      · rw [BillingRun.observe_merchant, hquota]
    · rcases hm with rfl | rfl
      · exact h.observe (ensureBillingCycleCurrent_cycle _ _)
      · exact h.observe (.inl ⟨rfl, rfl, rfl, rfl⟩)
  | confirm payment clock =>
    simp only [BillingRun.step] at hs
    split_ifs at hs with hclock
    cases hs
    have hobserve := h.observe (confirmOn_cycle payment clock s.merchant)
    exact ⟨hobserve.requested, hobserve.fresh, hobserve.running, hobserve.apart, hobserve.free_le,
      hobserve.cap⟩
  | payFee amount =>
    simp only [BillingRun.step] at hs
    split_ifs at hs
    cases hs
    exact ⟨h.requested, h.fresh, h.running, h.apart, h.free_le, h.cap⟩

/-! ## Modes, cycles and quotas -/

namespace BillingRun

/-- Before the first cycle of a merchant. -/
structure Fresh (s : BillingRun) : Prop where
  resetAt : s.merchant.billingCycleResetAt = none
  pendingMode : s.merchant.pendingBillingMode = none
  advances : s.advances = []
  requested : s.requested = none
  created : s.created = 0
  createdFree : s.createdFree = 0

theorem Fresh.cyclesOk {s : BillingRun} (h : s.Fresh) : CyclesOk s where
  requested := by rw [h.pendingMode, h.requested]
  fresh := fun _ => ⟨h.advances, h.pendingMode, h.created⟩
  running := by
    rw [h.resetAt]
    nofun
  apart := by
    rw [h.advances]
    exact .nil
  free_le := by rw [h.createdFree, h.created]
  cap := fun _ => by
    rw [h.createdFree]
    decide

/-- `billing_cycle_reset_at` advances. -/
def Advances (s s' : BillingRun) : Prop :=
  ∃ r' ∈ s'.merchant.billingCycleResetAt, ∀ r ∈ s.merchant.billingCycleResetAt, r < r'

/-- The cycle goes on in its mode, or the next one begins in the mode that was queued. -/
def CycleStep (s s' : BillingRun) : Prop :=
  (s'.merchant.billingCycleResetAt = s.merchant.billingCycleResetAt ∧
    (s.merchant.billingCycleResetAt.isSome →
      s'.merchant.billingMode = s.merchant.billingMode)) ∨
  (s.Advances s' ∧
    s'.merchant.billingMode = s.merchant.pendingBillingMode.getD s.merchant.billingMode)

variable {s s' : BillingRun} {m : Merchant} {now : Timestamp}

theorem CycleStep.of_cycle (hreset : s'.merchant.billingCycleResetAt = m.billingCycleResetAt)
    (hmode : s'.merchant.billingMode = m.billingMode)
    (hm : SameCycle s.merchant m ∨ NextCycle now s.merchant m) : CycleStep s s' := by
  rcases hm with hsame | hnext
  · exact .inl ⟨hreset.trans hsame.resetAt, fun _ => hmode.trans hsame.mode⟩
  · refine .inr ⟨⟨_, hreset.trans hnext.resetAt, fun r hr => ?_⟩, hmode.trans hnext.mode⟩
    have hpos : 0 < monthlyReset := by decide
    linarith [hnext.ended r hr]

theorem cycleStep {e : BillingEvent} (hs : s.step deriveEvmAddress e = some s') :
    CycleStep s s' := by
  cases e with
  | setBillingMode mode =>
    simp only [step] at hs
    split at hs
    · cases hs
      exact .inl ⟨rfl, fun _ => rfl⟩
    · rename_i m hset
      cases hs
      obtain ⟨requested, -, hreset, -, hmode⟩ := setBillingMode_ok hset
      refine .inl ⟨hreset, fun hsome => ?_⟩
      rcases hmode with ⟨-, hm, -⟩ | ⟨hnone, -, -⟩ | ⟨-, hm, -⟩
      · exact hm
      · rw [hnone] at hsome
        cases hsome
      · exact hm
  | createOrder req keep =>
    obtain ⟨-, m, ⟨rfl, -, rfl⟩ | ⟨hm, rfl⟩⟩ := step_createOrder hs
    · refine .of_cycle ?_ ?_ (ensureBillingCycleCurrent_cycle req.checkedAt s.merchant)
      · simp [countCreated, countOrder]
      · simp [countCreated, countOrder]
    · rcases hm with rfl | rfl
      · exact .of_cycle (by rw [observe_merchant]) (by rw [observe_merchant])
          (ensureBillingCycleCurrent_cycle req.checkedAt s.merchant)
      · exact .inl ⟨by rw [observe_merchant], fun _ => by rw [observe_merchant]⟩
  | confirm payment clock =>
    simp only [step] at hs
    split_ifs at hs
    cases hs
    refine .of_cycle ?_ ?_ (confirmOn_cycle payment clock s.merchant)
    · simp only [observe_merchant]
    · simp only [observe_merchant]
  | payFee amount =>
    simp only [step] at hs
    split_ifs at hs
    cases hs
    exact .inl ⟨rfl, fun _ => rfl⟩

end BillingRun

/-- **Billing modes are fixed within a cycle**, in every run from before the first one. Once a cycle
has begun the mode only changes when `billing_cycle_reset_at` advances, and then it becomes the last
one requested; the advances are at least thirty days apart; the count is that of the orders created
since; and a flat cycle has at most fifty orders on the free plan. -/
theorem billing_cycles {s₀ s s' : BillingRun} {es : List BillingEvent} {e : BillingEvent}
    (h0 : s₀.Fresh) (h : exec (BillingRun.step deriveEvmAddress) s₀ es = some s)
    (hs : s.step deriveEvmAddress e = some s') :
    (s.merchant.billingCycleResetAt.isSome →
      s'.merchant.billingMode ≠ s.merchant.billingMode → s.Advances s') ∧
    (s'.merchant.billingCycleResetAt ≠ s.merchant.billingCycleResetAt → s.Advances s') ∧
    (s.Advances s' →
      s'.merchant.billingMode = s.requested.getD s.merchant.billingMode) ∧
    s'.advances.Pairwise (fun later earlier => earlier + monthlyReset ≤ later) ∧
    (s'.merchant.billingCycleResetAt.isSome → s'.merchant.monthlyOrderCount = s'.created) ∧
    (s'.merchant.billingMode = .flat → (s'.createdFree : ℤ) ≤ freeMonthlyOrderCap) := by
  have hok : CyclesOk s := exec_invariant (fun _ _ _ hold hstep => hold.step hstep) h h0.cyclesOk
  have hok' : CyclesOk s' := hok.step hs
  refine ⟨?_, ?_, ?_, hok'.apart, ?_, hok'.cap⟩
  · intro hsome hmode
    rcases BillingRun.cycleStep hs with ⟨-, hkept⟩ | ⟨hadvances, -⟩
    · exact absurd (hkept hsome) hmode
    · exact hadvances
  · intro hreset
    rcases BillingRun.cycleStep hs with ⟨hkept, -⟩ | ⟨hadvances, -⟩
    · exact absurd hkept hreset
    · exact hadvances
  · intro hadvances
    rcases BillingRun.cycleStep hs with ⟨hkept, -⟩ | ⟨-, hmode⟩
    · obtain ⟨r', hr', hlt⟩ := hadvances
      rw [hkept] at hr'
      exact absurd (hlt r' hr') (lt_irrefl r')
    · rw [hmode, hok.requested]
  · intro hsome
    obtain ⟨r, hr⟩ := Option.isSome_iff_exists.mp hsome
    exact (hok'.running r hr).2

/-- A merchant as it is created. -/
def newMerchant : Merchant where
  id := 1
  payoutEvmXpub := "xpub"
  nextEvmIndex := 0
  payoutSolanaAddress := none
  webhookUrl := none
  webhookSecret := "5e"
  billingMode := .flat
  pendingBillingMode := none
  billingCycleResetAt := none
  monthlyVolumeUsd := 0
  volumeFeePaidUsd := 0
  solanaUsdcConsumed := 0
  solanaUsdtConsumed := 0
  plan := .free
  planExpiresAt := none
  monthlyOrderCount := 0

/-- Its history so far. -/
def newRun (m : Merchant) : BillingRun where
  merchant := m
  clock := 0
  advances := []
  requested := none
  created := 0
  createdFree := 0
  lapsed := []
  confirmed := 0
  paid := 0

/-- A checkout of $10 at a time. -/
def sampleCheckout (now : Timestamp) : BillingEvent :=
  .createOrder
    { id := 1
      amountUsd := ⟨1000, by decide⟩
      orderReference := none
      description := none
      checkedAt := now
      orderedAt := now
      createdAt := now } true

/-- A switch that is requested in the first cycle is applied by the first checkout after it. -/
theorem billing_cycles_switch : ∃ s s',
    exec (BillingRun.step fun _ _ => some "0x") (newRun newMerchant)
      [sampleCheckout 0, .setBillingMode "volume", sampleCheckout 1] = some s ∧
    s.step (fun _ _ => some "0x") (sampleCheckout monthlyReset) = some s' ∧
    s.merchant.billingMode = .flat ∧ s'.merchant.billingMode = .volume := by
  have hrun : ((exec (BillingRun.step fun _ _ => some "0x") (newRun newMerchant)
      [sampleCheckout 0, .setBillingMode "volume", sampleCheckout 1]).bind fun s =>
        (s.step (fun _ _ => some "0x") (sampleCheckout monthlyReset)).map fun s' =>
          (s.merchant.billingMode, s.requested, s.merchant.billingCycleResetAt,
            s'.merchant.billingCycleResetAt)) =
      some (.flat, some .volume, some monthlyReset, some (monthlyReset + monthlyReset)) := by
    decide +kernel
  obtain ⟨s, hs, hrun⟩ := Option.bind_eq_some_iff.mp hrun
  obtain ⟨s', hs', he⟩ := Option.map_eq_some_iff.mp hrun
  simp only [Prod.mk.injEq] at he
  obtain ⟨hmode, hrequested, hreset, hreset'⟩ := he
  obtain ⟨-, hadvances, hswitch, -⟩ :=
    billing_cycles ⟨rfl, rfl, rfl, rfl, rfl, rfl⟩ hs hs'
  refine ⟨s, s', hs, hs', hmode, ?_⟩
  rw [hswitch (hadvances ?_), hrequested, Option.getD_some]
  rw [hreset, hreset']
  decide

end Gateway
