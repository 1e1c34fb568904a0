import Gateway.Merchant.Records

/-!
# Billing cycles and the creation of orders

`ensureBillingCycleCurrent` is the lazy monthly rollover that the checkout and, for volume-billed
merchants, the confirmation of an order run before they touch the counters; `setBillingMode` queues
a switch of the mode for it. `createOrder` is one checkout on a merchant row that nobody else
writes: the rollover and the quota, the reserved index, the count, and the order built from them.
The parts have names of their own because concurrent checkouts interleave between them.
-/

namespace Gateway

open Foundations

/-- `timedelta(days=_MONTHLY_RESET_DAYS)`. -/
def monthlyReset : Timestamp := 30 * 24 * 60 * 60 * 1000000

/-- `_ORDER_LIFETIME`: 45 minutes. -/
def orderLifetime : Timestamp := 45 * 60 * 1000000

/-- `FREE_MONTHLY_ORDER_CAP`. -/
def freeMonthlyOrderCap : ℤ := 50

namespace Merchant

/-- Has the billing cycle ended, or has none begun? -/
def cycleOver (now : Timestamp) (m : Merchant) : Bool :=
  match m.billingCycleResetAt with
  | none => true
  | some resetAt => resetAt ≤ now

/-- Start the next billing cycle, in the mode that was queued for it. -/
def startCycle (now : Timestamp) (m : Merchant) : Merchant :=
  { m with
    billingMode := m.pendingBillingMode.getD m.billingMode
    pendingBillingMode := none
    monthlyOrderCount := 0
    monthlyVolumeUsd := 0
    volumeFeePaidUsd := 0
    billingCycleResetAt := some (now + monthlyReset) }

/-- Has a paid plan lapsed? -/
def planLapsed (now : Timestamp) (m : Merchant) : Bool :=
  m.plan = .pro &&
    match m.planExpiresAt with
    | none => false
    | some expiresAt => expiresAt ≤ now

/-- The monthly rollover, when it is due. -/
def rollOver (now : Timestamp) (m : Merchant) : Merchant :=
  if m.cycleOver now then m.startCycle now else m

/-- The fall back of a lapsed plan to the free one. -/
def lapsePlan (now : Timestamp) (m : Merchant) : Merchant :=
  if m.planLapsed now then { m with plan := .free } else m

/-- `_ensure_billing_cycle_current`. -/
def ensureBillingCycleCurrent (now : Timestamp) (m : Merchant) : Merchant :=
  (m.rollOver now).lapsePlan now

@[simp] theorem rollOver_id (now : Timestamp) (m : Merchant) : (m.rollOver now).id = m.id := by
  unfold rollOver
  split_ifs <;> rfl

@[simp] theorem lapsePlan_id (now : Timestamp) (m : Merchant) : (m.lapsePlan now).id = m.id := by
  unfold lapsePlan
  split_ifs <;> rfl

@[simp] theorem ensureBillingCycleCurrent_id (now : Timestamp) (m : Merchant) :
    (m.ensureBillingCycleCurrent now).id = m.id := by
  simp [ensureBillingCycleCurrent]

@[simp] theorem nextEvmIndex_ensureBillingCycleCurrent (now : Timestamp) (m : Merchant) :
    (m.ensureBillingCycleCurrent now).nextEvmIndex = m.nextEvmIndex := by
  unfold ensureBillingCycleCurrent lapsePlan rollOver
  split_ifs <;> rfl

@[simp] theorem webhookSecret_ensureBillingCycleCurrent (now : Timestamp) (m : Merchant) :
    (m.ensureBillingCycleCurrent now).webhookSecret = m.webhookSecret := by
  unfold ensureBillingCycleCurrent lapsePlan rollOver
  split_ifs <;> rfl

@[simp] theorem payoutEvmXpub_ensureBillingCycleCurrent (now : Timestamp) (m : Merchant) :
    (m.ensureBillingCycleCurrent now).payoutEvmXpub = m.payoutEvmXpub := by
  unfold ensureBillingCycleCurrent lapsePlan rollOver
  split_ifs <;> rfl

@[simp] theorem consumed_rollOver (now : Timestamp) (m : Merchant) (a : Asset) :
    (m.rollOver now).consumed a = m.consumed a := by
  unfold rollOver
  cases a <;> split_ifs <;> rfl

@[simp] theorem consumed_lapsePlan (now : Timestamp) (m : Merchant) (a : Asset) :
    (m.lapsePlan now).consumed a = m.consumed a := by
  unfold lapsePlan
  cases a <;> split_ifs <;> rfl

/-- The rollover leaves the watermarks alone. -/
@[simp] theorem consumed_ensureBillingCycleCurrent (now : Timestamp) (m : Merchant) (a : Asset) :
    (m.ensureBillingCycleCurrent now).consumed a = m.consumed a := by
  simp [ensureBillingCycleCurrent]

theorem rollOver_setConsumed (now : Timestamp) (q : ℚ) (b : Asset) (m : Merchant) :
    (m.setConsumed q b).rollOver now = (m.rollOver now).setConsumed q b := by
  have hcycle : (m.setConsumed q b).cycleOver now = m.cycleOver now := by cases b <;> rfl
  unfold rollOver
  rw [hcycle]
  split_ifs
  · cases b <;> rfl
  · rfl

theorem lapsePlan_setConsumed (now : Timestamp) (q : ℚ) (b : Asset) (m : Merchant) :
    (m.setConsumed q b).lapsePlan now = (m.lapsePlan now).setConsumed q b := by
  have hlapsed : (m.setConsumed q b).planLapsed now = m.planLapsed now := by cases b <;> rfl
  unfold lapsePlan
  rw [hlapsed]
  split_ifs
  · cases b <;> rfl
  · rfl

/-- Does the free plan's allowance for the cycle leave no room for an order? -/
def quotaExceeded (m : Merchant) : Bool :=
  m.billingMode = .flat && m.plan = .free && freeMonthlyOrderCap ≤ m.monthlyOrderCount

end Merchant

/-- The billing modes by their names. -/
def billingModes : List (String × BillingMode) := [("flat", .flat), ("volume", .volume)]

/-- `set_billing_mode`; an error is the text of the `InvalidBillingModeError`. -/
def setBillingMode (mode : String) (m : Merchant) : Except String Merchant :=
  match billingModes.lookup mode with
  | none => .error "billing_mode must be one of ['flat', 'volume']."
  | some mode =>
    -- asking for the current mode cancels a switch
    if mode = m.billingMode then .ok { m with pendingBillingMode := none }
    else if m.billingCycleResetAt.isNone then .ok { m with billingMode := mode }
    else .ok { m with pendingBillingMode := some mode }

/-- `VOLUME_FEE_RATE`. -/
def volumeFeeRate : ℚ := 3 / 1000

/-- `fee_owed_usd`, before it is rounded to cents. -/
def feeOwedUsd (m : Merchant) : ℚ :=
  if m.billingMode ≠ .volume then 0
  else max 0 (m.monthlyVolumeUsd * volumeFeeRate - m.volumeFeePaidUsd)

/-- What a checkout asks for, with the clock readings and the identifier it draws. -/
structure CheckoutRequest where
  id : OrderId
  amountUsd : Numeric 10 2
  orderReference : Option String
  description : Option String
  /-- The clock in `_ensure_billing_cycle_current`. -/
  checkedAt : Timestamp
  /-- The clock from which the order's lifetime runs. -/
  orderedAt : Timestamp
  createdAt : Timestamp
  deriving DecidableEq

/-- Why a checkout fails. -/
inductive CheckoutError
  | quotaExceeded (message : String)
  /-- The receive address cannot be derived. -/
  | derivation
  deriving DecidableEq

/-- The text of the `QuotaExceededError`. -/
def quotaMessage : String :=
  "Free plan limit reached (50 orders/month). " ++
    "Upgrade to keep accepting payments without interruption."

/-- The first part of `create_order`: the rollover and the quota. -/
def checkQuota (req : CheckoutRequest) (m : Merchant) : Except CheckoutError Merchant :=
  let m := m.ensureBillingCycleCurrent req.checkedAt
  if m.quotaExceeded then .error (.quotaExceeded quotaMessage) else .ok m

/-- The in-memory changes of `create_order` once the statement has returned `newValue`. -/
def countOrder (newValue : ℤ) (m : Merchant) : Merchant :=
  { m with nextEvmIndex := newValue, monthlyOrderCount := m.monthlyOrderCount + 1 }

/-- The order that `create_order` adds. -/
def newOrder (req : CheckoutRequest) (m : Merchant) (index : ℤ) (evmAddress : String) :
    MerchantOrder where
  id := req.id
  merchantId := m.id
  orderReference := req.orderReference
  description := req.description
  amountUsd := req.amountUsd
  evmDerivationIndex := index
  evmAddress := evmAddress
  solanaAddress := m.payoutSolanaAddress
  status := .pending
  paidChain := none
  paidAsset := none
  paidAmount := none
  paidAt := none
  webhookDeliveredAt := none
  expiresAt := req.orderedAt + orderLifetime
  createdAt := req.createdAt

/-- `create_order` on a merchant row that no other transaction writes. -/
def createOrder (deriveEvmAddress : ℤ → String → Option String) (req : CheckoutRequest)
    (m : Merchant) : Except CheckoutError (Merchant × MerchantOrder) := do
  let m ← checkQuota req m
  let index := m.nextEvmIndex
  let m := countOrder (index + 1) m
  match deriveEvmAddress index m.payoutEvmXpub with
  | none => .error .derivation
  | some evmAddress => .ok (m, newOrder req m index evmAddress)

theorem checkQuota_ok {req : CheckoutRequest} {m m' : Merchant} (h : checkQuota req m = .ok m') :
    m' = m.ensureBillingCycleCurrent req.checkedAt ∧ m'.quotaExceeded = false := by
  unfold checkQuota at h
  by_cases hq : (m.ensureBillingCycleCurrent req.checkedAt).quotaExceeded
  · simp [hq] at h
  · simp only [hq] at h
    cases h
    exact ⟨rfl, by simpa using hq⟩

/-- **What a checkout does** when it succeeds: within the quota of the current cycle it derives the
address at the merchant's next index, and counts the order. -/
theorem createOrder_eq_ok {deriveEvmAddress : ℤ → String → Option String} {req : CheckoutRequest}
    {m m' : Merchant} {o : MerchantOrder} : createOrder deriveEvmAddress req m = .ok (m', o) ↔
      (m.ensureBillingCycleCurrent req.checkedAt).quotaExceeded = false ∧
      m' = countOrder (m.nextEvmIndex + 1) (m.ensureBillingCycleCurrent req.checkedAt) ∧
      ∃ evmAddress, deriveEvmAddress m.nextEvmIndex m.payoutEvmXpub = some evmAddress ∧
        o = newOrder req m' m.nextEvmIndex evmAddress := by
  unfold createOrder checkQuota
  cases hquota : (m.ensureBillingCycleCurrent req.checkedAt).quotaExceeded with
  | true => simp [hquota, bind, Except.bind]
  | false =>
    have hxpub : (countOrder (m.nextEvmIndex + 1)
        (m.ensureBillingCycleCurrent req.checkedAt)).payoutEvmXpub = m.payoutEvmXpub :=
      m.payoutEvmXpub_ensureBillingCycleCurrent req.checkedAt
    simp only [hquota, Bool.false_eq_true, if_false, bind, Except.bind, true_and, hxpub,
      Merchant.nextEvmIndex_ensureBillingCycleCurrent]
    cases deriveEvmAddress m.nextEvmIndex m.payoutEvmXpub with
    | none => simp
    | some evmAddress =>
      simp only [Except.ok.injEq, Prod.mk.injEq, Option.some.injEq, exists_eq_left']
      constructor
      · rintro ⟨rfl, rfl⟩
        exact ⟨rfl, rfl⟩
      · rintro ⟨rfl, rfl⟩
        exact ⟨rfl, rfl⟩

/-- A checkout that cannot derive its address fails for that index. -/
theorem derivation_of_createOrder {deriveEvmAddress : ℤ → String → Option String}
    {req : CheckoutRequest} {m : Merchant}
    (h : createOrder deriveEvmAddress req m = .error .derivation) :
    deriveEvmAddress m.nextEvmIndex m.payoutEvmXpub = none := by
  cases haddress : deriveEvmAddress m.nextEvmIndex m.payoutEvmXpub with
  | none => rfl
  | some evmAddress =>
    cases hquota : (m.ensureBillingCycleCurrent req.checkedAt).quotaExceeded with
    | true => simp [createOrder, checkQuota, hquota, bind, Except.bind] at h
    | false =>
      rw [createOrder_eq_ok.mpr ⟨hquota, rfl, evmAddress, haddress, rfl⟩] at h
      cases h

end Gateway
