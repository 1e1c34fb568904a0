import Gateway.Merchant.Billing
import Gateway.Settlement.EvmCheck
import Gateway.Foundations.Ledger

/-!
# One order of a poll pass

The body of the loop of `poll_pending_orders`, on the session's copies of an order and of its
merchant: expiry, the two payment checks, and the confirmation of a payment with the billing of a
volume merchant and the webhook. What the chains, the clock and the merchant's server answer
meanwhile is given by `Answers`.
-/

namespace Gateway

open Foundations

/-- What the outside answers while one order is visited. -/
structure Answers where
  /-- The verdict of `check_evm_payment`; `none` when it raises. -/
  evm : Option (Option EvmMatch)
  /-- The reply to the query for a mint; `none` when the request or its parsing raises. -/
  solana : String → Option Json
  /-- The clock in `_ensure_billing_cycle_current`. -/
  clock : Timestamp
  /-- The status of the webhook's response; `none` when the request raises. -/
  webhook : Option ℕ

/-- A payment found by one of the two checks. -/
inductive Payment
  | evm (m : EvmMatch)
  | solana (m : SolanaMatch)

namespace Payment

/-- What `paid_chain` shows. -/
def chain : Payment → PaidChain
  | .evm m => .evm m.chain
  | .solana _ => .solana

/-- What `paid_asset` shows. -/
def asset : Payment → Asset
  | .evm m => m.asset
  | .solana m => m.asset

/-- What `paid_amount` shows. -/
def amount : Payment → ℚ
  | .evm m => m.amount
  | .solana m => m.amount

/-- The claim on the merchant's address that the payment makes. -/
def claim (order : MerchantOrder) : Payment → Option (Claim OrderId (MerchantId × Asset) ℚ)
  | .evm _ => none
  | .solana m =>
    some
      { owner := order.id
        account := (order.merchantId, m.asset)
        amount := m.amount
        balance := m.uiAmount.number? }

end Payment

/-- The two payment checks, EVM first; the outer option says whether one raised. -/
def findPayment (a : Answers) (order : MerchantOrder) (merchant : Option Merchant) :
    Option (Option Payment) :=
  match a.evm, merchant with
  | none, _ => none
  | some (some m), _ => some (some (.evm m))
  | some none, none => some none
  | some none, some merchant =>
    (checkSolanaPayment a.solana order.solanaAddress order.amountUsd.value merchant.consumed).map
      (Option.map .solana)

/-- The order with the payment recorded. -/
def MerchantOrder.markPaid (now : Timestamp) (payment : Payment) (order : MerchantOrder) :
    MerchantOrder :=
  { order with
    status := .paid
    paidChain := some payment.chain
    paidAsset := some payment.asset
    paidAmount := some payment.amount
    paidAt := some now }

/-- The merchant with the claim of a Solana payment on the watermark. -/
def Merchant.claimPayment (payment : Payment) (merchant : Merchant) : Merchant :=
  match payment with
  | .evm _ => merchant
  | .solana m => merchant.setConsumed m.newConsumed m.asset

/-- Count a confirmed amount towards the volume of a volume-billed merchant. -/
def Merchant.bookVolume (clock : Timestamp) (amount : ℚ) (merchant : Merchant) : Merchant :=
  if merchant.billingMode = .volume then
    let merchant := merchant.ensureBillingCycleCurrent clock
    { merchant with monthlyVolumeUsd := merchant.monthlyVolumeUsd + amount }
  else merchant

/-- `deliver_webhook`. -/
def deliverWebhook (merchant : Merchant) (response : Option ℕ) : Bool :=
  if merchant.webhookUrl.getD "" = "" then false
  else
    match response with
    | none => false
    | some statusCode => statusCode < 400

/-- What a confirmed order adds to the volume of its merchant, by the clock that was read then. -/
structure Contribution where
  merchant : MerchantId
  amount : ℚ
  clock : Timestamp
  deriving DecidableEq

/-- What `bookVolume` adds. -/
def Merchant.contribution (clock : Timestamp) (amount : ℚ) (merchant : Merchant) :
    Option Contribution :=
  if merchant.billingMode = .volume then some { merchant := merchant.id, amount, clock } else none

/-- What is remembered of a confirmed order: whether its webhook was delivered, the claim it made,
and its contribution to the volume. -/
structure Confirmation where
  order : OrderId
  delivered : Bool
  claim : Option (Claim OrderId (MerchantId × Asset) ℚ)
  contribution : Option Contribution
  deriving DecidableEq

/-- What a visit does with an order. -/
inductive Visit
  | expired (order : MerchantOrder)
  | unpaid
  | paid (order : MerchantOrder) (merchant : Option Merchant) (confirmation : Confirmation)

/-- The confirmation of a payment. -/
def confirm (now : Timestamp) (a : Answers) (payment : Payment) (order : MerchantOrder)
    (merchant : Option Merchant) : Visit :=
  let order' := order.markPaid now payment
  match merchant with
  | none =>
    .paid order' none
      { order := order.id, delivered := false, claim := none, contribution := none }
  | some merchant =>
    let contribution := merchant.contribution a.clock payment.amount
    let merchant := (merchant.claimPayment payment).bookVolume a.clock payment.amount
    let delivered := deliverWebhook merchant a.webhook
    .paid (if delivered then { order' with webhookDeliveredAt := some now } else order')
      (some merchant)
      { order := order.id, delivered, claim := payment.claim order, contribution }

/-- The body of the loop of `poll_pending_orders` up to the push notification; `none` when it
raises. -/
def visitOrder (now : Timestamp) (a : Answers) (order : MerchantOrder)
    (merchant : Option Merchant) : Option Visit :=
  if order.expiresAt ≤ now then some (.expired { order with status := .expired })
  else
    match findPayment a order merchant with
    | none => none
    | some none => some .unpaid
    | some (some payment) => some (confirm now a payment order merchant)

end Gateway
