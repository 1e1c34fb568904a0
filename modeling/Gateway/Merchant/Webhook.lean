import Gateway.Foundations.Binary64
import Gateway.Foundations.Calendar
import Gateway.Foundations.JsonText
import Gateway.Merchant.Records

/-!
# The webhook of a paid order

`deliver_webhook` posts a JSON text about an order to its merchant, with an HMAC of the text under
the merchant's secret in a header. Here is what it posts (`webhookRequest`), and a receiver that
knows JSON and nothing of the gateway (`readWebhook`). What the receiver reads about a paid order is
what the order says (`readWebhook_payload`): its identifier, reference, amount, asset, chain and
moment exactly, and the amount that was paid exactly as well if it has at most fifteen digits, and
otherwise up to a relative error of `2 ^ -51`, since it is sent as a float.
-/

namespace Gateway

open Foundations

/-! ## What is posted -/

/-- The texts of `paid_asset`. -/
def Asset.text : Asset → String
  | .usdc => "USDC"
  | .usdt => "USDT"

/-- The texts of `paid_chain`; those of the EVM chains are from `_CHAIN_DISPLAY_NAME`. -/
def PaidChain.text : PaidChain → String
  | .evm .ethereum => "ethereum"
  | .evm .bsc => "bsc"
  | .evm .polygon => "polygon"
  | .solana => "solana"

/-- `float(x)`. -/
def jsonFloat (x : ℚ) : Json := .float (Binary64.ofRat x)

/-- The payload of `deliver_webhook`. -/
def MerchantOrder.webhookPayload (order : MerchantOrder) : Json :=
  .obj
    [("event", .str "checkout.confirmed"),
      ("order_id", .str (String.ofList (Bytes.uuidText order.id))),
      ("order_reference", order.orderReference.elim .null .str),
      ("amount_usd", jsonFloat order.amountUsd.value),
      ("paid_amount", order.paidAmount.elim .null jsonFloat),
      ("paid_asset", order.paidAsset.elim .null fun asset => .str asset.text),
      ("paid_chain", order.paidChain.elim .null fun chain => .str chain.text),
      ("paid_at", order.paidAt.elim .null fun t => .str (String.ofList (Calendar.isoformat t)))]

section Sign

variable (hmacSha256 : (key data : Bytes) → Bytes)

/-- `sign_webhook_payload`. -/
def signWebhookPayload (secret : String) (payloadJson : List Char) : List Char :=
  Bytes.hex (hmacSha256 secret.toUTF8.toList (String.ofList payloadJson).toUTF8.toList)

/-- The request that `deliver_webhook` posts. -/
structure WebhookRequest where
  url : String
  content : List Char
  headers : List (String × List Char)

/-- The request about an order, if its merchant has a URL for it. -/
def webhookRequest (merchant : Merchant) (order : MerchantOrder) : Option WebhookRequest :=
  if merchant.webhookUrl.getD "" = "" then none
  else
    let payloadJson := JsonText.dumps order.webhookPayload
    some
      { url := merchant.webhookUrl.getD ""
        content := payloadJson
        headers := [("Content-Type", "application/json".toList),
          ("X-Zynost-Signature",
            signWebhookPayload hmacSha256 merchant.webhookSecret payloadJson)] }

end Sign

/-! ## What is read -/

/-- What a merchant's server learns from a webhook. -/
structure WebhookNotice where
  orderId : OrderId
  orderReference : Option String
  amountUsd : ℚ
  paidAmount : ℚ
  paidAsset : Asset
  paidChain : PaidChain
  paidAt : Timestamp
  deriving DecidableEq

/-- The members of a JSON text that is an object. -/
def readMembers (content : List Char) : Option (List (String × Doc)) :=
  match JsonText.read content with
  | some (.object members) => some members
  | _ => none

/-- The member is a text. -/
def textAt (key : String) (members : List (String × Doc)) : Option String :=
  match members.lookup key with
  | some (.string s) => some s
  | _ => none

/-- The member is a number. -/
def numberAt (key : String) (members : List (String × Doc)) : Option ℚ :=
  match members.lookup key with
  | some (.number q) => some q
  | _ => none

/-- The member is a text or null. -/
def nullableTextAt (key : String) (members : List (String × Doc)) : Option (Option String) :=
  match members.lookup key with
  | some .null => some none
  | some (.string s) => some (some s)
  | _ => none

/-- The asset of this name. -/
def Asset.ofText? (s : String) : Option Asset := [.usdc, .usdt].find? fun asset => asset.text = s

/-- The chain of this name. -/
def PaidChain.ofText? (s : String) : Option PaidChain :=
  [.evm .ethereum, .evm .bsc, .evm .polygon, .solana].find? fun chain => chain.text = s

/-- The notice in the content of a webhook about a confirmed checkout. -/
def readWebhook (content : List Char) : Option WebhookNotice := do
  let members ← readMembers content
  let event ← textAt "event" members
  if event ≠ "checkout.confirmed" then none else
  return {
    orderId := ← (textAt "order_id" members).bind fun s => Bytes.readUuid s.toList
    orderReference := ← nullableTextAt "order_reference" members
    amountUsd := ← numberAt "amount_usd" members
    paidAmount := ← numberAt "paid_amount" members
    paidAsset := ← (textAt "paid_asset" members).bind Asset.ofText?
    paidChain := ← (textAt "paid_chain" members).bind PaidChain.ofText?
    paidAt := ← (textAt "paid_at" members).bind fun s => Calendar.readMoment s.toList }

/-! ## What is posted is read -/

theorem Asset.ofText?_text (asset : Asset) : Asset.ofText? asset.text = some asset := by
  cases asset <;> rfl

theorem PaidChain.ofText?_text (chain : PaidChain) : PaidChain.ofText? chain.text = some chain := by
  rcases chain with (_ | _ | _) | _ <;> rfl

/-- **An amount of cents is sent exactly.** -/
theorem value?_ofRat_numeric (x : Numeric 10 2) :
    (Binary64.ofRat x.value).value? = some x.value :=
  Binary64.value?_ofRat_cents (x.bound.trans (by norm_num))

/-- What a receiver reads about a paid order, whose amount is sent as the number `v`. -/
theorem readWebhook_payload {o : MerchantOrder} {chain : PaidChain} {asset : Asset} {amount v : ℚ}
    {t : Timestamp} (hid : o.id < 2 ^ 128) (hchain : o.paidChain = some chain)
    (hasset : o.paidAsset = some asset) (hamount : o.paidAmount = some amount)
    (hat : o.paidAt = some t) (ht : Calendar.InRange t)
    (hv : (Binary64.ofRat amount).value? = some v) :
    readWebhook (JsonText.dumps o.webhookPayload) = some
      { orderId := o.id
        orderReference := o.orderReference
        amountUsd := o.amountUsd.value
        paidAmount := v
        paidAsset := asset
        paidChain := chain
        paidAt := t } := by
  have hreference : ∃ d, JsonText.doc? (o.orderReference.elim .null .str) = some d ∧
      ∀ {key members}, members.lookup key = some d →
        nullableTextAt key members = some o.orderReference := by
    cases o.orderReference with
    | none => exact ⟨.null, rfl, fun h => by simp [nullableTextAt, h]⟩
    | some s => exact ⟨.string s, rfl, fun h => by simp [nullableTextAt, h]⟩
  obtain ⟨d, hd, hread⟩ := hreference
  have hdoc : JsonText.doc? o.webhookPayload = some (.object
      [("event", .string "checkout.confirmed"),
        ("order_id", .string (String.ofList (Bytes.uuidText o.id))),
        ("order_reference", d),
        ("amount_usd", .number o.amountUsd.value),
        ("paid_amount", .number v),
        ("paid_asset", .string asset.text),
        ("paid_chain", .string chain.text),
        ("paid_at", .string (String.ofList (Calendar.isoformat t)))]) := by
    simp [MerchantOrder.webhookPayload, JsonText.doc?, JsonText.docMembers?, hd, hchain, hasset,
      hamount, hat, jsonFloat, hv, value?_ofRat_numeric]
  simp only [readWebhook, readMembers, JsonText.read_dumps hdoc]
  simp [textAt, numberAt, List.lookup, Bytes.readUuid_uuidText hid, Asset.ofText?_text,
    PaidChain.ofText?_text, Calendar.readMoment_isoformat ht]
  rw [hread, Option.bind_some]
  rfl

end Gateway
