import Gateway.Foundations.Numeric
import Gateway.Foundations.Tables

/-!
# Merchants and their orders

The rows of the tables `merchants` and `merchant_orders`, with the columns that the payment,
billing and checkout code reads or writes, and the write-back of a session's copies of them.
A flush stores the changed columns of a row at the scale of their types (`MerchantOrder.write`,
`Merchant.write`) and is an error when a changed number does not fit (`MerchantOrder.fits`,
`Merchant.fits`).

An order that was paid on Solana carries its claim in its columns (`MerchantOrder.claimed`); a
merchant carries, per asset, the total of such claims (`Merchant.consumed`).
-/

namespace Gateway

open Foundations

/-- The key of an order; a UUID in the table. -/
abbrev OrderId := ℕ

/-- The key of a merchant; a UUID in the table. -/
abbrev MerchantId := ℕ

/-- Microseconds since the epoch. -/
abbrev Timestamp := ℤ

/-- The stablecoins that are accepted. -/
inductive Asset
  | usdc
  | usdt
  deriving DecidableEq

/-- The EVM chains, under the names that `paid_chain` shows. -/
inductive EvmChain
  | ethereum
  | bsc
  | polygon
  deriving DecidableEq

/-- The chain that an order was paid on. -/
inductive PaidChain
  | evm (chain : EvmChain)
  | solana
  deriving DecidableEq

/-- The `status` of an order. -/
inductive Status
  | pending
  | paid
  | expired
  deriving DecidableEq

/-- The `billing_mode` of a merchant. -/
inductive BillingMode
  | flat
  | volume
  deriving DecidableEq

/-- The `plan` of a merchant. -/
inductive Plan
  | free
  | pro
  deriving DecidableEq

/-- A row of `merchant_orders`. -/
structure MerchantOrder where
  id : OrderId
  merchantId : MerchantId
  orderReference : Option String
  description : Option String
  amountUsd : Numeric 10 2
  evmDerivationIndex : ℤ
  evmAddress : String
  solanaAddress : Option String
  status : Status
  paidChain : Option PaidChain
  paidAsset : Option Asset
  paidAmount : Option ℚ
  paidAt : Option Timestamp
  webhookDeliveredAt : Option Timestamp
  expiresAt : Timestamp
  createdAt : Timestamp
  deriving DecidableEq

/-- A row of `merchants`. -/
structure Merchant where
  id : MerchantId
  payoutEvmXpub : String
  nextEvmIndex : ℤ
  payoutSolanaAddress : Option String
  webhookUrl : Option String
  webhookSecret : String
  billingMode : BillingMode
  pendingBillingMode : Option BillingMode
  billingCycleResetAt : Option Timestamp
  monthlyVolumeUsd : ℚ
  volumeFeePaidUsd : ℚ
  solanaUsdcConsumed : ℚ
  solanaUsdtConsumed : ℚ
  plan : Plan
  planExpiresAt : Option Timestamp
  monthlyOrderCount : ℤ
  deriving DecidableEq

instance : Keyed MerchantOrder OrderId := ⟨MerchantOrder.id⟩

instance : Keyed Merchant MerchantId := ⟨Merchant.id⟩

@[simp] theorem key_order (o : MerchantOrder) : Keyed.key o = o.id := rfl

@[simp] theorem key_merchant (m : Merchant) : Keyed.key m = m.id := rfl

/-! ## Watermarks -/

namespace Merchant

/-- The watermark of an asset. -/
def consumed (m : Merchant) : Asset → ℚ
  | .usdc => m.solanaUsdcConsumed
  | .usdt => m.solanaUsdtConsumed

/-- Assign the watermark of an asset. -/
def setConsumed (m : Merchant) (q : ℚ) : Asset → Merchant
  | .usdc => { m with solanaUsdcConsumed := q }
  | .usdt => { m with solanaUsdtConsumed := q }

@[simp] theorem setConsumed_id (m : Merchant) (q : ℚ) (a : Asset) :
    (m.setConsumed q a).id = m.id := by
  cases a <;> rfl

theorem consumed_setConsumed (m : Merchant) (q : ℚ) (a b : Asset) :
    (m.setConsumed q a).consumed b = if b = a then q else m.consumed b := by
  cases a <;> cases b <;> rfl

end Merchant

/-- The merchant, asset and amount of the Solana payment that an order records. -/
def MerchantOrder.claimed (o : MerchantOrder) : List ((MerchantId × Asset) × ℚ) :=
  match o.paidChain, o.paidAsset, o.paidAmount with
  | some .solana, some asset, some amount => [((o.merchantId, asset), amount)]
  | _, _, _ => []

/-! ## Flushing a session's copy -/

namespace MerchantOrder

/-- The stored order after a session's copy of it has been flushed. -/
def write (t : Tracked MerchantOrder) (stored : MerchantOrder) : MerchantOrder :=
  { stored with
    status := writeBack t.base.status t.cur.status stored.status
    paidChain := writeBack t.base.paidChain t.cur.paidChain stored.paidChain
    paidAsset := writeBack t.base.paidAsset t.cur.paidAsset stored.paidAsset
    paidAmount := writeBackAs (Option.map (storeNumeric 10)) t.base.paidAmount t.cur.paidAmount
      stored.paidAmount
    paidAt := writeBack t.base.paidAt t.cur.paidAt stored.paidAt
    webhookDeliveredAt := writeBack t.base.webhookDeliveredAt t.cur.webhookDeliveredAt
      stored.webhookDeliveredAt }

/-- Do the changed numbers of a copy fit their columns? -/
def fits (t : Tracked MerchantOrder) : Bool :=
  checkBack (fun q => q.all (fitsNumeric 24 10)) t.base.paidAmount t.cur.paidAmount

@[simp] theorem write_id (t : Tracked MerchantOrder) (stored : MerchantOrder) :
    (write t stored).id = stored.id := rfl

@[simp] theorem write_merchantId (t : Tracked MerchantOrder) (stored : MerchantOrder) :
    (write t stored).merchantId = stored.merchantId := rfl

@[simp] theorem write_amountUsd (t : Tracked MerchantOrder) (stored : MerchantOrder) :
    (write t stored).amountUsd = stored.amountUsd := rfl

/-- A copy without changes writes nothing. -/
theorem write_of_clean {t : Tracked MerchantOrder} (h : t.cur = t.base)
    (stored : MerchantOrder) : write t stored = stored := by
  simp [write, h]

theorem fits_of_clean {t : Tracked MerchantOrder} (h : t.cur = t.base) : fits t := by
  simp [fits, h]

end MerchantOrder

namespace Merchant

/-- The stored merchant after a session's copy of it has been flushed. -/
def write (t : Tracked Merchant) (stored : Merchant) : Merchant :=
  { stored with
    billingMode := writeBack t.base.billingMode t.cur.billingMode stored.billingMode
    pendingBillingMode := writeBack t.base.pendingBillingMode t.cur.pendingBillingMode
      stored.pendingBillingMode
    billingCycleResetAt := writeBack t.base.billingCycleResetAt t.cur.billingCycleResetAt
      stored.billingCycleResetAt
    monthlyVolumeUsd := writeBackAs (storeNumeric 2) t.base.monthlyVolumeUsd t.cur.monthlyVolumeUsd
      stored.monthlyVolumeUsd
    volumeFeePaidUsd := writeBackAs (storeNumeric 2) t.base.volumeFeePaidUsd t.cur.volumeFeePaidUsd
      stored.volumeFeePaidUsd
    solanaUsdcConsumed := writeBackAs (storeNumeric 10) t.base.solanaUsdcConsumed
      t.cur.solanaUsdcConsumed stored.solanaUsdcConsumed
    solanaUsdtConsumed := writeBackAs (storeNumeric 10) t.base.solanaUsdtConsumed
      t.cur.solanaUsdtConsumed stored.solanaUsdtConsumed
    plan := writeBack t.base.plan t.cur.plan stored.plan
    monthlyOrderCount := writeBack t.base.monthlyOrderCount t.cur.monthlyOrderCount
      stored.monthlyOrderCount
    nextEvmIndex := writeBack t.base.nextEvmIndex t.cur.nextEvmIndex stored.nextEvmIndex }

/-- Do the changed numbers of a copy fit their columns? -/
def fits (t : Tracked Merchant) : Bool :=
  checkBack (fitsNumeric 24 10) t.base.solanaUsdcConsumed t.cur.solanaUsdcConsumed &&
    checkBack (fitsNumeric 24 10) t.base.solanaUsdtConsumed t.cur.solanaUsdtConsumed &&
    checkBack (fitsNumeric 14 2) t.base.monthlyVolumeUsd t.cur.monthlyVolumeUsd

@[simp] theorem write_id (t : Tracked Merchant) (stored : Merchant) :
    (write t stored).id = stored.id := rfl

/-- A copy without changes writes nothing. -/
theorem write_of_clean {t : Tracked Merchant} (h : t.cur = t.base) (stored : Merchant) :
    write t stored = stored := by
  simp [write, h]

theorem fits_of_clean {t : Tracked Merchant} (h : t.cur = t.base) : fits t := by
  simp [fits, h]

theorem consumed_write (t : Tracked Merchant) (stored : Merchant) (a : Asset) :
    (write t stored).consumed a =
      writeBackAs (storeNumeric 10) (t.base.consumed a) (t.cur.consumed a) (stored.consumed a) := by
  cases a <;> rfl

theorem fits_iff {t : Tracked Merchant} : fits t ↔
    (∀ a, checkBack (fitsNumeric 24 10) (t.base.consumed a) (t.cur.consumed a)) ∧
      checkBack (fitsNumeric 14 2) t.base.monthlyVolumeUsd t.cur.monthlyVolumeUsd := by
  simp only [fits, Bool.and_eq_true]
  constructor
  · rintro ⟨⟨husdc, husdt⟩, hvol⟩
    refine ⟨fun a => ?_, hvol⟩
    cases a
    · exact husdc
    · exact husdt
  · rintro ⟨hmarks, hvol⟩
    exact ⟨⟨hmarks .usdc, hmarks .usdt⟩, hvol⟩

theorem checkBack_of_fits {t : Tracked Merchant} (h : fits t) (a : Asset) :
    checkBack (fitsNumeric 24 10) (t.base.consumed a) (t.cur.consumed a) :=
  (fits_iff.mp h).1 a

/-- A watermark that can be stored on top of one in the range of its column is in the range too. -/
theorem lt_of_fits {t : Tracked Merchant} (h : fits t) {a : Asset}
    (hbase : t.base.consumed a < 10 ^ 14) : t.cur.consumed a < 10 ^ 14 := by
  have hcheck := checkBack_of_fits h a
  by_contra hge
  have hdirty : t.cur.consumed a ≠ t.base.consumed a := by
    intro he
    exact hge (he ▸ hbase)
  rw [checkBack_dirty hdirty, not_fitsNumeric (by norm_num) (not_lt.mp hge)] at hcheck
  cases hcheck

end Merchant

end Gateway
