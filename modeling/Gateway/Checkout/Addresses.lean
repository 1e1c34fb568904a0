import Gateway.Merchant.Cycles
import Gateway.Wallet.WatchOnly

/-!
# The receive addresses of all orders

Checkouts of any number of merchants, one after the other. An order's address is derived from the
merchant's extended public key at an index that the merchant counts, so no two orders of a merchant
share one. Nothing compares the keys of two merchants: each of them counts from zero, and when they
have the same account, their first orders have the same address. Hence addresses are distinct in
every run exactly when no two merchants have one account (`receive_addresses_distinct_iff`).
-/

namespace Gateway

open Foundations

/-- Does `validate_evm_xpub` return? -/
def validateEvmXpub (lib : Primitives) (xpub : String) : Bool :=
  (parseXpub lib (String.ofList (PyText.strip xpub.toList))).isSome

/-- The tables that checkouts write. -/
structure Shops where
  merchants : Table Merchant
  orders : Table MerchantOrder

/-- A call of `create_order`, with the commit by its caller. -/
structure CheckoutCall where
  merchantId : MerchantId
  request : CheckoutRequest
  /-- When the call is refused, are its changes of the merchant kept? -/
  keep : Bool

namespace Shops

/-- No orders yet. -/
def opened (merchants : Table Merchant) : Shops where
  merchants := merchants
  orders := ⟨[], List.nodup_nil⟩

/-- The tables after the commit of an order. The statements fail when the index is out of the range
of its column, or the identifier of the order is taken. -/
def store (s : Shops) (m : Merchant) (o : MerchantOrder) : Shops :=
  if m.nextEvmIndex < 2 ^ 31 then
    (s.orders.insert? o).elim s fun orders => { merchants := s.merchants.put m, orders }
  else s

/-- One checkout; `none` when there is no such merchant. -/
def step (lib : Primitives) (s : Shops) (call : CheckoutCall) : Option Shops :=
  (s.merchants.find? call.merchantId).map fun m =>
    match createOrder (deriveEvmAddress lib) call.request m with
    | .ok (m', o) => s.store m' o
    | .error (.quotaExceeded _) =>
      if call.keep then
        { s with
          merchants := s.merchants.put (m.ensureBillingCycleCurrent call.request.checkedAt) }
      else s
    | .error .derivation => s

/-- The addresses of the orders that have been created. -/
def addresses (s : Shops) : List String := s.orders.rows.map MerchantOrder.evmAddress

section Derivations

variable (lib : Primitives)

/-- The account and the index that the address of an order is derived from. -/
def derivation (s : Shops) (o : MerchantOrder) : Option ((Bytes × Bytes) × ℤ) :=
  (s.merchants.find? o.merchantId).bind fun m =>
    (parseXpub lib m.payoutEvmXpub).map fun account => (account, o.evmDerivationIndex)

/-- Different accounts and indices have different addresses, as far as they are those of orders. -/
def AddressesDiffer (s : Shops) : Prop :=
  Set.InjOn (fun d => accountAddress lib d.1 d.2)
    {d | d ∈ s.orders.rows.filterMap (s.derivation lib)}

end Derivations

/-! ## What a checkout does -/

variable {lib : Primitives} {ms : Table Merchant} {s s' : Shops} {m m' : Merchant}
  {o : MerchantOrder} {call : CheckoutCall} {address : String}

/-- A checkout leaves the tables as they are, or brings the merchant's billing cycle up to date, or
adds an order at the merchant's next index. -/
theorem step_eq_some (h : s.step lib call = some s') :
    ∃ m, s.merchants.find? call.merchantId = some m ∧
      (s' = s ∨
        s' = { s with
          merchants := s.merchants.put (m.ensureBillingCycleCurrent call.request.checkedAt) } ∨
        ∃ m' o address,
          m' = countOrder (m.nextEvmIndex + 1)
            (m.ensureBillingCycleCurrent call.request.checkedAt) ∧
          deriveEvmAddress lib m.nextEvmIndex m.payoutEvmXpub = some address ∧
          o = newOrder call.request m' m.nextEvmIndex address ∧
          s.orders.insert? o = some s'.orders ∧ s'.merchants = s.merchants.put m') := by
  obtain ⟨m, hm, hs⟩ := Option.map_eq_some_iff.mp h
  refine ⟨m, hm, ?_⟩
  split at hs
  · rename_i m' o hcreate
    obtain ⟨-, hm', address, haddress, ho⟩ := createOrder_eq_ok.mp hcreate
    unfold store at hs
    split_ifs at hs
    · cases hinsert : s.orders.insert? o with
      | none =>
        rw [hinsert] at hs
        exact .inl hs.symm
      | some orders =>
        rw [hinsert] at hs
        obtain rfl := hs
        exact .inr (.inr ⟨m', o, address, hm', haddress, ho, hinsert, rfl⟩)
    · exact .inl hs.symm
  · split_ifs at hs
    · exact .inr (.inl hs.symm)
    · exact .inl hs.symm
  · exact .inl hs.symm

/-! ## The invariant -/

variable (lib ms) in
/-- The extended public keys are those of the merchants `ms`. Each order has the address at an index
below its merchant's `next_evm_index`, no two have one index, and a merchant who has counted any has
an address at index zero. -/
structure Indexed (s : Shops) : Prop where
  xpub : ∀ id, (s.merchants.find? id).map Merchant.payoutEvmXpub =
    (ms.find? id).map Merchant.payoutEvmXpub
  nonneg : ∀ id m, s.merchants.find? id = some m → 0 ≤ m.nextEvmIndex
  first : ∀ id m, s.merchants.find? id = some m → m.nextEvmIndex ≠ 0 →
    (deriveEvmAddress lib 0 m.payoutEvmXpub).isSome
  order : ∀ o ∈ s.orders.rows, ∃ m, s.merchants.find? o.merchantId = some m ∧
    0 ≤ o.evmDerivationIndex ∧ o.evmDerivationIndex < m.nextEvmIndex ∧
    deriveEvmAddress lib o.evmDerivationIndex m.payoutEvmXpub = some o.evmAddress
  nodup : (s.orders.rows.map fun o => (o.merchantId, o.evmDerivationIndex)).Nodup

namespace Indexed

theorem opened (hfresh : ∀ m ∈ ms.rows, m.nextEvmIndex = 0) : Indexed lib ms (opened ms) where
  xpub := fun _ => rfl
  nonneg := fun id m hm => (hfresh m (Table.find?_eq_some.mp hm).1).ge
  first := fun id m hm hne => absurd (hfresh m (Table.find?_eq_some.mp hm).1) hne
  order := by simp [Shops.opened]
  nodup := by simp [Shops.opened]

/-- A merchant's row is written again, with an index that is not lower. -/
theorem put (h : Indexed lib ms s) (hm : s.merchants.find? m'.id = some m)
    (hxpub : m'.payoutEvmXpub = m.payoutEvmXpub) (hle : m.nextEvmIndex ≤ m'.nextEvmIndex)
    (hfirst : m'.nextEvmIndex ≠ 0 → (deriveEvmAddress lib 0 m.payoutEvmXpub).isSome) :
    Indexed lib ms { s with merchants := s.merchants.put m' } where
  xpub := by
    intro id
    rw [← h.xpub id]
    simp only [Table.find?_put, key_merchant]
    split_ifs with hid
    · rw [← hid, hm, Option.map_some, Option.map_some, hxpub]
    · rfl
  nonneg := by
    intro id m₁ hm₁
    simp only [Table.find?_put, key_merchant] at hm₁
    split_ifs at hm₁ with hid
    · obtain rfl := Option.some.inj hm₁
      exact (h.nonneg _ m hm).trans hle
    · exact h.nonneg id m₁ hm₁
  first := by
    intro id m₁ hm₁ hne
    simp only [Table.find?_put, key_merchant] at hm₁
    split_ifs at hm₁ with hid
    · obtain rfl := Option.some.inj hm₁
      rw [hxpub]
      exact hfirst hne
    · exact h.first id m₁ hm₁ hne
  order := by
    intro o ho
    obtain ⟨m₁, hm₁, hnonneg, hlt, haddress⟩ := h.order o ho
    simp only [Table.find?_put, key_merchant]
    split_ifs with hid
    · rw [← hid, hm] at hm₁
      obtain rfl := Option.some.inj hm₁
      exact ⟨m', rfl, hnonneg, hlt.trans_le hle, by rwa [hxpub]⟩
    · exact ⟨m₁, hm₁, hnonneg, hlt, haddress⟩
  nodup := h.nodup

/-- An order is added, at an index that no order of its merchant has. -/
theorem insert (h : Indexed lib ms s) {orders : Table MerchantOrder}
    (hinsert : s.orders.insert? o = some orders)
    (hm : s.merchants.find? o.merchantId = some m) (hnonneg : 0 ≤ o.evmDerivationIndex)
    (hlt : o.evmDerivationIndex < m.nextEvmIndex)
    (haddress : deriveEvmAddress lib o.evmDerivationIndex m.payoutEvmXpub = some o.evmAddress)
    (hnew : ∀ o' ∈ s.orders.rows, o'.merchantId = o.merchantId →
      o'.evmDerivationIndex ≠ o.evmDerivationIndex) :
    Indexed lib ms { s with orders } where
  xpub := h.xpub
  nonneg := h.nonneg
  first := h.first
  order := by
    rw [(Table.insert?_eq_some hinsert).2]
    intro o' ho'
    rcases List.mem_append.mp ho' with ho' | ho'
    · exact h.order o' ho'
    · obtain rfl := List.mem_singleton.mp ho'
      exact ⟨m, hm, hnonneg, hlt, haddress⟩
  nodup := by
    simp only [(Table.insert?_eq_some hinsert).2, List.map_append, List.map_singleton]
    apply h.nodup.append (List.nodup_singleton _)
    rw [List.disjoint_singleton]
    intro hmem
    obtain ⟨o', ho', heq⟩ := List.mem_map.mp hmem
    obtain ⟨hmerchant, hindex⟩ := Prod.mk.inj heq
    exact hnew o' ho' hmerchant hindex

/-- **Every checkout keeps the invariant.** -/
theorem step (h : Indexed lib ms s) (hs : s.step lib call = some s') : Indexed lib ms s' := by
  obtain ⟨m, hm, rfl | rfl | ⟨m', o, address, hm', haddress, ho, hinsert, hmerchants⟩⟩ :=
    step_eq_some hs
  · exact h
  · have hid : (m.ensureBillingCycleCurrent call.request.checkedAt).id = call.merchantId := by
      simpa using (Table.find?_eq_some.mp hm).2
    refine h.put (hid ▸ hm) (by simp) (by simp) fun hne => ?_
    rw [Merchant.nextEvmIndex_ensureBillingCycleCurrent] at hne
    exact h.first _ m hm hne
  · have hmid : m.id = call.merchantId := (Table.find?_eq_some.mp hm).2
    have hid : m'.id = call.merchantId := by
      rw [hm', ← hmid]
      exact m.ensureBillingCycleCurrent_id _
    have hxpub : m'.payoutEvmXpub = m.payoutEvmXpub := by
      rw [hm']
      exact m.payoutEvmXpub_ensureBillingCycleCurrent _
    have hnext : m'.nextEvmIndex = m.nextEvmIndex + 1 := by rw [hm']; rfl
    have hnonneg := h.nonneg _ m hm
    have hput : Indexed lib ms { s with merchants := s.merchants.put m' } := by
      refine h.put (hid ▸ hm) hxpub (by omega) fun _ => ?_
      by_cases hzero : m.nextEvmIndex = 0
      · rw [← hzero, haddress]
        rfl
      · exact h.first _ m hm hzero
    have hs' : s' = { s with merchants := s.merchants.put m', orders := s'.orders } := by
      cases s'
      rw [← hmerchants]
    rw [hs']
    subst ho
    refine hput.insert hinsert (m := m') ?_ hnonneg ?_ ?_ ?_
    · exact (Table.find?_put ..).trans (if_pos rfl)
    · show m.nextEvmIndex < m'.nextEvmIndex
      omega
    · rw [hxpub]
      exact haddress
    · intro o' ho' hmerchant
      obtain ⟨m₁, hm₁, -, hlt, -⟩ := h.order o' ho'
      rw [hmerchant, show (newOrder call.request m' m.nextEvmIndex address).merchantId = m'.id from
        rfl, hid, hm] at hm₁
      obtain rfl := Option.some.inj hm₁
      exact hlt.ne

/-- Where the address of an order comes from. -/
theorem derivation_of_mem (h : Indexed lib ms s) (ho : o ∈ s.orders.rows) :
    ∃ m account, s.merchants.find? o.merchantId = some m ∧ m.nextEvmIndex ≠ 0 ∧
      parseXpub lib m.payoutEvmXpub = some account ∧
      accountAddress lib account o.evmDerivationIndex = some o.evmAddress ∧
      s.derivation lib o = some (account, o.evmDerivationIndex) := by
  obtain ⟨m, hm, hnonneg, hlt, haddress⟩ := h.order o ho
  obtain ⟨account, haccount, haddress⟩ := Option.bind_eq_some_iff.mp haddress
  refine ⟨m, account, hm, by omega, haccount, haddress, ?_⟩
  rw [derivation, hm, Option.bind_some, haccount, Option.map_some]

end Indexed

/-! ## Merchants with one account -/

variable (lib) in
/-- The extended public keys of two merchants have one public key and one chain code, and an address
can be derived from them. -/
def SharedAccount (m m' : Merchant) : Prop :=
  ∃ account, parseXpub lib m.payoutEvmXpub = some account ∧
    parseXpub lib m'.payoutEvmXpub = some account ∧ (accountAddress lib account 0).isSome

/-- The row that a merchant began with. -/
theorem Indexed.exists_first (h : Indexed lib ms s) {id : MerchantId}
    (hm : s.merchants.find? id = some m) :
    ∃ m₀ ∈ ms.rows, m₀.id = id ∧ m₀.payoutEvmXpub = m.payoutEvmXpub := by
  have hxpub := h.xpub id
  rw [hm, Option.map_some] at hxpub
  obtain ⟨m₀, hm₀, heq⟩ := Option.map_eq_some_iff.mp hxpub.symm
  obtain ⟨hmem, hid⟩ := Table.find?_eq_some.mp hm₀
  exact ⟨m₀, hmem, hid, heq⟩

/-- Without a shared account, the addresses are distinct. -/
theorem Indexed.addresses_nodup (h : Indexed lib ms s) (hdiffer : s.AddressesDiffer lib)
    (hshared : ∀ m ∈ ms.rows, ∀ m' ∈ ms.rows, m.id ≠ m'.id → ¬ SharedAccount lib m m') :
    s.addresses.Nodup := by
  refine List.Nodup.map_on (fun o ho o' ho' heq => ?_) (.of_map _ s.orders.nodup)
  obtain ⟨m, account, hm, hne, hparse, haddress, hderivation⟩ := h.derivation_of_mem ho
  obtain ⟨m', account', hm', -, hparse', haddress', hderivation'⟩ := h.derivation_of_mem ho'
  have hsame : (account, o.evmDerivationIndex) = (account', o'.evmDerivationIndex) := by
    apply hdiffer
    · exact List.mem_filterMap.mpr ⟨o, ho, hderivation⟩
    · exact List.mem_filterMap.mpr ⟨o', ho', hderivation'⟩
    · show accountAddress lib account _ = accountAddress lib account' _
      rw [haddress, haddress', heq]
  obtain ⟨rfl, hindex⟩ := Prod.mk.inj hsame
  by_cases hmerchant : o.merchantId = o'.merchantId
  · -- the orders of one merchant differ in their indices
    exact List.inj_on_of_nodup_map h.nodup ho ho' (Prod.ext hmerchant hindex)
  · obtain ⟨m₀, hm₀, hid, hxpub⟩ := h.exists_first hm
    obtain ⟨m₀', hm₀', hid', hxpub'⟩ := h.exists_first hm'
    refine absurd ⟨account, by rw [hxpub, hparse], by rw [hxpub', hparse'], ?_⟩
      (hshared m₀ hm₀ m₀' hm₀' (by rw [hid, hid']; exact hmerchant))
    have hfirst := h.first _ m hm hne
    rwa [deriveEvmAddress, hparse, Option.bind_some] at hfirst

/-- A checkout of a merchant at a time. -/
def callAt (now : Timestamp) (merchantId : MerchantId) (id : OrderId) : CheckoutCall where
  merchantId := merchantId
  request :=
    { id := id
      amountUsd := ⟨2500, by decide⟩
      orderReference := none
      description := none
      checkedAt := now
      orderedAt := now
      createdAt := now }
  keep := false

/-- A new billing cycle has room for an order. -/
theorem quotaExceeded_of_cycleOver {now : Timestamp} (h : m.cycleOver now) :
    (m.ensureBillingCycleCurrent now).quotaExceeded = false := by
  have hcount : (m.ensureBillingCycleCurrent now).monthlyOrderCount = 0 := by
    unfold Merchant.ensureBillingCycleCurrent Merchant.lapsePlan Merchant.rollOver
    rw [if_pos h]
    split_ifs <;> rfl
  simp [Merchant.quotaExceeded, hcount, freeMonthlyOrderCap]

theorem cycleOver_of_le {now : Timestamp} (h : m.billingCycleResetAt.getD 0 ≤ now) :
    m.cycleOver now := by
  unfold Merchant.cycleOver
  cases hreset : m.billingCycleResetAt with
  | none => rfl
  | some resetAt => simpa [hreset] using h

/-- The first checkout of a merchant whose billing cycle is over gets the address at index zero. -/
theorem step_callAt (id : OrderId) {now : Timestamp} (hm : s.merchants.find? m.id = some m)
    (hcycle : m.cycleOver now) (hfresh : m.nextEvmIndex = 0)
    (haddress : deriveEvmAddress lib 0 m.payoutEvmXpub = some address)
    (hid : s.orders.find? id = none) :
    ∃ m' s', s.step lib (callAt now m.id id) = some s' ∧ m'.id = m.id ∧
      s'.merchants = s.merchants.put m' ∧
      s'.orders.rows = s.orders.rows ++ [newOrder (callAt now m.id id).request m' 0 address] := by
  set m' := countOrder (m.nextEvmIndex + 1) (m.ensureBillingCycleCurrent now) with hm'
  set o := newOrder (callAt now m.id id).request m' 0 address with ho
  have hcreate : createOrder (deriveEvmAddress lib) (callAt now m.id id).request m = .ok (m', o) :=
    createOrder_eq_ok.mpr
      ⟨quotaExceeded_of_cycleOver hcycle, rfl, address, by rw [hfresh, haddress], by rw [hfresh]⟩
  have hbound : m'.nextEvmIndex < 2 ^ 31 := by
    show m.nextEvmIndex + 1 < 2 ^ 31
    omega
  cases hinsert : s.orders.insert? o with
  | none =>
    obtain ⟨o', ho'⟩ := Table.insert?_eq_none hinsert
    rw [show Keyed.key o = id from rfl, hid] at ho'
    cases ho'
  | some orders =>
    refine ⟨m', { merchants := s.merchants.put m', orders }, ?_, ?_, rfl, ?_⟩
    · have hfind : s.merchants.find? (callAt now m.id id).merchantId = some m := hm
      rw [step, hfind, Option.map_some, hcreate]
      simp only [store, if_pos hbound, hinsert, Option.elim_some]
    · exact m.ensureBillingCycleCurrent_id now
    · exact (Table.insert?_eq_some hinsert).2

/-- An order of a merchant whose key is that of an account is derived from the account. -/
theorem Indexed.derivation_eq (h : Indexed lib ms s) {account : Bytes × Bytes} (hm : m ∈ ms.rows)
    (hparse : parseXpub lib m.payoutEvmXpub = some account) (ho : o ∈ s.orders.rows)
    (hmerchant : o.merchantId = m.id) :
    s.derivation lib o = some (account, o.evmDerivationIndex) := by
  obtain ⟨m₁, account', hm₁, -, hparse', -, hderivation⟩ := h.derivation_of_mem ho
  have hxpub := h.xpub m.id
  rw [← hmerchant, hm₁, hmerchant, show ms.find? m.id = some m from ms.find?_of_mem hm] at hxpub
  rw [Option.some.inj hxpub, hparse] at hparse'
  obtain rfl := Option.some.inj hparse'
  exact hderivation

/-- **The first orders of two merchants** have the addresses of their accounts at index zero. -/
theorem exec_firstOrders (hfresh : ∀ m ∈ ms.rows, m.nextEvmIndex = 0) (hm : m ∈ ms.rows)
    (hm' : m' ∈ ms.rows) (hne : m.id ≠ m'.id) {account account' : Bytes × Bytes}
    (hparse : parseXpub lib m.payoutEvmXpub = some account)
    (hparse' : parseXpub lib m'.payoutEvmXpub = some account') {address' : String}
    (haddress : accountAddress lib account 0 = some address)
    (haddress' : accountAddress lib account' 0 = some address') (now : Timestamp)
    (hcycle : m.cycleOver now) (hcycle' : m'.cycleOver now) :
    ∃ s, exec (step lib) (opened ms) [callAt now m.id 0, callAt now m'.id 1] = some s ∧
      s.orders.rows.filterMap (s.derivation lib) = [(account, 0), (account', 0)] ∧
      s.addresses = [address, address'] := by
  have hderive : deriveEvmAddress lib 0 m.payoutEvmXpub = some address := by
    rw [deriveEvmAddress, hparse, Option.bind_some, haddress]
  have hderive' : deriveEvmAddress lib 0 m'.payoutEvmXpub = some address' := by
    rw [deriveEvmAddress, hparse', Option.bind_some, haddress']
  obtain ⟨m₁, s₁, hs₁, hid₁, hmerchants₁, horders₁⟩ := step_callAt (s := opened ms) 0
    (ms.find?_of_mem hm) hcycle (hfresh m hm) hderive (by simp [opened, Table.find?])
  have hfind' : s₁.merchants.find? m'.id = some m' := by
    rw [hmerchants₁, Table.find?_put, if_neg (by simpa [hid₁] using hne)]
    exact ms.find?_of_mem hm'
  obtain ⟨m₂, s₂, hs₂, hid₂, -, horders₂⟩ := step_callAt 1 hfind' hcycle' (hfresh m' hm') hderive'
    (by simp [Table.find?, horders₁, opened, newOrder, callAt])
  set o := newOrder (callAt now m.id 0).request m₁ 0 address
  set o' := newOrder (callAt now m'.id 1).request m₂ 0 address'
  have hrows : s₂.orders.rows = [o, o'] := by
    rw [horders₂, horders₁]
    rfl
  have hindexed : Indexed lib ms s₂ := (Indexed.opened hfresh).step hs₁ |>.step hs₂
  have ho := hindexed.derivation_eq hm hparse (o := o) (by simp [hrows]) hid₁
  have ho' := hindexed.derivation_eq hm' hparse' (o := o') (by simp [hrows]) hid₂
  refine ⟨s₂, ?_, ?_, ?_⟩
  · rw [exec_cons, hs₁, Option.bind_some, exec_cons, hs₂, Option.bind_some, exec_nil]
  · rw [hrows, List.filterMap_cons_some ho, List.filterMap_cons_some ho', List.filterMap_nil]
    rfl
  · rw [addresses, hrows]
    rfl

theorem addressesDiffer_of_eq {ds : List ((Bytes × Bytes) × ℤ)}
    (h : s.orders.rows.filterMap (s.derivation lib) = ds)
    (hinj : ∀ d ∈ ds, ∀ d' ∈ ds,
      accountAddress lib d.1 d.2 = accountAddress lib d'.1 d'.2 → d = d') :
    s.AddressesDiffer lib := by
  intro d hd d' hd' heq
  exact hinj d (h ▸ hd) d' (h ▸ hd') heq

end Shops

/-- **Distinct receive addresses.** From merchants that have counted no order yet: in every run of
checkouts no two orders get one address, if the addresses of different accounts and indices differ,
exactly when no two merchants have one account. -/
theorem receive_addresses_distinct_iff (lib : Primitives) {ms : Table Merchant}
    (hfresh : ∀ m ∈ ms.rows, m.nextEvmIndex = 0) :
    (∀ calls s, exec (Shops.step lib) (Shops.opened ms) calls = some s →
        s.AddressesDiffer lib → s.addresses.Nodup) ↔
      ∀ m ∈ ms.rows, ∀ m' ∈ ms.rows, m.id ≠ m'.id → ¬ Shops.SharedAccount lib m m' := by
  constructor
  · rintro hall m hm m' hm' hne ⟨account, hparse, hparse', hsome⟩
    obtain ⟨address, haddress⟩ := Option.isSome_iff_exists.mp hsome
    -- at a time at which both billing cycles are over
    obtain ⟨s, hs, hderivations, haddresses⟩ := Shops.exec_firstOrders hfresh hm hm' hne hparse
      hparse' haddress haddress _ (Shops.cycleOver_of_le (le_max_left _ _))
      (Shops.cycleOver_of_le (le_max_right _ _))
    have hnodup := hall _ s hs (Shops.addressesDiffer_of_eq hderivations (by simp))
    simp [haddresses] at hnodup
  · intro hshared calls s hs hdiffer
    have hindexed : Shops.Indexed lib ms s :=
      exec_invariant (fun _ _ _ h hstep => h.step hstep) hs (.opened hfresh)
    exact hindexed.addresses_nodup hdiffer hshared

/-! ### Two accounts of a wallet -/

/-- An account, and what the libraries compute on the way to its first receive address. -/
structure SampleAccount where
  xpub : String
  /-- The fields of the extended public key, and the digests of its checksum. -/
  header : ℕ
  chaincode : ℕ
  pubkey : ZMod Secp256k1.p × ZMod Secp256k1.p
  checksums : ℕ × ℕ
  privkey : ℕ
  /-- The digests of HMAC-SHA512 at the change level and at the address. -/
  change : ℕ × ℕ
  receive : ℕ × ℕ
  /-- The coordinates of the address's key, and their digest. -/
  point : ZMod Secp256k1.p × ZMod Secp256k1.p
  keccak : ℕ
  address : String

namespace SampleAccount

/-- The public key, compressed, and the chain code. -/
def account (a : SampleAccount) : Bytes × Bytes :=
  ((if a.pubkey.2.val % 2 = 0 then 0x02 else 0x03) :: Bytes.ofNat 32 a.pubkey.1.val,
    Bytes.ofNat 32 a.chaincode)

/-- The private key at the change level. -/
def changeKey (a : SampleAccount) : ℕ := (a.change.1 + a.privkey) % Secp256k1.order

/-- The private key of the address. -/
def receiveKey (a : SampleAccount) : ℕ := (a.receive.1 + a.changeKey) % Secp256k1.order

/-- The digests of HMAC-SHA-512 on the way to the address, by their keys. -/
def hmacs (a : SampleAccount) : List (Bytes × (ℕ × ℕ)) :=
  [(Bytes.ofNat 32 a.chaincode, a.change), (Bytes.ofNat 32 a.change.2, a.receive)]

/-- The digests of SHA-256 in the checksum of the extended key. -/
def sha256s (a : SampleAccount) : List (Bytes × ℕ) :=
  [(Bytes.ofNat 13 a.header ++ a.account.2 ++ a.account.1, a.checksums.1),
    (Bytes.ofNat 32 a.checksums.1, a.checksums.2)]

/-- The digest of keccak in the address. -/
def keccaks (a : SampleAccount) : List (Bytes × ℕ) :=
  [(Bytes.ofNat 32 a.point.1.val ++ Bytes.ofNat 32 a.point.2.val, a.keccak)]

/-- The account `m/44'/60'/0'` of the mnemonic of eleven times "abandon", and "about". -/
def first : SampleAccount where
  xpub := "xpub6DCoCpSuQZB2jawqnGMEPS63ePKWkwWPH4TU45Q7LPXWuNd8TMtVxRrgjtEshuqpK3mdhaWHPFsBngh5" ++
    "GFZaM6si3yZdUsT8ddYM3PwnATt"
  header := 0x0488b21e03d32e450880000000
  chaincode := 0xd882718b7a42806803eeb17f7483f20620611adb88fc943c898dc5aba94c2819
  pubkey :=
    (0xeae4b876a8696134b868f88cc2f51f715f2dbedb7446b8e6edf3d4541c4eb67b,
      0x61ed8eb62af1d433cd11b4f59923ac1f87f328c5673396ee55acc6195d92b320)
  checksums :=
    (0xa1d7c8c5a6f56b9b5333986c84b003bad3ff87e159a325f0b935e43f3782f738,
      0x7376a0031ea3848868c8142b81a27c47a321559aa2de2e4c7383b4a56892db70)
  privkey := 0xe9b91c428e679f857fbfa0203440eaeaabb0ca46d80e70b6aa6250696ac0dfc7
  change :=
    (0xb8e1a688897b7d55346aefc2a3fe1a08c59a711393c76b7bcb4ca4cf891075d4,
      0xc879d136f02003dc804811e42390714ea06448aeaee158c62d65f12a421d988f)
  receive :=
    (0x781969f8fad2fbe3360fc9bb645ca923a2d1817b886b9e2ee513f8bba7ade40e,
      0x736094f4f24b67e838a4b3d23d31d229ca03e00c9bb99ce95da6d86e8b3847b5)
  point :=
    (0x37b0bb7a8288d38ed49a524b5dc98cff3eb5ca824c9f9dc0dfdb3d9cd600f299,
      0xa6179912b7451c09896c4098eca7ce6b2e58330672795e847c4d6af44e024230)
  keccak := 0x515249c905300cbdd29f91a49858effd232b4033e47d90003d41ec34ecaeda94
  address := "0x9858effd232b4033e47d90003d41ec34ecaeda94"

/-- The account `m/44'/60'/1'` of it. -/
def second : SampleAccount where
  xpub := "xpub6DCoCpSuQZB2k9PnGSMK9tinTK8kx3hcv7F4BWwhs5N2wnwGiLg17r9J7j2JcYP9gkip3sC87J1F99Yxe" ++
    "BHGuFMg6ejA8qQEKSuzzaKvqBR"
  header := 0x0488b21e03d32e450880000001
  chaincode := 0x10b33a7331205d4a61fa270f97d00bb3009eabc598bdad20601652fbb8096856
  pubkey :=
    (0x4a5c12f50d63206e2827317c57d01eb4176896931d53ea2a33ef65a4323048ea,
      0x621329da92e324bf67e4c85e85ddb15d456b34836e73a223fe9ba0791a9bb4c2)
  checksums :=
    (0x786d7a87e02b2ac8f1f8b34163212c52f6cc90ea2e9937c4b35bcd9a991274a8,
      0x2210b0e448471831bf79c6d18f1b2518c352cab56293c5646c0bf8fbdc4b50ae)
  privkey := 0xb3f12e2f71f0b73bf70d88e72366f2300361c3ce81bf5ff9e60a7bde7386ac8c
  change :=
    (0x6eca08e44e4c51144c02b56ff3ebd8d398a1b55d54ac41ede8358ea2ddab9877,
      0x2e6bbcd6ce66f8c8fc900a850673ba6f0fdcfe9fd4a88aebdf403fa2f61022a2)
  receive :=
    (0x0ec939b498b91a94476fd3b30870fd412c130b7a0a90258e5eba28cb92f6f511,
      0x2ddeb32a1bfc4366013b5c29746a5013426416684bf2548caa72db111224c601)
  point :=
    (0x8ccc8186e5933e845afd096cc6d3f2fdb25fbe4db4864b944619afa8e4e8bd5e,
      0xaf3729f0c745606b41ed7a542d37469acd4f52db2b0e5a4ca23544c886c2a479)
  keccak := 0x4f46d24613ed516ad4f0e75878839f6054d7ed13918bae0473ba31b1ca9d7265
  address := "0x78839f6054d7ed13918bae0473ba31b1ca9d7265"

end SampleAccount

/-- The digests of HMAC-SHA-512 on the way to both addresses. -/
def hmacTable : List (Bytes × (ℕ × ℕ)) := SampleAccount.first.hmacs ++ SampleAccount.second.hmacs

/-- The libraries, with hash functions that are right on the data of these two accounts. -/
def accountLibraries : Primitives where
  hmacSha512 := fun key _ =>
    let digest := (hmacTable.lookup key).getD (0, 0)
    Bytes.ofNat 32 digest.1 ++ Bytes.ofNat 32 digest.2
  sha256 := fun data => Bytes.ofNat 32
    (((SampleAccount.first.sha256s ++ SampleAccount.second.sha256s).lookup data).getD 0)
  ripemd160 := fun _ => Bytes.ofNat 20 0
  keccak256 := fun data => Bytes.ofNat 32
    (((SampleAccount.first.keccaks ++ SampleAccount.second.keccaks).lookup data).getD 0)
  b58encode := fun data => String.ofList (Base58.encode data)
  b58decode := fun text => Base58.decode text.toList
  length_hmacSha512 := fun _ _ => by
    rw [List.length_append, Bytes.length_ofNat, Bytes.length_ofNat]
  length_sha256 := fun _ => Bytes.length_ofNat _ _
  length_ripemd160 := fun _ => Bytes.length_ofNat _ _
  length_keccak256 := fun _ => Bytes.length_ofNat _ _
  b58decode_b58encode := Base58.decode_ofList_encode

theorem parseXpub_first :
    parseXpub accountLibraries SampleAccount.first.xpub = some SampleAccount.first.account := by
  decide +kernel

theorem parseXpub_second :
    parseXpub accountLibraries SampleAccount.second.xpub = some SampleAccount.second.account := by
  decide +kernel

/-- The first address of an account, when the digests do not depend on what is hashed. -/
theorem accountAddress_of_hmac {lib : Primitives} {k k₁ k₂ : ℕ} {c pubkey digest digest₁ : Bytes}
    {x y : ZMod Secp256k1.p} (hpubkey : privkeyToPubkeyCompressed k = some pubkey)
    (hdigest : ∀ data, lib.hmacSha512 c data = digest)
    (hdigest₁ : ∀ data, lib.hmacSha512 (digest.drop 32) data = digest₁)
    (hk₁ : (Bytes.toNat (digest.take 32) + k) % Secp256k1.order = k₁)
    (hk₂ : (Bytes.toNat (digest₁.take 32) + k₁) % Secp256k1.order = k₂)
    (hne : k % Secp256k1.order ≠ 0) (hne₁ : k₁ % Secp256k1.order ≠ 0)
    (hne₂ : k₂ % Secp256k1.order ≠ 0)
    (hxy : ShortCurve.coords? (k₂ • Secp256k1.generator) = some (x, y)) :
    accountAddress lib (pubkey, c) 0 =
      some (addressOf lib (Bytes.ofNat 32 x.val) (Bytes.ofNat 32 y.val)) := by
  obtain ⟨change, hchange⟩ := ckdPriv_isSome lib hne c (show 0 < 2 ^ 31 by norm_num)
  obtain rfl : change = (k₁, digest.drop 32) := hk₁ ▸ eq_of_ckdPriv hdigest hchange
  obtain ⟨receive, hreceive⟩ := ckdPriv_isSome lib hne₁ (digest.drop 32)
    (show 0 < 2 ^ 31 by norm_num)
  obtain rfl : receive = (k₂, digest₁.drop 32) := hk₂ ▸ eq_of_ckdPriv hdigest₁ hreceive
  obtain ⟨x', y', hxy', haddress⟩ := accountAddress_eq (show 0 < 2 ^ 31 by norm_num) hpubkey hchange
    hne₁ hreceive hne₂
  rw [hxy] at hxy'
  obtain ⟨rfl, rfl⟩ := Prod.mk.inj (Option.some.inj hxy')
  exact haddress

/-- The checks that determine the first address of an account. -/
theorem SampleAccount.accountAddress_eq {a : SampleAccount}
    (hkey : ShortCurve.coords? (a.privkey • Secp256k1.generator) = some a.pubkey)
    (hpoint : ShortCurve.coords? (a.receiveKey • Secp256k1.generator) = some a.point)
    (hchange : hmacTable.lookup (Bytes.ofNat 32 a.chaincode) = some a.change)
    (hreceive : hmacTable.lookup (Bytes.ofNat 32 a.change.2) = some a.receive)
    (hfits : a.change.1 < 256 ^ 32 ∧ a.receive.1 < 256 ^ 32)
    (hne : a.privkey % Secp256k1.order ≠ 0 ∧ a.changeKey % Secp256k1.order ≠ 0 ∧
      a.receiveKey % Secp256k1.order ≠ 0)
    (haddress : addressOf accountLibraries (Bytes.ofNat 32 a.point.1.val)
      (Bytes.ofNat 32 a.point.2.val) = a.address) :
    accountAddress accountLibraries a.account 0 = some a.address := by
  rw [← haddress]
  have htake (n m : ℕ) : (Bytes.ofNat 32 n ++ Bytes.ofNat 32 m).take 32 = Bytes.ofNat 32 n :=
    List.take_left' (Bytes.length_ofNat _ _)
  have hdrop (n m : ℕ) : (Bytes.ofNat 32 n ++ Bytes.ofNat 32 m).drop 32 = Bytes.ofNat 32 m :=
    List.drop_left' (Bytes.length_ofNat _ _)
  have hmac {key : Bytes} {digest : ℕ × ℕ} (h : hmacTable.lookup key = some digest) (data : Bytes) :
      accountLibraries.hmacSha512 key data =
        Bytes.ofNat 32 digest.1 ++ Bytes.ofNat 32 digest.2 := by
    simp only [accountLibraries, h, Option.getD_some]
  rw [← hdrop a.change.1 a.change.2] at hreceive
  refine accountAddress_of_hmac ?_ (hmac hchange) (hmac hreceive) ?_ ?_ hne.1 hne.2.1 hne.2.2 hpoint
  · rw [privkeyToPubkeyCompressed, compressPoint, hkey, Option.map_some]
  · rw [htake, Bytes.toNat_ofNat hfits.1]
    rfl
  · rw [htake, Bytes.toNat_ofNat hfits.2]
    rfl

theorem accountAddress_first : accountAddress accountLibraries SampleAccount.first.account 0 =
    some SampleAccount.first.address :=
  SampleAccount.accountAddress_eq
    (Secp256k1.coords?_smul_generator (by decide +kernel))
    (Secp256k1.coords?_smul_generator (by decide +kernel)) (by decide +kernel)
    (by decide +kernel) (by decide +kernel) (by decide +kernel) (by decide +kernel)

theorem accountAddress_second : accountAddress accountLibraries SampleAccount.second.account 0 =
    some SampleAccount.second.address :=
  SampleAccount.accountAddress_eq
    (Secp256k1.coords?_smul_generator (by decide +kernel))
    (Secp256k1.coords?_smul_generator (by decide +kernel)) (by decide +kernel)
    (by decide +kernel) (by decide +kernel) (by decide +kernel) (by decide +kernel)

/-- A merchant right after its registration. -/
def registeredMerchant (id : MerchantId) (xpub : String) : Merchant :=
  { newMerchant with id := id, payoutEvmXpub := xpub }

/-- Two merchants. -/
def twoMerchants (xpub xpub' : String) : Table Merchant where
  rows := [registeredMerchant 1 xpub, registeredMerchant 2 xpub']
  nodup := by simp [registeredMerchant]

theorem nextEvmIndex_twoMerchants (xpub xpub' : String) :
    ∀ m ∈ (twoMerchants xpub xpub').rows, m.nextEvmIndex = 0 := by
  simp [twoMerchants, registeredMerchant, newMerchant]

/-- One order of each. -/
def oneOrderEach : List CheckoutCall := [Shops.callAt 0 1 0, Shops.callAt 0 2 1]

/-- Merchants with different accounts. -/
theorem receive_addresses_distinct_neighbours : ∃ s,
    exec (Shops.step accountLibraries)
      (Shops.opened (twoMerchants SampleAccount.first.xpub SampleAccount.second.xpub))
      oneOrderEach = some s ∧
    s.AddressesDiffer accountLibraries ∧
    s.addresses = ["0x9858effd232b4033e47d90003d41ec34ecaeda94",
      "0x78839f6054d7ed13918bae0473ba31b1ca9d7265"] ∧ s.addresses.Nodup := by
  have hfresh := nextEvmIndex_twoMerchants SampleAccount.first.xpub SampleAccount.second.xpub
  obtain ⟨s, hs, hderivations, haddresses⟩ := Shops.exec_firstOrders hfresh (.head _)
    (.tail _ (.head _)) (by decide) parseXpub_first parseXpub_second accountAddress_first
    accountAddress_second 0 rfl rfl
  have hdiffer : s.AddressesDiffer accountLibraries := by
    apply Shops.addressesDiffer_of_eq hderivations
    have hne : SampleAccount.first.address ≠ SampleAccount.second.address := by decide +kernel
    simp [accountAddress_first, accountAddress_second, hne, hne.symm]
  refine ⟨s, hs, hdiffer, haddresses, ?_⟩
  refine (receive_addresses_distinct_iff accountLibraries hfresh).mpr ?_ _ s hs hdiffer
  have hne : SampleAccount.first.account ≠ SampleAccount.second.account := by decide +kernel
  rintro m hm m' hm' hid ⟨account, hparse, hparse', -⟩
  simp only [twoMerchants, List.mem_cons, List.not_mem_nil, or_false] at hm hm'
  rcases hm with rfl | rfl <;> rcases hm' with rfl | rfl
  · exact hid rfl
  · exact hne (Option.some.inj ((parseXpub_first.symm.trans hparse).trans
      (hparse'.symm.trans parseXpub_second)))
  · exact hne (Option.some.inj ((parseXpub_first.symm.trans hparse').trans
      (hparse.symm.trans parseXpub_second)))
  · exact hid rfl

/-- **Merchants with one account** get the same address for an order each. -/
theorem receive_addresses_shared :
    (∀ m ∈ (twoMerchants SampleAccount.first.xpub SampleAccount.first.xpub).rows,
      validateEvmXpub accountLibraries m.payoutEvmXpub ∧ m.nextEvmIndex = 0) ∧
    ∃ s, exec (Shops.step accountLibraries)
        (Shops.opened (twoMerchants SampleAccount.first.xpub SampleAccount.first.xpub))
        oneOrderEach = some s ∧
      s.AddressesDiffer accountLibraries ∧
      s.addresses = ["0x9858effd232b4033e47d90003d41ec34ecaeda94",
        "0x9858effd232b4033e47d90003d41ec34ecaeda94"] ∧ ¬ s.addresses.Nodup := by
  have hfresh := nextEvmIndex_twoMerchants SampleAccount.first.xpub SampleAccount.first.xpub
  obtain ⟨s, hs, hderivations, haddresses⟩ := Shops.exec_firstOrders hfresh (.head _)
    (.tail _ (.head _)) (by decide) parseXpub_first parseXpub_first accountAddress_first
    accountAddress_first 0 rfl rfl
  refine ⟨fun m hm => ⟨?_, hfresh m hm⟩, s, hs,
    Shops.addressesDiffer_of_eq hderivations (by simp), haddresses, by simp [haddresses]⟩
  have hstrip : String.ofList (PyText.strip SampleAccount.first.xpub.toList) =
      SampleAccount.first.xpub := by
    decide +kernel
  have hvalid : validateEvmXpub accountLibraries SampleAccount.first.xpub := by
    rw [validateEvmXpub, hstrip, parseXpub_first]
    rfl
  simp only [twoMerchants, List.mem_cons, List.not_mem_nil, or_false] at hm
  rcases hm with rfl | rfl
  · exact hvalid
  · exact hvalid

end Gateway
