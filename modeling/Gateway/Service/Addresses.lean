import Gateway.Service.Orders

/-!
# The receive addresses of the service

Each order has the address that its checkout derived from a public key of its merchant at the index
that it reserved. Where the keys of different merchants, and different indices, derive different
addresses, no two orders of the database share one, whatever checkouts, switches and passes
interleave (`service_addresses`). A checkout derives with the key of the copy it has loaded, which
may be stale: every key that the merchant has had counts as its own.
-/

namespace Gateway

open Foundations

/-- The address of an order, as a merchant with these keys derives it. -/
def MerchantOrder.DerivedFrom (derive : ℤ → String → Option String) (keys : String → Prop)
    (o : MerchantOrder) : Prop :=
  ∃ xpub, keys xpub ∧ derive o.evmDerivationIndex xpub = some o.evmAddress

/-! ## The transactions of a merchant -/

namespace Checkouts

/-- The transactions have copies with keys of the merchant, and orders with addresses of theirs. -/
def Derives (derive : ℤ → String → Option String) (keys : String → Prop) (c : Checkouts) : Prop :=
  ∀ t tx, c.txs t = some tx → keys tx.copy.cur.payoutEvmXpub ∧
    ∀ o ∈ tx.stage.orders, o.DerivedFrom derive keys

variable {derive : ℤ → String → Option String} {keys : String → Prop} {c c' : Checkouts}
  {t q : TxId} {tx : Tx}

theorem Derives.setTx (h : c.Derives derive keys) (hkey : keys tx.copy.cur.payoutEvmXpub)
    (horders : ∀ o ∈ tx.stage.orders, o.DerivedFrom derive keys) :
    (c.setTx t tx).Derives derive keys := by
  intro q tx' hq
  rcases txs_setTx_eq_some hq with ⟨rfl, rfl⟩ | ⟨-, hq⟩
  · exact ⟨hkey, horders⟩
  · exact h q tx' hq

theorem Derives.ended (h : c.Derives derive keys) {c' : Checkouts}
    (htxs : c'.txs = Function.update c.txs t none) : c'.Derives derive keys := by
  intro q tx hq
  rw [htxs] at hq
  exact h q tx (txs_ended_eq_some hq).2

theorem flush_txs {p : Checkouts × Tx} (h : c.flush t tx = some p) :
    p.1.txs = c.txs ∧ p.2.copy.cur = tx.copy.cur ∧ p.2.stage = tx.stage := by
  rcases flush_eq_some h with ⟨-, hc, htx⟩ | ⟨row, -, hc, htx⟩
  · rw [hc, htx]
    exact ⟨rfl, rfl, rfl⟩
  · rw [hc, htx]
    exact ⟨rfl, rfl, rfl⟩

/-- The order of a reservation has the address at its index. -/
theorem Derives.reserveOn {c₁ : Checkouts} {tx₁ : Tx} {req : CheckoutRequest} {row : Merchant}
    (h : c₁.Derives derive keys) (hkey : keys tx₁.copy.cur.payoutEvmXpub)
    (hs : c₁.reserveOn derive t tx₁ req row = some c') : c'.Derives derive keys := by
  simp only [Checkouts.reserveOn] at hs
  split_ifs at hs
  split at hs
  · cases hs
    exact h.ended rfl
  · rename_i address hderive
    cases hs
    refine Derives.setTx (c := { c₁ with lock := _ }) h hkey fun o ho => ?_
    obtain rfl := List.mem_singleton.mp ho
    exact ⟨_, hkey, hderive⟩

/-- **Every event keeps the keys and the addresses**, if the copies that are loaded have keys of the
merchant. -/
theorem Derives.step (h : c.Derives derive keys) {e : CheckoutEvent}
    (hload : ∀ t m, e = .load t m → keys m.payoutEvmXpub)
    (he : ∀ t clock payment, e ≠ .confirm t clock payment) (hs : c.step derive e = some c') :
    c'.Derives derive keys := by
  cases e with
  | load t m =>
    simp only [Checkouts.step] at hs
    split_ifs at hs
    cases hs
    exact h.setTx (hload t m rfl) fun o ho => absurd ho List.not_mem_nil
  | check t req =>
    obtain ⟨tx, htx, hs⟩ := Option.bind_eq_some_iff.mp hs
    split at hs
    · split at hs
      · cases hs
        exact h.ended rfl
      · rename_i m hm
        cases hs
        obtain ⟨rfl, -⟩ := checkQuota_ok hm
        refine h.setTx ?_ fun o ho => absurd ho List.not_mem_nil
        simpa using (h t tx htx).1
    · cases hs
  | reserve t =>
    obtain ⟨tx, htx, hs⟩ := Option.bind_eq_some_iff.mp hs
    split at hs
    · obtain ⟨⟨c₁, tx₁⟩, hflush, hs⟩ := Option.bind_eq_some_iff.mp hs
      obtain ⟨row, -, hs⟩ := Option.bind_eq_some_iff.mp hs
      obtain ⟨htxs, hcur, -⟩ := flush_txs hflush
      refine Derives.reserveOn (fun q tx' hq => h q tx' (htxs ▸ hq)) ?_ hs
      rw [hcur]
      exact (h t tx htx).1
    · cases hs
  | confirm t clock payment => exact absurd rfl (he t clock payment)
  | flush t =>
    obtain ⟨tx, htx, hs⟩ := Option.bind_eq_some_iff.mp hs
    obtain ⟨⟨c₁, tx₁⟩, hflush, rfl⟩ := Option.map_eq_some_iff.mp hs
    obtain ⟨htxs, hcur, hstage⟩ := flush_txs hflush
    obtain ⟨hkey, horders⟩ := h t tx htx
    refine Derives.setTx (fun q tx' hq => h q tx' (htxs ▸ hq)) ?_ ?_
    · rw [hcur]
      exact hkey
    · rw [hstage]
      exact horders
  | commit t =>
    obtain ⟨tx, -, hs⟩ := Option.bind_eq_some_iff.mp hs
    obtain ⟨⟨c₁, tx₁⟩, hflush, rfl⟩ := Option.map_eq_some_iff.mp hs
    refine h.ended (t := t) ?_
    rw [← (flush_txs hflush).1]
    rfl
  | rollback t =>
    obtain ⟨tx, -, rfl⟩ := Option.map_eq_some_iff.mp hs
    exact h.ended rfl

end Checkouts

/-! ## All merchants -/

theorem payoutEvmXpub_of_setBillingMode {mode : String} {m m' : Merchant}
    (h : setBillingMode mode m = .ok m') : m'.payoutEvmXpub = m.payoutEvmXpub := by
  unfold setBillingMode at h
  split at h
  · cases h
  · split_ifs at h <;> cases h <;> rfl

/-- What an order and its address are derived from, which no flush writes. -/
def MerchantOrder.derivation (o : MerchantOrder) : MerchantId × ℤ × String :=
  (o.merchantId, o.evmDerivationIndex, o.evmAddress)

theorem MerchantOrder.DerivedFrom.congr {derive : ℤ → String → Option String}
    {owns : MerchantId → String → Prop} {o o' : MerchantOrder}
    (hsame : o'.derivation = o.derivation) (h : o.DerivedFrom derive (owns o.merchantId)) :
    o'.DerivedFrom derive (owns o'.merchantId) := by
  simp only [derivation, Prod.mk.injEq] at hsame
  obtain ⟨hid, hindex, haddress⟩ := hsame
  rw [DerivedFrom, hid, hindex, haddress]
  exact h

namespace Service

variable {derive : ℤ → String → Option String} {owns : MerchantId → String → Prop}
  {s s' : Service} {id : MerchantId} {row : Merchant} {t : TxId}

/-- A transaction loads copies with keys that the merchant has had. -/
def LoadsOwned (owns : MerchantId → String → Prop) : ServiceEvent → Prop
  | .checkout id (.load _ m) => owns id m.payoutEvmXpub
  | _ => True

/-- The keys of two merchants, or two indices, derive different addresses. -/
def DistinctAddresses (derive : ℤ → String → Option String)
    (owns : MerchantId → String → Prop) : Prop :=
  ∀ id id' xpub xpub' i i' address, owns id xpub → owns id' xpub' →
    derive i xpub = some address → derive i' xpub' = some address → id = id' ∧ i = i'

/-- The transactions and the stored orders have addresses of their merchants. -/
structure AddressesHold (derive : ℤ → String → Option String) (owns : MerchantId → String → Prop)
    (s : Service) : Prop where
  txs : ∀ id row, (s.view id row).Derives derive (owns id)
  orders : ∀ o ∈ s.system.orders.rows, o.DerivedFrom derive (owns o.merchantId)

namespace AddressesHold

theorem start (h0 : s.Idle)
    (hderived : ∀ o ∈ s.system.orders.rows, o.DerivedFrom derive (owns o.merchantId)) :
    s.AddressesHold derive owns where
  txs := by
    intro id row t tx htx
    rw [show (s.view id row).txs t = none from (h0 id).2 t] at htx
    cases htx
  orders := hderived

/-- The transactions of one merchant go on. -/
theorem keep (h : s.AddressesHold derive owns) {c : Checkouts} (hc : c.Derives derive (owns id)) :
    ∀ id' row, ((s.keep id c).view id' row).Derives derive (owns id') := by
  intro id' row t tx htx
  by_cases hid : id' = id
  · subst hid
    simp only [view, Service.keep, Function.update_self] at htx
    exact hc t tx htx
  · simp only [view, Service.keep, Function.update_of_ne hid] at htx
    exact h.txs id' row t tx htx

/-- **Every event keeps the addresses.** -/
theorem step {good : Goodness} (h : s.AddressesHold derive owns) (horders : s.OrdersHold good)
    {e : ServiceEvent}
    (he : LoadsOwned owns e) (hs : s.step derive e = some s') : s'.AddressesHold derive owns := by
  cases Move.of_step hs with
  | @poll e system hother _ hmove =>
    refine ⟨h.txs, fun o ho => ?_⟩
    have hmap := hmove.map_orders hother (f := MerchantOrder.derivation) fun _ _ => rfl
    have hmem : o.derivation ∈ s.system.orders.rows.map MerchantOrder.derivation := by
      rw [← hmap]
      exact List.mem_map_of_mem ho
    obtain ⟨o₀, ho₀, hsame⟩ := List.mem_map.mp hmem
    exact (h.orders o₀ ho₀).congr hsame.symm
  | @checkout id row e c hrow hc hconfirm _ =>
    refine ⟨h.keep ((h.txs id row).step ?_ hconfirm hc), h.orders⟩
    rintro t m rfl
    exact he
  | @lost id row t hrow => exact ⟨h.keep ((h.txs id row).ended rfl), h.orders⟩
  | @commit id row t c system hrow hc hstore =>
    refine ⟨h.keep ((h.txs id row).step (by simp) (by simp) hc), fun o ho => ?_⟩
    obtain ⟨hnew, -⟩ := orders_store (s.length_added id t) hstore
    rw [show ({ s.keep id c with system } : Service).system.orders.rows = _ from hnew,
      List.mem_append] at ho
    rcases ho with ho | ho
    · exact h.orders o ho
    · unfold added at ho
      cases htx : (s.opened id).txs t with
      | none =>
        rw [htx] at ho
        cases ho
      | some tx =>
        rw [htx, Option.elim_some] at ho
        have hid : o.merchantId = id := by
          rw [(((horders.marks id row hrow).txs t tx htx).2 o ho).1]
          exact (Table.find?_eq_some.mp hrow).2
        rw [hid]
        exact (h.txs id row t tx htx).2 o ho
  | refused => exact h
  | @setBillingMode id row t mode tx m hrow htx hstage hmode =>
    obtain ⟨hkey, hadded⟩ := h.txs id row t tx htx
    refine ⟨h.keep ((h.txs id row).setTx ?_ hadded), h.orders⟩
    rw [← payoutEvmXpub_of_setBillingMode hmode] at hkey
    exact hkey

/-- Orders of different merchants or indices have different addresses. -/
theorem nodup (h : s.AddressesHold derive owns) (hdistinct : DistinctAddresses derive owns)
    (hslots : (s.system.orders.rows.map MerchantOrder.slot).Nodup) :
    (s.system.orders.rows.map MerchantOrder.evmAddress).Nodup := by
  refine List.Nodup.map_on ?_ (List.Nodup.of_map _ hslots)
  intro o ho o' ho' haddress
  obtain ⟨xpub, hxpub, hderive⟩ := h.orders o ho
  obtain ⟨xpub', hxpub', hderive'⟩ := h.orders o' ho'
  rw [← haddress] at hderive'
  obtain ⟨hid, hindex⟩ := hdistinct _ _ _ _ _ _ _ hxpub hxpub' hderive hderive'
  exact List.inj_on_of_nodup_map hslots ho ho' (Prod.ext hid hindex)

end AddressesHold

end Service

open Service in
/-- The addresses hold after every run. -/
theorem Service.addressesHold_of_run {s₀ s : Service} {es : List ServiceEvent}
    {derive : ℤ → String → Option String} {owns : MerchantId → String → Prop} (h0 : s₀.Idle)
    (hpasses : ∀ p, s₀.system.passes p = none)
    (hslots : (s₀.system.orders.rows.map MerchantOrder.slot).Nodup)
    (hbelow : ∀ o ∈ s₀.system.orders.rows, ∃ m, s₀.system.merchants.find? o.merchantId = some m ∧
      o.evmDerivationIndex < m.nextEvmIndex)
    (hwhole : ∀ o ∈ s₀.system.orders.rows, o.Whole fairReceipt)
    (hderived : ∀ o ∈ s₀.system.orders.rows, o.DerivedFrom derive (owns o.merchantId))
    (run : Run (Service.step derive) (fun s e => OnPoll System.ChecksEvm s e ∧ LoadsOwned owns e)
      s₀ es s) : s.OrdersHold fairReceipt ∧ s.AddressesHold derive owns := by
  apply run.invariant
  · rintro s e s' ⟨horders, haddresses⟩ ⟨he, hload⟩ hstep
    exact ⟨horders.step (goodReceipts_of_checks he hstep) hstep, haddresses.step horders hload hstep⟩
  · exact ⟨.start h0 hpasses hslots hbelow hwhole, .start h0 hderived⟩

open Service in
/-- **No two orders share a receive address.** Whatever checkouts of whatever merchants, switches of
the billing mode and passes interleave, with stale copies, lost commits and rollbacks: if the keys
of different merchants, and different indices, derive different addresses, then so do the orders of
the database. -/
theorem service_addresses {s₀ s : Service} {es : List ServiceEvent}
    {derive : ℤ → String → Option String} {owns : MerchantId → String → Prop} (h0 : s₀.Idle)
    (hpasses : ∀ p, s₀.system.passes p = none)
    (hslots : (s₀.system.orders.rows.map MerchantOrder.slot).Nodup)
    (hbelow : ∀ o ∈ s₀.system.orders.rows, ∃ m, s₀.system.merchants.find? o.merchantId = some m ∧
      o.evmDerivationIndex < m.nextEvmIndex)
    (hwhole : ∀ o ∈ s₀.system.orders.rows, o.Whole fairReceipt)
    (hderived : ∀ o ∈ s₀.system.orders.rows, o.DerivedFrom derive (owns o.merchantId))
    (hdistinct : DistinctAddresses derive owns)
    (run : Run (Service.step derive) (fun s e => OnPoll System.ChecksEvm s e ∧ LoadsOwned owns e)
      s₀ es s) :
    (s.system.orders.rows.map MerchantOrder.evmAddress).Nodup := by
  obtain ⟨horders, haddresses⟩ :=
    addressesHold_of_run h0 hpasses hslots hbelow hwhole hderived run
  exact haddresses.nodup hdistinct horders.slots.1

/-- The key of the sample merchant. -/
def sampleKeys (id : MerchantId) (xpub : String) : Prop := id = 1 ∧ xpub = ""

theorem twoAddresses_eq_some {first second xpub address : String} {i : ℤ}
    (h : twoAddresses first second i xpub = some address) :
    (i = 0 ∧ address = first) ∨ (i = 1 ∧ address = second) := by
  unfold twoAddresses at h
  split at h
  · exact .inl ⟨rfl, (Option.some.inj h).symm⟩
  · exact .inr ⟨rfl, (Option.some.inj h).symm⟩
  · cases h

theorem distinct_twoAddresses {first second : String} (hne : first ≠ second) :
    Service.DistinctAddresses (twoAddresses first second) sampleKeys := by
  rintro id id' _ _ i i' address ⟨rfl, rfl⟩ ⟨rfl, rfl⟩ h h'
  refine ⟨rfl, ?_⟩
  rcases twoAddresses_eq_some h with ⟨rfl, rfl⟩ | ⟨rfl, rfl⟩
  · rcases twoAddresses_eq_some h' with ⟨rfl, -⟩ | ⟨-, rfl⟩
    · rfl
    · exact absurd rfl hne
  · rcases twoAddresses_eq_some h' with ⟨-, rfl⟩ | ⟨rfl, -⟩
    · exact absurd rfl hne
    · rfl

/-- The two checkouts of the busy run get the two addresses of the merchant. -/
theorem service_addresses_busy : ∃ s o o',
    exec (Service.step (twoAddresses "0x44" "0x55")) idleService busyRun = some s ∧
      s.system.orders.find? 1 = some o ∧ s.system.orders.find? 2 = some o' ∧
      o.status = .paid ∧ (s.system.orders.rows.map MerchantOrder.evmAddress).Nodup := by
  obtain ⟨s, o, o', m, run, ho, ho', -, hpaid, -⟩ := run_busy
  have hevents : Run (Service.step (twoAddresses "0x44" "0x55")) (fun _ e => e ∈ busyRun)
      idleService busyRun s :=
    .of_exec_of_forall (fun _ he _ => he) run.exec_eq
  have hload : ∀ e ∈ busyRun, Service.LoadsOwned sampleKeys e := by
    simp [busyRun, Service.LoadsOwned, sampleKeys, sampleMerchant]
  have haddresses := service_addresses (fun _ => ⟨rfl, fun _ => rfl⟩) (fun _ => rfl)
    (by simp [idleService, sampleSystem]) (by simp [idleService, sampleSystem])
    (by simp [idleService, sampleSystem]) (by simp [idleService, sampleSystem])
    (distinct_twoAddresses (by decide))
    ((run.inter hevents).mono fun _ _ hok => ⟨hok.1, hload _ hok.2⟩)
  exact ⟨s, o, o', run.exec_eq, ho, ho', hpaid, haddresses⟩

end Gateway
