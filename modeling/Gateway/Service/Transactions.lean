import Gateway.Checkout.Indices
import Gateway.Poll.Rows

/-!
# The service: poll passes and checkouts over one database

The poll passes run over the same rows that checkouts and changes of the billing mode write. Here
all of them run together: the tables with the running passes, and for every merchant the
transactions that work on its row. A transaction is one of `Checkouts` over the stored row of its
merchant; what it has written stays with the lock until it commits. A pass that has changed a
merchant waits for the lock of the row before it commits.
-/

namespace Gateway

open Foundations

/-- The transactions under way on the row of a merchant, with the holder of its lock and the row as
the holder has written it. -/
structure OpenTxs where
  lock : Option (TxId × Merchant)
  txs : TxId → Option Tx

/-- The poll system, and the checkouts that are open on the row of each merchant. -/
structure Service where
  system : System
  opened : MerchantId → OpenTxs

/-- The events of passes and of checkouts. -/
inductive ServiceEvent
  /-- An event of a poll pass. -/
  | poll (e : Event)
  /-- An event of a transaction on the row of a merchant. -/
  | checkout (id : MerchantId) (e : CheckoutEvent)
  /-- `set_billing_mode`, in a transaction that has a copy of the merchant. -/
  | setBillingMode (id : MerchantId) (t : TxId) (mode : String)

namespace Service

variable (s : Service)

/-- What a transaction sees of a merchant: the stored row, its orders, and the other transactions.
The billing cycles that the orders belong to are not stored. -/
def view (id : MerchantId) (row : Merchant) : Checkouts where
  row := row
  filed := (s.system.orders.rows.filter fun o => o.merchantId = id).map fun o => ⟨o, none⟩
  lock := (s.opened id).lock
  txs := (s.opened id).txs

/-- Only the transactions have changed, and the lock. -/
def keep (id : MerchantId) (c : Checkouts) : Service :=
  { s with opened := Function.update s.opened id ⟨c.lock, c.txs⟩ }

/-- The tables after a commit of a merchant's row and of an order; `none` when the identifier of the
order is taken. -/
def store (sys : System) (m : Merchant) : List MerchantOrder → Option System
  | [] => some { sys with merchants := sys.merchants.put m }
  | o :: _ => (sys.orders.insert? o).map fun orders =>
      { sys with orders, merchants := sys.merchants.put m }

/-- The orders that a transaction has added. -/
def added (id : MerchantId) (t : TxId) : List MerchantOrder :=
  ((s.opened id).txs t).elim [] fun tx => tx.stage.orders

/-- The commit of a transaction on a merchant's row, which leads to `c`. -/
def commit (id : MerchantId) (row : Merchant) (t : TxId) (c : Checkouts) : Service :=
  match store s.system c.row (s.added id t) with
  | some system => { s.keep id c with system }
  | none => s.keep id ((s.view id row).release t)

/-- Must the pass wait for a row that a transaction has locked? -/
def waits : Event → Bool
  | .finish p | .push p .commits => (s.system.passes p).any fun pass =>
      s.system.canSave pass && s.system.merchants.rows.any fun m =>
        (s.opened m.id).lock.isSome && (pass.merchants m.id).any fun t => t.cur ≠ t.base
  | _ => false

/-- One event; `none` when it is not enabled. -/
def step (derive : ℤ → String → Option String) (s : Service) : ServiceEvent → Option Service
  -- the other transactions are those below
  | .poll (.other _ _) => none
  | .poll e => if s.waits e then none else (s.system.step e).map fun system => { s with system }
  -- the confirmations are those of the passes
  | .checkout _ (.confirm _ _ _) => none
  | .checkout id (.commit t) =>
    (s.system.merchants.find? id).bind fun row =>
      ((s.view id row).step derive (.commit t)).map (s.commit id row t)
  | .checkout id e =>
    (s.system.merchants.find? id).bind fun row => ((s.view id row).step derive e).map (s.keep id)
  | .setBillingMode id t mode =>
    (s.system.merchants.find? id).bind fun row => ((s.opened id).txs t).bind fun tx =>
      match tx.stage with
      | .loaded =>
        match Gateway.setBillingMode mode tx.copy.cur with
        | .error _ => some s
        | .ok m => some (s.keep id ((s.view id row).setTx t { tx with copy := tx.copy.set m }))
      | _ => none

/-! ## What the events do -/

variable {s} {s' : Service} {derive : ℤ → String → Option String} {id : MerchantId} {row : Merchant}
  {t : TxId}

/-- A transaction that does not commit leaves the stored row and its orders alone. -/
theorem view_unchanged {c c' : Checkouts} {e : CheckoutEvent} (h : Checkouts.Move derive c e c')
    (hcommit : ∀ t, e ≠ .commit t) : c'.row = c.row ∧ c'.filed = c.filed := by
  cases h with
  | commitClean => exact absurd rfl (hcommit _)
  | commit => exact absurd rfl (hcommit _)
  | _ => exact ⟨rfl, rfl⟩

/-- What an event does to the service: a pass goes on; or a transaction goes on, or ends without
effect; or it commits the row, and its order if it has one. -/
inductive Move (derive : ℤ → String → Option String) (s : Service) :
    ServiceEvent → Service → Prop
  | poll {e : Event} {system : System} :
      (∀ m order, e ≠ .other m order) → s.waits e = false → Gateway.Move s.system e system →
      Move derive s (.poll e) { s with system }
  | checkout {id : MerchantId} {row : Merchant} {e : CheckoutEvent} {c : Checkouts} :
      s.system.merchants.find? id = some row → (s.view id row).step derive e = some c →
      (∀ t clock payment, e ≠ .confirm t clock payment) → (∀ t, e ≠ .commit t) →
      Move derive s (.checkout id e) (s.keep id c)
  | lost {id : MerchantId} {row : Merchant} {t : TxId} :
      s.system.merchants.find? id = some row →
      Move derive s (.checkout id (.commit t)) (s.keep id ((s.view id row).release t))
  | commit {id : MerchantId} {row : Merchant} {t : TxId} {c : Checkouts} {system : System} :
      s.system.merchants.find? id = some row → (s.view id row).step derive (.commit t) = some c →
      store s.system c.row (s.added id t) = some system →
      Move derive s (.checkout id (.commit t)) { s.keep id c with system }
  /-- An unknown mode. -/
  | refused {id : MerchantId} {t : TxId} {mode : String} :
      Move derive s (.setBillingMode id t mode) s
  | setBillingMode {id : MerchantId} {row : Merchant} {t : TxId} {mode : String} {tx : Tx}
      {m : Merchant} :
      s.system.merchants.find? id = some row → (s.opened id).txs t = some tx → tx.stage = .loaded →
      Gateway.setBillingMode mode tx.copy.cur = .ok m →
      Move derive s (.setBillingMode id t mode)
        (s.keep id ((s.view id row).setTx t { tx with copy := tx.copy.set m }))

theorem Move.of_step {e : ServiceEvent} (h : s.step derive e = some s') : Move derive s e s' := by
  have hpoll : ∀ {e : Event}, (∀ m order, e ≠ .other m order) →
      (if s.waits e then none else (s.system.step e).map fun system => { s with system }) = some s' →
      Move derive s (.poll e) s' := by
    intro e hother h
    split_ifs at h with hwaits
    obtain ⟨system, hs, rfl⟩ := Option.map_eq_some_iff.mp h
    exact .poll hother (by simpa using hwaits) (.of_step hs)
  have hcheckout : ∀ {id e}, (∀ t clock payment, e ≠ .confirm t clock payment) →
      (∀ t, e ≠ .commit t) → ((s.system.merchants.find? id).bind fun row =>
        ((s.view id row).step derive e).map (s.keep id)) = some s' →
      Move derive s (.checkout id e) s' := by
    intro id e hconfirm hcommit h
    obtain ⟨row, hrow, h⟩ := Option.bind_eq_some_iff.mp h
    obtain ⟨c, hc, rfl⟩ := Option.map_eq_some_iff.mp h
    exact .checkout hrow hc hconfirm hcommit
  cases e with
  | poll e =>
    cases e with
    | other m order => simp [step] at h
    | _ => exact hpoll (by simp) h
  | checkout id e =>
    cases e with
    | confirm t clock payment => simp [step] at h
    | commit t =>
      obtain ⟨row, hrow, h⟩ := Option.bind_eq_some_iff.mp h
      obtain ⟨c, hc, rfl⟩ := Option.map_eq_some_iff.mp h
      unfold Service.commit
      cases hstore : store s.system c.row (s.added id t) with
      | none => exact .lost hrow
      | some system => exact .commit hrow hc hstore
    | _ => exact hcheckout (by simp) (by simp) h
  | setBillingMode id t mode =>
    obtain ⟨row, hrow, h⟩ := Option.bind_eq_some_iff.mp h
    obtain ⟨tx, htx, h⟩ := Option.bind_eq_some_iff.mp h
    cases hstage : tx.stage with
    | loaded =>
      simp only [hstage] at h
      cases hmode : Gateway.setBillingMode mode tx.copy.cur with
      | error message =>
        rw [hmode] at h
        cases h
        exact .refused
      | ok m =>
        rw [hmode] at h
        cases h
        rw [← hstage]
        exact .setBillingMode hrow htx hstage hmode
    | _ => simp [hstage] at h

end Service

end Gateway
