import Gateway.Foundations.Runs
import Gateway.Poll.Visit

/-!
# Poll passes over one database

Any number of passes of `poll_pending_orders` run over the tables of orders and merchants, each in
a session of its own. A pass reads the pending orders, then their merchants, visits the orders one
by one on its own copies, and at the end commits the columns it changed; after each confirmation
the push service may commit the same session early. Everything in between is one step of the
system, so that passes interleave in every way, and other transactions commit between the steps.

A row that two sessions write is locked by the first until it ends, so that the second write waits
for the first commit: the writes of a session take effect here at its commit.

Two histories are kept that the program does not keep: the confirmations given so far, with the
success of their webhooks, and the ledger of the claims that have been committed.
-/

namespace Gateway

open Foundations

/-- The name of a pass. -/
abbrev PassId := ℕ

/-- A claim of an order on the balance that a merchant has in an asset. -/
abbrev PaymentClaim := Claim OrderId (MerchantId × Asset) ℚ

/-- Where a pass stands between two of its database accesses. -/
inductive Stage
  /-- The pending orders have been read, the merchants have not. -/
  | opened
  /-- In the loop over the orders. -/
  | looping
  /-- In `send_push_to_user`. -/
  | notifying
  deriving DecidableEq

/-- A running pass with its session. -/
structure Pass where
  now : Timestamp
  stage : Stage
  /-- The orders that have not been visited. -/
  todo : List OrderId
  orders : OrderId → Option (Tracked MerchantOrder)
  merchants : MerchantId → Option (Tracked Merchant)
  /-- A statement failed inside the push service: the transaction can no longer commit. -/
  broken : Bool
  /-- The confirmations since the last commit. -/
  unsaved : List Confirmation

/-- The two tables, the running passes, and the two histories. -/
structure System where
  orders : Table MerchantOrder
  merchants : Table Merchant
  passes : PassId → Option Pass
  confirmed : List Confirmation
  ledger : List PaymentClaim

/-- What `send_push_to_user` does to the session. It never raises. -/
inductive PushOutcome
  /-- Nothing that the transaction would notice. -/
  | quiet
  /-- It prunes dead device tokens, and commits. -/
  | commits
  /-- One of its statements fails, and it swallows the exception. -/
  | fails
  deriving DecidableEq

/-- The events of the passes, and of the other transactions. -/
inductive Event
  /-- A pass starts and reads the pending orders, oldest first. -/
  | begin (p : PassId) (now : Timestamp) (pending : List MerchantOrder)
  /-- It reads the merchants of these orders. -/
  | loadMerchants (p : PassId)
  /-- It visits the next order; when the visit raises, the pass is over. -/
  | visit (p : PassId) (a : Answers)
  | push (p : PassId) (outcome : PushOutcome)
  /-- It commits; when the commit fails, nothing is stored. -/
  | finish (p : PassId)
  /-- It ends by an exception, of whatever origin. -/
  | abort (p : PassId)
  /-- Another transaction commits: it writes a merchant, and may add an order. -/
  | other (merchant : Merchant) (order : Option MerchantOrder)

/-! ## Sessions -/

namespace Pass

/-- The claims since the last commit. -/
def claims (pass : Pass) : List PaymentClaim := pass.unsaved.filterMap Confirmation.claim

/-- The session right after a commit. `expire_on_commit=False`: the copies are kept. -/
def synced (pass : Pass) : Pass :=
  { pass with
    orders := fun id => (pass.orders id).map Tracked.sync
    merchants := fun id => (pass.merchants id).map Tracked.sync
    unsaved := [] }

/-- The pass after a visit. -/
def afterVisit (pass : Pass) (id : OrderId) (rest : List OrderId) : Visit → Pass
  | .expired order =>
    { pass with
      todo := rest
      orders := Function.update pass.orders id ((pass.orders id).map (·.set order)) }
  | .unpaid => { pass with todo := rest }
  | .paid order merchant confirmation =>
    { pass with
      todo := rest
      stage := if merchant.isSome then .notifying else .looping
      orders := Function.update pass.orders id ((pass.orders id).map (·.set order))
      merchants :=
        match merchant with
        | none => pass.merchants
        | some m => Function.update pass.merchants m.id ((pass.merchants m.id).map (·.set m))
      unsaved := pass.unsaved ++ [confirmation] }

/-- The visit of the next order with these answers: the order, the ones after it, and what the
visit does, where `none` is a raised exception. -/
def nextVisit (pass : Pass) (a : Answers) : Option (OrderId × List OrderId × Option Visit) :=
  match pass.todo with
  | [] => none
  | id :: rest =>
    (pass.orders id).map fun order =>
      (id, rest, visitOrder pass.now a order.cur
        ((pass.merchants order.cur.merchantId).map Tracked.cur))

end Pass

/-! ## Steps -/

namespace System

/-- A pass goes on. -/
def setPass (s : System) (p : PassId) (pass : Pass) : System :=
  { s with passes := Function.update s.passes p (some pass) }

/-- A pass is over. -/
def endPass (s : System) (p : PassId) : System :=
  { s with passes := Function.update s.passes p none }

/-- The pending orders, in an order that `ORDER BY created_at` may return them in. -/
def isPendingList (s : System) (pending : List MerchantOrder) : Bool :=
  pending.isPerm (s.orders.rows.filter fun o => o.status = .pending) &&
    pending.Pairwise fun o o' => o.createdAt ≤ o'.createdAt

/-- The session of a pass that has just read its orders. -/
def openPass (now : Timestamp) (pending : List MerchantOrder) : Pass where
  now
  stage := .opened
  todo := pending.map MerchantOrder.id
  orders := fun id => (pending.find? fun o => o.id = id).map Tracked.load
  merchants := fun _ => none
  broken := false
  unsaved := []

/-- The merchants of the pass's orders, read now. -/
def loadedMerchants (s : System) (pass : Pass) (id : MerchantId) : Option (Tracked Merchant) :=
  if pass.todo.any fun o => (pass.orders o).any fun t => t.cur.merchantId = id then
    (s.merchants.find? id).map Tracked.load
  else none

/-- Does everything that the session would write fit its columns? -/
def fits (s : System) (pass : Pass) : Bool :=
  (s.orders.rows.all fun o => (pass.orders o.id).all MerchantOrder.fits) &&
    s.merchants.rows.all fun m => (pass.merchants m.id).all Merchant.fits

/-- The database after the session has been flushed and committed. -/
def save (s : System) (pass : Pass) : System :=
  { s with
    orders := s.orders.flush pass.orders MerchantOrder.write fun _ _ => rfl
    merchants := s.merchants.flush pass.merchants Merchant.write fun _ _ => rfl
    ledger := s.ledger ++ pass.claims }

/-- May the session still commit, and does what it would write fit? -/
def canSave (s : System) (pass : Pass) : Bool := !pass.broken && s.fits pass

/-- The push service has run. -/
def push (s : System) (p : PassId) (pass : Pass) : PushOutcome → System
  | .quiet => s.setPass p { pass with stage := .looping }
  | .commits =>
    if s.canSave pass then (s.save pass).setPass p { pass.synced with stage := .looping }
    else s.setPass p { pass with stage := .looping, broken := true }
  | .fails => s.setPass p { pass with stage := .looping, broken := true }

/-- A visit is over. -/
def visit (s : System) (p : PassId) (pass : Pass) :
    OrderId × List OrderId × Option Visit → System
  | (_, _, none) => s.endPass p
  | (id, rest, some v) =>
    let s := s.setPass p (pass.afterVisit id rest v)
    match v with
    | .paid _ _ confirmation => { s with confirmed := s.confirmed ++ [confirmation] }
    | _ => s

/-- May another transaction write this merchant? It leaves the watermarks of an existing one
alone, and enrols a new one with the column defaults. -/
def mayWrite (s : System) (m : Merchant) : Bool :=
  match s.merchants.find? m.id with
  | none => m.solanaUsdcConsumed = 0 && m.solanaUsdtConsumed = 0
  | some stored =>
    m.solanaUsdcConsumed = stored.solanaUsdcConsumed &&
      m.solanaUsdtConsumed = stored.solanaUsdtConsumed

/-- May another transaction add this order? -/
def mayAdd (o : MerchantOrder) : Bool := o.status = .pending && o.paidChain = none

/-- Another transaction. -/
def other (s : System) (m : Merchant) (order : Option MerchantOrder) : Option System :=
  if s.mayWrite m then
    match order with
    | none => some { s with merchants := s.merchants.put m }
    | some o =>
      if mayAdd o then
        (s.orders.insert? o).map fun orders => { s with orders, merchants := s.merchants.put m }
      else none
  else none

/-- One event of the system; `none` when it is not enabled. -/
def step (s : System) : Event → Option System
  | .begin p now pending =>
    if (s.passes p).isNone && s.isPendingList pending then
      -- without pending orders the pass returns at once
      if pending = [] then some s else some (s.setPass p (openPass now pending))
    else none
  | .loadMerchants p =>
    (s.passes p).bind fun pass =>
      if pass.stage = .opened then
        some (s.setPass p { pass with stage := .looping, merchants := s.loadedMerchants pass })
      else none
  | .visit p a =>
    (s.passes p).bind fun pass =>
      if pass.stage = .looping then (pass.nextVisit a).map (s.visit p pass) else none
  | .push p outcome =>
    (s.passes p).bind fun pass =>
      if pass.stage = .notifying then some (s.push p pass outcome) else none
  | .finish p =>
    (s.passes p).bind fun pass =>
      if pass.stage = .looping ∧ pass.todo = [] then
        some (if s.canSave pass then (s.save pass).endPass p else s.endPass p)
      else none
  | .abort p => (s.passes p).map fun _ => s.endPass p
  | .other m order => s.other m order

/-- The orders that a pass reads are stored, and pending. -/
theorem mem_of_isPendingList {s : System} {pending : List MerchantOrder}
    (h : s.isPendingList pending) {o : MerchantOrder} (ho : o ∈ pending) :
    o ∈ s.orders.rows ∧ o.status = .pending := by
  simp only [isPendingList, Bool.and_eq_true, List.isPerm_iff] at h
  simpa using h.1.mem_iff.mp ho

theorem nodup_of_isPendingList {s : System} {pending : List MerchantOrder}
    (h : s.isPendingList pending) : (pending.map MerchantOrder.id).Nodup := by
  simp only [isPendingList, Bool.and_eq_true, List.isPerm_iff] at h
  apply (h.1.map MerchantOrder.id).nodup_iff.mpr
  exact s.orders.nodup.sublist (List.filter_sublist.map _)

theorem other_eq_some {s s' : System} {m : Merchant} {order : Option MerchantOrder}
    (h : s.other m order = some s') : s.mayWrite m ∧ ∃ orders,
      s' = { s with orders := orders, merchants := s.merchants.put m } ∧
        (orders = s.orders ∨
          ∃ o, order = some o ∧ mayAdd o ∧ s.orders.insert? o = some orders) := by
  unfold other at h
  split_ifs at h with hw
  refine ⟨hw, ?_⟩
  cases order with
  | none => exact ⟨s.orders, (Option.some.inj h).symm, .inl rfl⟩
  | some o =>
    simp only at h
    split_ifs at h with ho
    obtain ⟨orders, hins, rfl⟩ := Option.map_eq_some_iff.mp h
    exact ⟨orders, rfl, .inr ⟨o, rfl, ho, hins⟩⟩

/-- A transaction that adds an order. -/
theorem other_add {s s' : System} {m : Merchant} {o : MerchantOrder}
    (h : s.other m (some o) = some s') : mayAdd o ∧ ∃ orders, s.orders.insert? o = some orders ∧
      s' = { s with orders := orders, merchants := s.merchants.put m } := by
  unfold other at h
  split_ifs at h with hw
  simp only at h
  split_ifs at h with ho
  obtain ⟨orders, hins, rfl⟩ := Option.map_eq_some_iff.mp h
  exact ⟨ho, orders, hins, rfl⟩

/-- Another transaction leaves the orders alone that exist. -/
theorem find?_other {s s' : System} {m : Merchant} {order : Option MerchantOrder}
    (h : s.other m order = some s') {id : OrderId} {o : MerchantOrder}
    (hf : s.orders.find? id = some o) : s'.orders.find? id = some o := by
  obtain ⟨-, orders, rfl, rfl | ⟨o₀, -, -, hins⟩⟩ := other_eq_some h
  · exact hf
  · show orders.find? id = some o
    rw [Table.find?_insert? hins, if_neg, hf]
    intro hk
    obtain ⟨hnone, -⟩ := Table.insert?_eq_some hins
    rw [hk, hf] at hnone
    cases hnone

/-- The orders after another transaction are the ones before, and the one that it adds. -/
theorem mem_other {s s' : System} {m : Merchant} {order : Option MerchantOrder}
    (h : s.other m order = some s') {o : MerchantOrder} (ho : o ∈ s'.orders.rows) :
    o ∈ s.orders.rows ∨ order = some o ∧ mayAdd o := by
  obtain ⟨-, orders, rfl, rfl | ⟨o₀, rfl, hmay, hins⟩⟩ := other_eq_some h
  · exact .inl ho
  · rw [show orders.rows = s.orders.rows ++ [o₀] from (Table.insert?_eq_some hins).2,
      List.mem_append, List.mem_singleton] at ho
    rcases ho with ho | rfl
    · exact .inl ho
    · exact .inr ⟨rfl, hmay⟩

theorem mayWrite_cases {s : System} {m : Merchant} (h : s.mayWrite m) :
    (s.merchants.find? m.id = none ∧ ∀ a, m.consumed a = 0) ∨
      ∃ stored, s.merchants.find? m.id = some stored ∧ ∀ a, m.consumed a = stored.consumed a := by
  unfold mayWrite at h
  cases hf : s.merchants.find? m.id with
  | none =>
    simp only [hf, Bool.and_eq_true, decide_eq_true_eq] at h
    refine .inl ⟨rfl, fun a => ?_⟩
    cases a
    · exact h.1
    · exact h.2
  | some stored =>
    simp only [hf, Bool.and_eq_true, decide_eq_true_eq] at h
    refine .inr ⟨stored, rfl, fun a => ?_⟩
    cases a
    · exact h.1
    · exact h.2

/-- Another transaction leaves the watermarks alone that exist. -/
theorem find?_merchants_other {s s' : System} {m : Merchant} {order : Option MerchantOrder}
    (h : s.other m order = some s') {id : MerchantId} {m₀ : Merchant}
    (hf : s.merchants.find? id = some m₀) :
    ∃ m', s'.merchants.find? id = some m' ∧ ∀ a, m'.consumed a = m₀.consumed a := by
  obtain ⟨hmay, orders, rfl, -⟩ := other_eq_some h
  show ∃ m', (s.merchants.put m).find? id = some m' ∧ _
  rw [Table.find?_put]
  split_ifs with hk
  · refine ⟨m, rfl, ?_⟩
    rcases mayWrite_cases hmay with ⟨hnone, -⟩ | ⟨stored, hsome, hcons⟩
    · rw [← key_merchant, hk, hf] at hnone
      cases hnone
    · rw [← key_merchant, hk] at hsome
      obtain rfl : m₀ = stored := Option.some.inj (hf.symm.trans hsome)
      exact hcons
  · exact ⟨m₀, hf, fun _ => rfl⟩

/-! ## The running passes -/

variable {s : System} {p q : PassId} {pass other' : Pass}

@[simp] theorem passes_setPass_self (s : System) (p : PassId) (pass : Pass) :
    (s.setPass p pass).passes p = some pass := Function.update_self ..

@[simp] theorem passes_endPass_self (s : System) (p : PassId) : (s.endPass p).passes p = none :=
  Function.update_self ..

theorem passes_setPass (h : (s.setPass p pass).passes q = some other') :
    (q = p ∧ other' = pass) ∨ (q ≠ p ∧ s.passes q = some other') := by
  simp only [setPass, Function.update_apply] at h
  split_ifs at h with hq
  · exact .inl ⟨hq, (Option.some.inj h).symm⟩
  · exact .inr ⟨hq, h⟩

theorem passes_endPass (h : (s.endPass p).passes q = some other') :
    q ≠ p ∧ s.passes q = some other' := by
  simp only [endPass, Function.update_apply] at h
  split_ifs at h with hq
  exact ⟨hq, h⟩

/-- To end a pass is to forget whatever it was last. -/
theorem endPass_setPass (s : System) (p : PassId) (pass : Pass) :
    (s.setPass p pass).endPass p = s.endPass p := by
  simp [setPass, endPass, Function.update_idem]

end System

end Gateway
