import Gateway.Service.Transactions

/-!
# The service is a run of the poll system

In the poll system, whatever else happens to the database is one event: another transaction commits
a merchant's row, whose watermarks it leaves alone, and perhaps a new order that is pending. The
checkouts of the service take many steps with stale copies, locks and rollbacks. Here they are shown
to be such events, each at its commit: every run of the service is a run of the poll system over the
same tables and passes (`service_refines`), so that what holds of the one in every run holds of the
other.
-/

namespace Gateway

open Foundations

/-- An order as `create_order` makes it. -/
def MerchantOrder.Created (o : MerchantOrder) : Prop := o.status = .pending ∧ o.Blank

/-! ## Transactions leave the watermarks alone -/

namespace Checkouts

/-- A copy of the merchant with the watermarks that were read. -/
def MarksKept (c : Checkouts) (copy : Tracked Merchant) : Prop :=
  copy.cur.id = c.row.id ∧ ∀ a, copy.cur.consumed a = copy.base.consumed a

/-- What the transactions have written or will write leaves the watermarks of the row alone, and the
orders that they add are new ones of the merchant. -/
structure MarksHold (c : Checkouts) : Prop where
  lock : ∀ t row, c.lock = some (t, row) →
    row.id = c.row.id ∧ ∀ a, row.consumed a = c.row.consumed a
  txs : ∀ t tx, c.txs t = some tx → c.MarksKept tx.copy ∧
    ∀ o ∈ tx.stage.orders, o.merchantId = c.row.id ∧ o.Created

namespace MarksHold

variable {c c' : Checkouts} {t q : TxId} {tx : Tx} {row : Merchant}

theorem version (h : MarksHold c) (hrow : c.version t = some row) :
    row.id = c.row.id ∧ ∀ a, row.consumed a = c.row.consumed a := by
  rcases version_eq_some hrow with ⟨-, rfl⟩ | hlock
  · exact ⟨rfl, fun _ => rfl⟩
  · exact h.lock t row hlock

/-- A flush leaves the watermarks alone. -/
theorem write (h : MarksHold c) (htx : c.txs t = some tx) (hrow : c.version t = some row) :
    (Merchant.write tx.copy row).id = c.row.id ∧
      ∀ a, (Merchant.write tx.copy row).consumed a = c.row.consumed a := by
  obtain ⟨hid, hmarks⟩ := h.version hrow
  refine ⟨hid, fun a => ?_⟩
  rw [Merchant.consumed_write, (h.txs t tx htx).1.2 a, writeBackAs_clean, hmarks a]

theorem setTx (h : MarksHold c) (htx : c.MarksKept tx.copy ∧
    ∀ o ∈ tx.stage.orders, o.merchantId = c.row.id ∧ o.Created) : MarksHold (c.setTx t tx) where
  lock := h.lock
  txs := by
    intro q tx' hq
    rcases txs_setTx_eq_some hq with ⟨rfl, rfl⟩ | ⟨-, hq⟩
    · exact htx
    · exact h.txs q tx' hq

theorem setLock (h : MarksHold c) {row' : Merchant}
    (hrow' : row'.id = c.row.id ∧ ∀ a, row'.consumed a = c.row.consumed a) :
    MarksHold { c with lock := some (t, row') } where
  lock := by
    rintro _ _ ⟨⟩
    exact hrow'
  txs := h.txs

theorem release (h : MarksHold c) (t : TxId) : MarksHold (c.release t) where
  lock := by
    intro q row hlock
    rw [lock_release] at hlock
    split_ifs at hlock
    exact h.lock q row hlock
  txs := fun q tx hq => h.txs q tx (txs_ended_eq_some hq).2

/-- The end of a transaction, over a row with the same watermarks. -/
theorem ended (h : MarksHold c) {row' : Merchant}
    (hrow' : row'.id = c.row.id ∧ ∀ a, row'.consumed a = c.row.consumed a) {filed : List Filed}
    {lock : Option (TxId × Merchant)} (hlock : lock = none ∨ lock = c.lock) :
    MarksHold { row := row', filed, lock, txs := Function.update c.txs t none } where
  lock := by
    intro q row hq
    rcases hlock with rfl | rfl
    · cases hq
    · obtain ⟨hid, hmarks⟩ := h.lock q row hq
      exact ⟨hid.trans hrow'.1.symm, fun a => (hmarks a).trans (hrow'.2 a).symm⟩
  txs := by
    intro q tx hq
    obtain ⟨⟨hid, hmarks⟩, hadded⟩ := h.txs q tx (txs_ended_eq_some hq).2
    refine ⟨⟨hid.trans hrow'.1.symm, hmarks⟩, fun o ho => ?_⟩
    exact ⟨(hadded o ho).1.trans hrow'.1.symm, (hadded o ho).2⟩

/-- **No transaction touches the watermarks**: they are kept by every event but a confirmation. -/
theorem step (h : MarksHold c) {derive : ℤ → String → Option String} {e : CheckoutEvent}
    (he : ∀ t clock payment, e ≠ .confirm t clock payment) (hs : c.step derive e = some c') :
    MarksHold c' ∧ c'.row.id = c.row.id ∧ ∀ a, c'.row.consumed a = c.row.consumed a := by
  have hsame : c.row.id = c.row.id ∧ ∀ a, c.row.consumed a = c.row.consumed a :=
    ⟨rfl, fun _ => rfl⟩
  cases Move.of_step hs with
  | load _ hid => exact ⟨h.setTx ⟨⟨hid, fun _ => rfl⟩, by simp [TxStage.orders]⟩, hsame⟩
  | check htx hstage hq =>
    obtain ⟨rfl, -⟩ := checkQuota_ok hq
    obtain ⟨⟨hid, hmarks⟩, -⟩ := h.txs _ _ htx
    refine ⟨h.setTx ⟨⟨?_, fun a => ?_⟩, by simp [TxStage.orders]⟩, hsame⟩
    · simpa using hid
    · simpa using hmarks a
  | confirm => exact absurd rfl (he _ _ _)
  | @reserve t tx req row address htx hstage hrow =>
    obtain ⟨hwid, hwrite⟩ := h.write htx hrow
    obtain ⟨⟨hid, hmarks⟩, -⟩ := h.txs t tx htx
    have hlocked : MarksHold { c with lock := some (t, { Merchant.write tx.copy row with
        nextEvmIndex := (Merchant.write tx.copy row).nextEvmIndex + 1 }) } := by
      refine h.setLock ⟨hwid, fun a => ?_⟩
      rw [← hwrite a]
      cases a <;> rfl
    refine ⟨hlocked.setTx ⟨⟨hid, fun a => ?_⟩, fun o ho => ?_⟩, hsame⟩
    · cases a <;> rfl
    obtain rfl := List.mem_singleton.mp ho
    exact ⟨hid, rfl, rfl, rfl, rfl, rfl, rfl⟩
  | idle => exact ⟨h, hsame⟩
  | @flush t tx row htx hrow =>
    obtain ⟨⟨hid, hmarks⟩, hadded⟩ := h.txs t tx htx
    exact ⟨(h.setLock (h.write htx hrow)).setTx ⟨⟨hid, fun _ => rfl⟩, hadded⟩, hsame⟩
  | commitClean htx hheld _ => exact ⟨h.ended hsame (.inr rfl), hsame⟩
  | commit htx hrow => exact ⟨h.ended (h.write htx hrow) (.inl rfl), h.write htx hrow⟩
  | release _ => exact ⟨h.release _, hsame⟩

/-- What is filed does not matter, nor which row it is, if it has the same watermarks and nothing
has been written over it. -/
theorem congr (h : MarksHold c) (hlock : c'.lock = c.lock) (htxs : c'.txs = c.txs)
    (hid : c'.row.id = c.row.id) (hrow : c'.row = c.row ∨ c.lock = none) : MarksHold c' where
  lock := by
    intro t row ht
    rw [hlock] at ht
    rcases hrow with hrow | hnone
    · rw [hrow]
      exact h.lock t row ht
    · rw [hnone] at ht
      cases ht
  txs := by
    intro t tx ht
    rw [htxs] at ht
    rw [MarksKept, hid]
    exact h.txs t tx ht

end MarksHold

end Checkouts

/-! ## Passes and the rows of the merchants -/

/-- An event of a pass leaves the row of a merchant as it is, or flushes the copy of a pass over
it. -/
theorem Move.merchant {s s' : System} {e : Event} (h : Move s e s')
    (hother : ∀ m order, e ≠ .other m order) {id : MerchantId} {m' : Merchant}
    (hm' : s'.merchants.find? id = some m') : ∃ m, s.merchants.find? id = some m ∧
      (m' = m ∨ ∃ p pass t, s.passes p = some pass ∧ s.canSave pass ∧
        (e = .finish p ∨ e = .push p .commits) ∧ pass.merchants id = some t ∧
        m' = Merchant.write t m) := by
  have hsave : ∀ {p pass}, s.passes p = some pass → s.canSave pass →
      (e = .finish p ∨ e = .push p .commits) → (s.save pass).merchants.find? id = some m' →
      ∃ m, s.merchants.find? id = some m ∧ (m' = m ∨ ∃ p pass t, s.passes p = some pass ∧
        s.canSave pass ∧ (e = .finish p ∨ e = .push p .commits) ∧ pass.merchants id = some t ∧
        m' = Merchant.write t m) := by
    intro p pass hp hsave he hfind
    rw [s.find?_save_merchants] at hfind
    obtain ⟨m, hm, hwrite⟩ := Option.map_eq_some_iff.mp hfind
    refine ⟨m, hm, ?_⟩
    cases ht : pass.merchants id with
    | none =>
      rw [ht] at hwrite
      exact .inl hwrite.symm
    | some t =>
      rw [ht] at hwrite
      exact .inr ⟨p, pass, t, hp, hsave, he, ht, hwrite.symm⟩
  cases h with
  | pushSave hp _ hcan => exact hsave hp hcan (.inr rfl) hm'
  | finishSave hp hcan => exact hsave hp hcan (.inl rfl) hm'
  | other => exact absurd rfl (hother _ _)
  | @visit _ _ _ _ _ _ v => cases v <;> exact ⟨m', hm', .inl rfl⟩
  | _ => exact ⟨m', hm', .inl rfl⟩

namespace Service

variable {s s' : Service} {derive : ℤ → String → Option String} {id : MerchantId} {row : Merchant}
  {t : TxId}

/-- A pass leaves a locked row alone. -/
theorem row_of_poll {e : Event} {system : System} (hother : ∀ m order, e ≠ .other m order)
    (hwaits : s.waits e = false) (h : Gateway.Move s.system e system) {row' : Merchant}
    (hrow' : system.merchants.find? id = some row') : ∃ row, s.system.merchants.find? id = some row ∧
      row'.id = row.id ∧ (row' = row ∨ (s.opened id).lock = none) := by
  obtain ⟨row, hrow, rfl | ⟨p, pass, c, hp, hsave, he, hc, rfl⟩⟩ := h.merchant hother hrow'
  · exact ⟨row', hrow, rfl, .inl rfl⟩
  · refine ⟨row, hrow, rfl, ?_⟩
    obtain ⟨hmem, hid⟩ := Table.find?_eq_some.mp hrow
    rw [key_merchant] at hid
    have hwait : ((s.opened id).lock.isSome && decide (c.cur ≠ c.base)) = false := by
      have hall : ((s.system.passes p).any fun pass =>
          s.system.canSave pass && s.system.merchants.rows.any fun m =>
            (s.opened m.id).lock.isSome && (pass.merchants m.id).any fun t => t.cur ≠ t.base) =
          false := by
        rcases he with rfl | rfl <;> exact hwaits
      simp only [hp, Option.any_some, hsave, Bool.true_and, List.any_eq_false] at hall
      have hrow := hall row hmem
      simp only [hid, hc, Option.any_some, Bool.not_eq_true] at hrow
      exact hrow
    cases hlock : (s.opened id).lock with
    | none => exact .inr rfl
    | some holder =>
      left
      apply Merchant.write_of_clean
      simpa [hlock] using hwait

/-! ## The refinement -/

/-- The transactions of every merchant leave the watermarks alone. -/
def MarksHold (s : Service) : Prop :=
  ∀ id row, s.system.merchants.find? id = some row → (s.view id row).MarksHold

namespace MarksHold

theorem keep (h : s.MarksHold) (hrow : s.system.merchants.find? id = some row) {c : Checkouts}
    (hc : c.MarksHold) (hsame : c.row = row) : (s.keep id c).MarksHold := by
  intro id' row' hrow'
  by_cases hid : id' = id
  · subst hid
    obtain rfl : row = row' := Option.some.inj (hrow.symm.trans hrow')
    refine hc.congr ?_ ?_ (by rw [hsame]; rfl) (.inl hsame.symm)
    · simp [view, Service.keep]
    · simp [view, Service.keep]
  · refine (h id' row' hrow').congr ?_ ?_ rfl (.inl rfl)
    · simp [view, Service.keep, hid]
    · simp [view, Service.keep, hid]

/-- A commit stores a row with the watermarks of the one before. -/
theorem commit (h : s.MarksHold) {c : Checkouts} (hc : c.MarksHold) (hid : c.row.id = id)
    {system : System} (hfind : ∀ id', system.merchants.find? id' =
      if c.row.id = id' then some c.row else s.system.merchants.find? id') :
    ({ s.keep id c with system } : Service).MarksHold := by
  intro id' row' hrow'
  rw [hfind] at hrow'
  split_ifs at hrow' with he
  · obtain rfl := Option.some.inj hrow'
    obtain rfl : id = id' := hid.symm.trans he
    refine hc.congr ?_ ?_ rfl (.inl rfl)
    · simp [view, Service.keep]
    · simp [view, Service.keep]
  · have hne : id' ≠ id := fun hne => he (hid.trans hne.symm)
    refine (h id' row' hrow').congr ?_ ?_ rfl (.inl rfl)
    · simp [view, Service.keep, hne]
    · simp [view, Service.keep, hne]

/-- The commit of a transaction is another transaction of the poll system. -/
theorem other_of_store (h : s.MarksHold) (hrow : s.system.merchants.find? id = some row)
    {m : Merchant} (hid : m.id = row.id) (hmarks : ∀ a, m.consumed a = row.consumed a)
    {system : System} (hstore : store s.system m (s.added id t) = some system) :
    (∃ order, (∀ o ∈ order, o.Created) ∧ s.system.other m order = some system) ∧
      ∀ id', system.merchants.find? id' =
        if m.id = id' then some m else s.system.merchants.find? id' := by
  have hkey : row.id = id := (Table.find?_eq_some.mp hrow).2
  have hmay : s.system.mayWrite m := by
    have husdc : m.solanaUsdcConsumed = row.solanaUsdcConsumed := hmarks .usdc
    have husdt : m.solanaUsdtConsumed = row.solanaUsdtConsumed := hmarks .usdt
    simp [System.mayWrite, hid, hkey, hrow, husdc, husdt]
  have hnew : ∀ o ∈ s.added id t, o.Created := by
    intro o ho
    unfold added at ho
    cases htx : (s.opened id).txs t with
    | none => simp [htx] at ho
    | some tx =>
      rw [htx] at ho
      exact (((h id row hrow).txs t tx htx).2 o ho).2
  cases hadded : s.added id t with
  | nil =>
    rw [hadded] at hstore
    cases hstore
    refine ⟨⟨none, by simp, by simp [System.other, hmay]⟩, fun id' => ?_⟩
    exact Table.find?_put s.system.merchants m id'
  | cons o os =>
    rw [hadded] at hstore
    obtain ⟨orders, hinsert, rfl⟩ := Option.map_eq_some_iff.mp hstore
    have ho := hnew o (by simp [hadded])
    refine ⟨⟨some o, by simpa using ho, ?_⟩, fun id' => ?_⟩
    · simp [System.other, hmay, System.mayAdd, ho.1, ho.2.1, hinsert]
    · exact Table.find?_put s.system.merchants m id'

end MarksHold

end Service

/-- A switch of the billing mode leaves the watermarks alone. -/
theorem consumed_of_setBillingMode {mode : String} {m m' : Merchant}
    (h : setBillingMode mode m = .ok m') : m'.id = m.id ∧ ∀ a, m'.consumed a = m.consumed a := by
  have hsame : ∀ (billing : BillingMode) (pending : Option BillingMode) (a : Asset),
      ({ m with billingMode := billing, pendingBillingMode := pending } : Merchant).consumed a =
        m.consumed a := by
    intro billing pending a
    cases a <;> rfl
  unfold setBillingMode at h
  split at h
  · cases h
  · split_ifs at h <;> cases h <;> exact ⟨rfl, hsame _ _⟩

namespace Service

variable {s s' : Service} {derive : ℤ → String → Option String} {ok : System → Event → Prop}

/-- The condition `ok` admits the transactions of the service. -/
def Admits (ok : System → Event → Prop) : Prop :=
  ∀ system m order, (∀ o ∈ order, o.Created) → ok system (.other m order)

/-- The events of the passes meet a condition of the poll system. -/
def OnPoll (ok : System → Event → Prop) (s : Service) : ServiceEvent → Prop
  | .poll e => ok s.system e
  | _ => True

/-- **One event of the service is one of the poll system**, or none: a transaction is one at its
commit, and the events of the passes are themselves. -/
theorem MarksHold.step (h : s.MarksHold) (hok : Admits ok) {e : ServiceEvent} (he : s.OnPoll ok e)
    (hmove : Move derive s e s') (hpoll : ∀ e', e = .poll e' → s.system.step e' = some s'.system) :
    s'.MarksHold ∧ ∃ es, Run System.step ok s.system es s'.system := by
  have hnone : ∃ es, Run System.step ok s.system es s.system := ⟨[], .nil _⟩
  cases hmove with
  | @poll e system hother hwaits hmove =>
    refine ⟨fun id row' hrow' => ?_, [e], .cons he (hpoll e rfl) (.nil _)⟩
    obtain ⟨row, hrow, hid, hsame⟩ := row_of_poll hother hwaits hmove hrow'
    exact (h id row hrow).congr rfl rfl hid hsame
  | @checkout id row e c hrow hc hconfirm hcommit =>
    obtain ⟨hc', -, -⟩ := (h id row hrow).step hconfirm hc
    exact ⟨h.keep hrow hc' (view_unchanged (.of_step hc) hcommit).1, hnone⟩
  | @lost id row t hrow => exact ⟨h.keep hrow ((h id row hrow).release t) rfl, hnone⟩
  | @commit id row t c system hrow hc hstore =>
    obtain ⟨hc', hid, hmarks⟩ := (h id row hrow).step (by simp) hc
    obtain ⟨⟨order, hnew, hother⟩, hfind⟩ := h.other_of_store hrow hid hmarks hstore
    have hkey : row.id = id := (Table.find?_eq_some.mp hrow).2
    exact ⟨h.commit hc' (hid.trans hkey) hfind,
      [.other c.row order], .cons (hok _ _ _ hnew) hother (.nil _)⟩
  | refused => exact ⟨h, hnone⟩
  | @setBillingMode id row t mode tx m hrow htx hstage hmode =>
    obtain ⟨hid, hmarks⟩ := consumed_of_setBillingMode hmode
    obtain ⟨⟨hcur, hkept⟩, hadded⟩ := (h id row hrow).txs t tx htx
    refine ⟨h.keep hrow ((h id row hrow).setTx ⟨⟨hid.trans hcur, fun a => ?_⟩, hadded⟩) rfl, hnone⟩
    exact (hmarks a).trans (hkept a)

/-- No transaction is under way. -/
def Idle (s : Service) : Prop := ∀ id, (s.opened id).lock = none ∧ ∀ t, (s.opened id).txs t = none

theorem Idle.marksHold (h : s.Idle) : s.MarksHold := by
  intro id row _
  constructor
  · intro t row hlock
    rw [show (s.view id _).lock = none from (h id).1] at hlock
    cases hlock
  · intro t tx htx
    rw [show (s.view id _).txs t = none from (h id).2 t] at htx
    cases htx

theorem step_poll {e : Event} (h : s.step derive (.poll e) = some s') :
    s.system.step e = some s'.system := by
  have hstep : (if s.waits e then none else
      (s.system.step e).map fun system => { s with system }) = some s' := by
    cases e with
    | other m order => simp [step] at h
    | _ => exact h
  split_ifs at hstep
  obtain ⟨system, hs, rfl⟩ := Option.map_eq_some_iff.mp hstep
  exact hs

end Service

open Service in
/-- **The service refines the poll system.** Whatever checkouts, switches of the billing mode and
passes interleave, the tables, the passes and what is remembered of them are those of a run of the
poll system, in which the passes take the same steps under the same conditions and every other
transaction leaves the watermarks alone and adds at most a new order. -/
theorem service_refines {s₀ s : Service} {es : List ServiceEvent}
    {derive : ℤ → String → Option String} {ok : System → Event → Prop} (hok : Admits ok)
    (h0 : s₀.Idle) (run : Run (Service.step derive) (OnPoll ok) s₀ es s) :
    ∃ es', Run System.step ok s₀.system es' s.system := by
  refine (run.simulates Service.system (fun s e s' hs he hstep => ?_) h0.marksHold).2
  apply hs.step hok he (.of_step hstep)
  rintro e' rfl
  exact step_poll hstep

/-! ### A checkout during a pass -/

/-- The sample merchant, without orders. -/
def idleService : Service where
  system := sampleSystem [] List.nodup_nil
  opened := fun _ => ⟨none, fun _ => none⟩

/-- A checkout of five dollars. -/
def fiveRequest (id : OrderId) : CheckoutRequest :=
  { sampleRequest id with amountUsd := fiveOrder.amountUsd }

/-- The order of the first checkout. -/
def firstFive : MerchantOrder := newOrder (fiveRequest 1) sampleMerchant 0 "0x44"

/-- Two addresses that a merchant derives, and no other. -/
def twoAddresses (first second : String) : ℤ → String → Option String
  | 0, _ => some first
  | 1, _ => some second
  | _, _ => none

/-- The first order is paid while a second checkout is under way; the pass commits after it. -/
def busyRun : List ServiceEvent :=
  [.checkout 1 (.load 1 sampleMerchant), .checkout 1 (.check 1 (fiveRequest 1)),
    .checkout 1 (.reserve 1), .checkout 1 (.commit 1),
    .checkout 1 (.load 2 sampleMerchant), .checkout 1 (.check 2 (fiveRequest 2)),
    .poll (.begin 0 99 [firstFive]), .poll (.loadMerchants 0), .checkout 1 (.reserve 2),
    .poll (.visit 0 fiveAnswers), .poll (.push 0 .quiet), .checkout 1 (.commit 2),
    .poll (.finish 0)]

/-- Do the visits of an event find the order of the sample? -/
def Service.seesOrder (s : Service) : ServiceEvent → Bool
  | .poll e => s.system.seesOrder e
  | _ => true

theorem checks_busy {s : Service} {e : ServiceEvent} (he : e ∈ busyRun) (hsees : s.seesOrder e) :
    s.OnPoll System.ChecksEvm e := by
  simp only [busyRun, List.mem_cons, List.not_mem_nil, or_false] at he
  rcases he with rfl | rfl | rfl | rfl | rfl | rfl | rfl | rfl | rfl | rfl | rfl | rfl | rfl
  case inr.inr.inr.inr.inr.inr.inr.inr.inr.inl => exact checksEvm_of_sees hsees
  all_goals trivial

/-- What the run leaves of the two orders, and the counter of the merchant. -/
theorem run_busy : ∃ s o o' m,
    Run (Service.step (twoAddresses "0x44" "0x55")) (Service.OnPoll System.ChecksEvm)
      idleService busyRun
      s ∧
    s.system.orders.find? 1 = some o ∧ s.system.orders.find? 2 = some o' ∧
    s.system.merchants.find? 1 = some m ∧ o.status = .paid ∧ o'.status = .pending ∧
    o'.evmDerivationIndex = 1 ∧ m.nextEvmIndex = 2 := by
  have hrun : ((exec (restrict Service.seesOrder (Service.step (twoAddresses "0x44" "0x55")))
      idleService
      busyRun).bind fun s => (s.system.orders.find? 1).bind fun o =>
        (s.system.orders.find? 2).bind fun o' => (s.system.merchants.find? 1).map fun m =>
          (o.status, o'.status, o'.evmDerivationIndex, m.nextEvmIndex)) =
      some (.paid, .pending, 1, 2) := by
    decide +kernel
  obtain ⟨s, hs, h⟩ := Option.bind_eq_some_iff.mp hrun
  obtain ⟨o, ho, h⟩ := Option.bind_eq_some_iff.mp h
  obtain ⟨o', ho', h⟩ := Option.bind_eq_some_iff.mp h
  obtain ⟨m, hm, h⟩ := Option.map_eq_some_iff.mp h
  simp only [Prod.mk.injEq] at h
  have hsees := Run.of_exec_restrict hs
  have hevents : Run (Service.step (twoAddresses "0x44" "0x55")) (fun _ e => e ∈ busyRun) idleService
      busyRun s := .of_exec_of_forall (fun _ he _ => he) hsees.exec_eq
  have run := (hevents.inter hsees).mono fun _ _ hok => checks_busy hok.1 hok.2
  exact ⟨s, o, o', m, run, ho, ho', hm, h⟩

/-- The busy run as one of the poll system. -/
theorem service_refines_busy : ∃ s o es',
    exec (Service.step (twoAddresses "0x44" "0x55")) idleService busyRun = some s ∧
      s.system.orders.find? 1 = some o ∧ o.status = .paid ∧
      Run System.step System.ChecksEvm idleService.system es' s.system := by
  obtain ⟨s, o, o', m, run, ho, -, -, hpaid, -⟩ := run_busy
  obtain ⟨es', hes'⟩ := service_refines (fun _ _ _ _ => trivial)
    (fun _ => ⟨rfl, fun _ => rfl⟩) run
  exact ⟨s, o, es', run.exec_eq, ho, hpaid, hes'⟩

end Gateway
