import Gateway.Foundations.Runs
import Gateway.Poll.Moves

/-!
# Concurrent checkouts of one merchant

Any number of transactions work on one row of `merchants`: checkouts, which run `create_order`, and
poll passes, which confirm orders of the merchant. Each works on its own copy of the row, which may
be stale, and writes the columns it has changed when it flushes. The first statement of a
transaction that writes the row takes the row's lock until the transaction ends; the statement of
another one waits for that and then sees what has been committed. The uncommitted row is kept with
the lock.

Between the steps of one transaction the others take any of theirs. A statement that fails, or a
request that is dropped, is a rollback. Every committed order is filed under the billing cycle that
it was committed in, which the program does not record.
-/

namespace Gateway

open Foundations

/-- The name of a transaction. -/
abbrev TxId := ℕ

/-- Where a transaction stands. -/
inductive TxStage
  /-- It has a copy of the merchant. -/
  | loaded
  /-- `create_order` has passed the quota. -/
  | checked (req : CheckoutRequest)
  /-- `create_order` has returned. -/
  | added (order : MerchantOrder)

/-- A transaction with its session's copy of the merchant. -/
structure Tx where
  copy : Tracked Merchant
  stage : TxStage

/-- A committed order, and the end of the billing cycle that it was committed in. -/
structure Filed where
  order : MerchantOrder
  cycle : Option Timestamp

/-- The transactions on the row of one merchant, and the orders that they have committed. -/
structure Checkouts where
  /-- The committed row. -/
  row : Merchant
  filed : List Filed
  /-- The holder of the row's lock, and the row as it has written it. -/
  lock : Option (TxId × Merchant)
  txs : TxId → Option Tx

/-- What a transaction may do next. -/
inductive CheckoutEvent
  /-- A transaction gets a copy of the merchant, possibly a stale one. -/
  | load (t : TxId) (m : Merchant)
  /-- `create_order` up to the quota. -/
  | check (t : TxId) (req : CheckoutRequest)
  /-- The rest of `create_order`, from the `UPDATE ... RETURNING` on. -/
  | reserve (t : TxId)
  /-- A poll pass confirms an order of the merchant. -/
  | confirm (t : TxId) (clock : Timestamp) (payment : Payment)
  | flush (t : TxId)
  | commit (t : TxId)
  | rollback (t : TxId)

/-- The orders that a transaction has added. -/
def TxStage.orders : TxStage → List MerchantOrder
  | .added order => [order]
  | _ => []

namespace Checkouts

variable (s : Checkouts)

/-- A transaction goes on. -/
def setTx (t : TxId) (tx : Tx) : Checkouts := { s with txs := Function.update s.txs t (some tx) }

/-- The row as the transaction has written it, if it has. -/
def held (t : TxId) : Option Merchant :=
  match s.lock with
  | none => none
  | some (holder, row) => if holder = t then some row else none

/-- The row that a statement of the transaction finds; `none` while it has to wait. -/
def version (t : TxId) : Option Merchant :=
  match s.lock with
  | none => some s.row
  | some _ => s.held t

/-- The transaction is over, and its lock is free. -/
def release (t : TxId) : Checkouts :=
  { s with
    lock := if (s.held t).isSome then none else s.lock
    txs := Function.update s.txs t none }

/-- The flush of a session: it takes the lock if the copy has changed. -/
def flush (t : TxId) (tx : Tx) : Option (Checkouts × Tx) :=
  if tx.copy.cur = tx.copy.base then some (s, tx)
  else if Merchant.fits tx.copy then
    (s.version t).map fun row =>
      ({ s with lock := some (t, Merchant.write tx.copy row) }, { tx with copy := tx.copy.sync })
  else none

/-- The statement of `_reserve_next_evm_index` on a row, and what follows it in `create_order`; the
outer option is an index out of the range of its column. -/
def reserveOn (derive : ℤ → String → Option String) (t : TxId) (tx : Tx) (req : CheckoutRequest)
    (row : Merchant) : Option Checkouts :=
  let newValue := row.nextEvmIndex + 1
  if newValue < 2 ^ 31 then
    let m := countOrder newValue tx.copy.cur
    match derive (newValue - 1) m.payoutEvmXpub with
    | none => some (s.release t)
    | some address =>
      some ({ s with lock := some (t, { row with nextEvmIndex := newValue }) }.setTx t
        { copy := tx.copy.set m, stage := .added (newOrder req m (newValue - 1) address) })
  else none

/-- The commit after the last flush. -/
def commit (t : TxId) (tx : Tx) : Checkouts :=
  let row := (s.held t).getD s.row
  { s.release t with
    row
    filed := s.filed ++ tx.stage.orders.map fun o => ⟨o, row.billingCycleResetAt⟩ }

/-- One event; `none` when it is not enabled. -/
def step (derive : ℤ → String → Option String) (s : Checkouts) : CheckoutEvent → Option Checkouts
  | .load t m =>
    if (s.txs t).isNone && m.id = s.row.id then
      some (s.setTx t { copy := Tracked.load m, stage := .loaded })
    else none
  | .check t req =>
    (s.txs t).bind fun tx =>
      match tx.stage with
      | .loaded =>
        match checkQuota req tx.copy.cur with
        | .error _ => some (s.release t)
        | .ok m => some (s.setTx t { copy := tx.copy.set m, stage := .checked req })
      | _ => none
  | .reserve t =>
    (s.txs t).bind fun tx =>
      match tx.stage with
      | .checked req =>
        -- the session flushes before it sends the statement
        (s.flush t tx).bind fun (s, tx) => (s.version t).bind (s.reserveOn derive t tx req)
      | _ => none
  | .confirm t clock payment =>
    (s.txs t).bind fun tx =>
      match tx.stage with
      | .loaded =>
        some (s.setTx t { tx with
          copy :=
            tx.copy.set ((tx.copy.cur.claimPayment payment).bookVolume clock payment.amount) })
      | _ => none
  | .flush t =>
    (s.txs t).bind fun tx => (s.flush t tx).map fun (s, tx) => s.setTx t tx
  | .commit t =>
    (s.txs t).bind fun tx => (s.flush t tx).map fun (s, tx) => s.commit t tx
  | .rollback t => (s.txs t).map fun _ => s.release t

/-! ## What the events do -/

variable {s} {derive : ℤ → String → Option String} {t q : TxId} {tx : Tx}

/-- The sessions after a transaction has changed its own. -/
theorem txs_setTx_eq_some {tx' : Tx} (h : (s.setTx t tx).txs q = some tx') :
    (q = t ∧ tx' = tx) ∨ (q ≠ t ∧ s.txs q = some tx') := by
  by_cases hqt : q = t
  · subst hqt
    simp only [setTx, Function.update_self, Option.some.injEq] at h
    exact .inl ⟨rfl, h.symm⟩
  · simp only [setTx, Function.update_of_ne hqt] at h
    exact .inr ⟨hqt, h⟩

/-- The sessions after a transaction has ended. -/
theorem txs_ended_eq_some {tx' : Tx} (h : Function.update s.txs t none q = some tx') :
    q ≠ t ∧ s.txs q = some tx' := by
  by_cases hqt : q = t
  · subst hqt
    simp at h
  · rw [Function.update_of_ne hqt] at h
    exact ⟨hqt, h⟩

/-- If the transactions with an order hold the lock, the others have no order. -/
theorem orders_eq_nil (hadded : ∀ o, tx.stage = .added o → ∃ row, s.held t = some row)
    (hheld : s.held t = none) : tx.stage.orders = [] := by
  cases hstage : tx.stage with
  | added o =>
    obtain ⟨row, hrow⟩ := hadded o hstage
    rw [hheld] at hrow
    cases hrow
  | _ => rfl

theorem held_eq_some {row : Merchant} : s.held t = some row ↔ s.lock = some (t, row) := by
  unfold held
  constructor
  · intro h
    split at h
    · cases h
    · rename_i holder row' hlock
      split_ifs at h with ht
      rw [hlock, ht, Option.some.inj h]
  · intro h
    rw [h]
    exact if_pos rfl

/-- A statement finds the committed row, or what the transaction itself has written. -/
theorem version_eq_some {row : Merchant} (h : s.version t = some row) :
    (s.lock = none ∧ row = s.row) ∨ s.lock = some (t, row) := by
  unfold version at h
  split at h
  · exact .inl ⟨‹_›, (Option.some.inj h).symm⟩
  · exact .inr (held_eq_some.mp h)

/-- While the transaction may write, no other one holds the lock. -/
theorem held_of_version {row : Merchant} (h : s.version t = some row) (hq : q ≠ t) :
    s.held q = none := by
  rw [← Option.not_isSome_iff_eq_none, Option.isSome_iff_exists]
  rintro ⟨row', hrow'⟩
  rw [held_eq_some] at hrow'
  rcases version_eq_some h with ⟨hlock, -⟩ | hlock
  · rw [hlock] at hrow'
    cases hrow'
  · rw [hlock] at hrow'
    cases hrow'
    exact hq rfl

theorem lock_release (s : Checkouts) (t : TxId) :
    (s.release t).lock = if (s.held t).isSome then none else s.lock := rfl

/-- The end of a transaction leaves the locks of the others. -/
theorem held_release (s : Checkouts) (hq : q ≠ t) : (s.release t).held q = s.held q := by
  have hlock := lock_release s t
  cases hheld : s.held t with
  | none =>
    rw [hheld] at hlock
    simp only [held, hlock, Option.isSome_none, Bool.false_eq_true, if_false]
  | some row =>
    rw [hheld] at hlock
    have hnone : s.held q = none := by simp [held, held_eq_some.mp hheld, Ne.symm hq]
    rw [hnone, held, hlock]
    rfl

theorem flush_eq_some {s' : Checkouts} {tx' : Tx} (h : s.flush t tx = some (s', tx')) :
    (tx.copy.cur = tx.copy.base ∧ s' = s ∧ tx' = tx) ∨
      ∃ row, s.version t = some row ∧
        s' = { s with lock := some (t, Merchant.write tx.copy row) } ∧
        tx' = { tx with copy := tx.copy.sync } := by
  unfold flush at h
  split_ifs at h with hclean
  · cases h
    exact .inl ⟨hclean, rfl, rfl⟩
  · obtain ⟨row, hrow, he⟩ := Option.map_eq_some_iff.mp h
    cases he
    exact .inr ⟨row, hrow, rfl, rfl⟩

/-- What an event does to the transactions and the row. -/
inductive Move (derive : ℤ → String → Option String) (s : Checkouts) :
    CheckoutEvent → Checkouts → Prop
  | load {t : TxId} {m : Merchant} :
      s.txs t = none → m.id = s.row.id →
      Move derive s (.load t m) (s.setTx t { copy := Tracked.load m, stage := .loaded })
  | check {t : TxId} {req : CheckoutRequest} {tx : Tx} {m : Merchant} :
      s.txs t = some tx → tx.stage = .loaded → checkQuota req tx.copy.cur = .ok m →
      Move derive s (.check t req) (s.setTx t { copy := tx.copy.set m, stage := .checked req })
  | confirm {t : TxId} {clock : Timestamp} {payment : Payment} {tx : Tx} :
      s.txs t = some tx → tx.stage = .loaded →
      Move derive s (.confirm t clock payment) (s.setTx t { tx with
        copy := tx.copy.set ((tx.copy.cur.claimPayment payment).bookVolume clock payment.amount) })
  | reserve {t : TxId} {tx : Tx} {req : CheckoutRequest} {row : Merchant} {address : String} :
      s.txs t = some tx → tx.stage = .checked req → s.version t = some row →
      Move derive s (.reserve t)
        ({ s with lock := some (t, { Merchant.write tx.copy row with
            nextEvmIndex := (Merchant.write tx.copy row).nextEvmIndex + 1 }) }.setTx t
          { copy := tx.copy.sync.set
              (countOrder ((Merchant.write tx.copy row).nextEvmIndex + 1) tx.copy.cur)
            stage := .added (newOrder req
              (countOrder ((Merchant.write tx.copy row).nextEvmIndex + 1) tx.copy.cur)
              (Merchant.write tx.copy row).nextEvmIndex address) })
  /-- A flush without changes. -/
  | idle {t : TxId} : Move derive s (.flush t) s
  | flush {t : TxId} {tx : Tx} {row : Merchant} :
      s.txs t = some tx → s.version t = some row →
      Move derive s (.flush t)
        ({ s with lock := some (t, Merchant.write tx.copy row) }.setTx t
          { tx with copy := tx.copy.sync })
  /-- A commit of a transaction that has not written the row. -/
  | commitClean {t : TxId} {tx : Tx} :
      s.txs t = some tx → s.held t = none → tx.copy.cur = tx.copy.base →
      Move derive s (.commit t)
        { s with
          filed := s.filed ++ tx.stage.orders.map fun o => ⟨o, s.row.billingCycleResetAt⟩
          txs := Function.update s.txs t none }
  | commit {t : TxId} {tx : Tx} {row : Merchant} :
      s.txs t = some tx → s.version t = some row →
      Move derive s (.commit t)
        { row := Merchant.write tx.copy row
          filed := s.filed ++
            tx.stage.orders.map fun o => ⟨o, (Merchant.write tx.copy row).billingCycleResetAt⟩
          lock := none
          txs := Function.update s.txs t none }
  /-- The transaction is rolled back. -/
  | release {e : CheckoutEvent} {t : TxId} {tx : Tx} :
      s.txs t = some tx → Move derive s e (s.release t)

/-- The lock's holder finds what it has written. -/
theorem version_of_lock {row : Merchant} (h : s.lock = some (t, row)) : s.version t = some row := by
  have hheld := held_eq_some.mpr h
  unfold version
  rw [h]
  exact hheld

/-- A rollback frees the lock that a statement of the transaction has taken. -/
theorem release_of_version {row row' : Merchant} (h : s.version t = some row) :
    ({ s with lock := some (t, row') } : Checkouts).release t = s.release t := by
  have hheld : ({ s with lock := some (t, row') } : Checkouts).held t = some row' :=
    held_eq_some.mpr rfl
  rcases version_eq_some h with ⟨hlock, -⟩ | hlock
  · have hnone : s.held t = none := by simp [held, hlock]
    simp [release, hheld, hnone, hlock]
  · simp [release, hheld, held_eq_some.mpr hlock]

theorem Move.of_reserveOn {s₀ s' : Checkouts} {tx₀ : Tx} {req : CheckoutRequest} {row : Merchant}
    (htx : s₀.txs t = some tx₀) (hstage : tx₀.stage = .checked req)
    (hrow : s₀.version t = some row) {l : Option (TxId × Merchant)}
    (hs : reserveOn { s₀ with lock := l } derive t { tx₀ with copy := tx₀.copy.sync } req
      (Merchant.write tx₀.copy row) = some s')
    (hrelease : ({ s₀ with lock := l } : Checkouts).release t = s₀.release t) :
    Move derive s₀ (.reserve t) s' := by
  simp only [reserveOn] at hs
  split_ifs at hs
  split at hs
  · cases hs
    rw [hrelease]
    exact .release htx
  · cases hs
    simpa [setTx] using Move.reserve htx hstage hrow

/-- Every event is such a move. -/
theorem Move.of_step {s' : Checkouts} {e : CheckoutEvent} (h : s.step derive e = some s') :
    Move derive s e s' := by
  cases e with
  | load t m =>
    simp only [step] at h
    split_ifs at h with hc
    cases h
    simp only [Bool.and_eq_true, Option.isNone_iff_eq_none, decide_eq_true_eq] at hc
    exact .load hc.1 hc.2
  | check t req =>
    obtain ⟨tx, htx, h⟩ := Option.bind_eq_some_iff.mp h
    cases hstage : tx.stage with
    | loaded =>
      simp only [hstage] at h
      cases hq : checkQuota req tx.copy.cur with
      | error e =>
        rw [hq] at h
        cases h
        exact .release htx
      | ok m =>
        rw [hq] at h
        cases h
        exact .check htx hstage hq
    | _ => simp [hstage] at h
  | reserve t =>
    obtain ⟨tx, htx, h⟩ := Option.bind_eq_some_iff.mp h
    cases hstage : tx.stage with
    | checked req =>
      simp only [hstage] at h
      obtain ⟨⟨s₁, tx₁⟩, hflush, hs⟩ := Option.bind_eq_some_iff.mp h
      obtain ⟨row₁, hrow₁, hreserve⟩ := Option.bind_eq_some_iff.mp hs
      rcases flush_eq_some hflush with ⟨hclean, rfl, rfl⟩ | ⟨row, hrow, rfl, rfl⟩
      · refine Move.of_reserveOn htx hstage hrow₁ (l := s₁.lock) ?_ rfl
        rw [Merchant.write_of_clean hclean, Tracked.sync_of_clean hclean]
        exact hreserve
      · obtain rfl : Merchant.write tx.copy row = row₁ :=
          Option.some.inj ((version_of_lock rfl).symm.trans hrow₁)
        apply Move.of_reserveOn htx hstage hrow hreserve
        exact release_of_version hrow
    | _ => simp [hstage] at h
  | confirm t clock payment =>
    obtain ⟨tx, htx, h⟩ := Option.bind_eq_some_iff.mp h
    cases hstage : tx.stage with
    | loaded =>
      simp only [hstage] at h
      cases h
      rw [← hstage]
      exact .confirm htx hstage
    | _ => simp [hstage] at h
  | flush t =>
    obtain ⟨tx, htx, h⟩ := Option.bind_eq_some_iff.mp h
    obtain ⟨⟨s₁, tx₁⟩, hflush, rfl⟩ := Option.map_eq_some_iff.mp h
    rcases flush_eq_some hflush with ⟨-, rfl, rfl⟩ | ⟨row, hrow, rfl, rfl⟩
    · have hsame : s₁.setTx t tx₁ = s₁ := by
        simp [setTx, ← htx, Function.update_eq_self]
      show Move derive s₁ _ (s₁.setTx t tx₁)
      rw [hsame]
      exact .idle
    · exact .flush htx hrow
  | commit t =>
    obtain ⟨tx, htx, h⟩ := Option.bind_eq_some_iff.mp h
    obtain ⟨⟨s₁, tx₁⟩, hflush, rfl⟩ := Option.map_eq_some_iff.mp h
    rcases flush_eq_some hflush with ⟨hclean, rfl, rfl⟩ | ⟨row, hrow, rfl, rfl⟩
    · cases hheld : s₁.held t with
      | none =>
        have hcommit : s₁.commit t tx₁ = { s₁ with
            filed := s₁.filed ++ tx₁.stage.orders.map fun o => ⟨o, s₁.row.billingCycleResetAt⟩
            txs := Function.update s₁.txs t none } := by
          simp [Checkouts.commit, Checkouts.release, hheld]
        show Move derive s₁ _ (s₁.commit t tx₁)
        rw [hcommit]
        exact .commitClean htx hheld hclean
      | some row =>
        have hmove : Move derive s₁ (.commit t) _ :=
          Move.commit htx (version_of_lock (held_eq_some.mp hheld))
        rw [Merchant.write_of_clean hclean] at hmove
        simpa [Checkouts.commit, Checkouts.release, hheld] using hmove
    · have hheld : ({ s with lock := some (t, Merchant.write tx.copy row) } : Checkouts).held t =
          some (Merchant.write tx.copy row) := held_eq_some.mpr rfl
      simpa [Checkouts.commit, Checkouts.release, hheld] using Move.commit htx hrow
  | rollback t =>
    obtain ⟨tx, htx, rfl⟩ := Option.map_eq_some_iff.mp h
    exact .release htx

end Checkouts

end Gateway
