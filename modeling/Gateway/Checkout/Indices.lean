import Gateway.Checkout.Transactions
import Gateway.Poll.Sequential

/-!
# The reservation of derivation indices

Two orders of a merchant with one index would share an address. The statement that reserves an index
locks the merchant's row, and although the new value is also copied into the session's object and
flushed from there as an absolute number, it is flushed under the lock, where it is what the row
holds already. So indices are distinct and below the committed `next_evm_index`, however checkouts,
stale copies, rollbacks and poll passes interleave (`order_indices`).
-/

namespace Gateway

open Foundations

/-! ## What leaves the index alone -/

namespace Merchant

@[simp] theorem nextEvmIndex_confirmed (clock : Timestamp) (payment : Payment) (q : ℚ)
    (m : Merchant) :
    ((m.claimPayment payment).bookVolume clock q).nextEvmIndex = m.nextEvmIndex := by
  have hclaim : (m.claimPayment payment).nextEvmIndex = m.nextEvmIndex := by
    cases payment with
    | evm em => rfl
    | solana sm =>
      rw [claimPayment]
      cases sm.asset <;> rfl
  rw [← hclaim]
  unfold bookVolume
  split_ifs
  · exact nextEvmIndex_ensureBillingCycleCurrent clock _
  · rfl

/-- Flushing the index leaves the stored one alone, if it did not change or is that one. -/
theorem nextEvmIndex_write {c : Tracked Merchant} {row : Merchant}
    (h : c.cur.nextEvmIndex = c.base.nextEvmIndex ∨ c.cur.nextEvmIndex = row.nextEvmIndex) :
    (write c row).nextEvmIndex = row.nextEvmIndex := by
  simp only [write, writeBack, writeBackAs]
  split_ifs with hclean
  · rfl
  · exact h.resolve_left hclean

end Merchant

/-! ## The invariant -/

namespace Checkouts

/-- A transaction that has added an order holds the lock, and its index lies between the committed
`next_evm_index` and its own; the others have not touched the index. -/
def TxIndex (s : Checkouts) (t : TxId) (tx : Tx) : Prop :=
  match tx.stage with
  | .added o => ∃ row, s.held t = some row ∧ s.row.nextEvmIndex ≤ o.evmDerivationIndex ∧
      o.evmDerivationIndex < row.nextEvmIndex ∧
      (tx.copy.cur.nextEvmIndex = tx.copy.base.nextEvmIndex ∨
        tx.copy.cur.nextEvmIndex = row.nextEvmIndex)
  | _ => tx.copy.cur.nextEvmIndex = tx.copy.base.nextEvmIndex

/-- The indices that have been filed are distinct and below the counter, which the holder of the
lock has not lowered, and every transaction has its own in order. -/
structure IndicesHold (s : Checkouts) : Prop where
  nodup : (s.filed.map fun f => f.order.evmDerivationIndex).Nodup
  below : ∀ f ∈ s.filed, f.order.evmDerivationIndex < s.row.nextEvmIndex
  lock : ∀ t row, s.lock = some (t, row) → s.row.nextEvmIndex ≤ row.nextEvmIndex
  txs : ∀ t tx, s.txs t = some tx → s.TxIndex t tx

namespace IndicesHold

variable {s s' : Checkouts} {t q : TxId} {tx : Tx} {row : Merchant}

theorem version_le (h : IndicesHold s) (hrow : s.version t = some row) :
    s.row.nextEvmIndex ≤ row.nextEvmIndex := by
  rcases version_eq_some hrow with ⟨-, rfl⟩ | hlock
  · exact le_rfl
  · exact h.lock t row hlock

/-- A flush leaves the index of the row that it writes over alone. -/
theorem nextEvmIndex_write (h : IndicesHold s) (htx : s.txs t = some tx)
    (hrow : s.version t = some row) :
    (Merchant.write tx.copy row).nextEvmIndex = row.nextEvmIndex := by
  have hindex := h.txs t tx htx
  apply Merchant.nextEvmIndex_write
  unfold TxIndex at hindex
  split at hindex
  · obtain ⟨row', hheld, -, -, hnext⟩ := hindex
    rw [version_of_lock (held_eq_some.mp hheld)] at hrow
    rwa [← Option.some.inj hrow]
  · exact .inl hindex

/-- A transaction that does not hold the lock has added no order, and what the others do to the row
does not matter to it. -/
theorem txIndex_of_unheld (h : IndicesHold s) (htx : s.txs q = some tx) (hheld : s.held q = none) :
    s'.TxIndex q tx := by
  have hindex := h.txs q tx htx
  unfold TxIndex at hindex ⊢
  split at hindex
  · obtain ⟨row', hheld', -⟩ := hindex
    rw [hheld] at hheld'
    cases hheld'
  · exact hindex

theorem orders_of_unheld (h : IndicesHold s) (htx : s.txs t = some tx) (hheld : s.held t = none) :
    tx.stage.orders = [] := by
  refine orders_eq_nil (fun o hstage => ?_) hheld
  have hindex := h.txs t tx htx
  simp only [TxIndex, hstage] at hindex
  exact ⟨_, hindex.choose_spec.1⟩

/-- A transaction that changes only its own session. -/
theorem setTx (h : IndicesHold s) (htx : s.TxIndex t tx) : IndicesHold (s.setTx t tx) where
  nodup := h.nodup
  below := h.below
  lock := h.lock
  txs := by
    intro q tx' hq
    rcases txs_setTx_eq_some hq with ⟨rfl, rfl⟩ | ⟨hqt, hq⟩
    · exact htx
    · exact h.txs q tx' hq

/-- A statement of a transaction that may write the row. -/
theorem writeRow (h : IndicesHold s) {row' : Merchant} (hrow : s.version t = some row)
    (hle : row.nextEvmIndex ≤ row'.nextEvmIndex)
    (htx : ({ s with lock := some (t, row') } : Checkouts).TxIndex t tx) :
    IndicesHold ({ s with lock := some (t, row') }.setTx t tx) where
  nodup := h.nodup
  below := h.below
  lock := by
    rintro _ _ ⟨⟩
    exact (h.version_le hrow).trans hle
  txs := by
    intro q tx' hq
    rcases txs_setTx_eq_some hq with ⟨rfl, rfl⟩ | ⟨hqt, hq⟩
    · exact htx
    · exact h.txIndex_of_unheld hq (held_of_version hrow hqt)

theorem release (h : IndicesHold s) (t : TxId) : IndicesHold (s.release t) where
  nodup := h.nodup
  below := h.below
  lock := by
    intro q row hlock
    simp only [Checkouts.release] at hlock
    split_ifs at hlock
    exact h.lock q row hlock
  txs := by
    intro q tx hq
    obtain ⟨hqt, hq⟩ := txs_ended_eq_some hq
    have hsame := held_release s hqt
    have hindex := h.txs q tx hq
    unfold TxIndex at hindex ⊢
    rw [hsame]
    exact hindex

/-- A commit files the order of the transaction under an index that no other one has. -/
theorem commit (h : IndicesHold s) (htx : s.txs t = some tx) (hrow : s.version t = some row)
    (cycle : Option Timestamp) :
    IndicesHold
      { row := Merchant.write tx.copy row
        filed := s.filed ++ tx.stage.orders.map fun o => ⟨o, cycle⟩
        lock := none
        txs := Function.update s.txs t none } := by
  have hnext := h.nextEvmIndex_write htx hrow
  have hle := h.version_le hrow
  have hbound : ∀ o ∈ tx.stage.orders, s.row.nextEvmIndex ≤ o.evmDerivationIndex ∧
      o.evmDerivationIndex < row.nextEvmIndex := by
    have hindex := h.txs t tx htx
    unfold TxIndex at hindex
    intro o ho
    cases hstage : tx.stage with
    | added o' =>
      simp only [hstage] at hindex ho
      obtain rfl := List.mem_singleton.mp ho
      obtain ⟨row', hheld, hlow, hhigh, -⟩ := hindex
      rw [version_of_lock (held_eq_some.mp hheld)] at hrow
      rw [← Option.some.inj hrow]
      exact ⟨hlow, hhigh⟩
    | _ =>
      rw [hstage] at ho
      cases ho
  refine ⟨?_, ?_, by simp, ?_⟩
  · have hsingle : (tx.stage.orders.map fun o => o.evmDerivationIndex).Nodup := by
      cases tx.stage <;> simp [TxStage.orders]
    simp only [List.map_append, List.map_map, Function.comp_def]
    apply h.nodup.append hsingle
    rw [List.disjoint_left]
    intro i hi hi'
    obtain ⟨f, hf, rfl⟩ := List.mem_map.mp hi
    obtain ⟨o, ho, hoi⟩ := List.mem_map.mp hi'
    have := h.below f hf
    have := (hbound o ho).1
    omega
  · intro f hf
    show _ < (Merchant.write tx.copy row).nextEvmIndex
    rw [hnext]
    rcases List.mem_append.mp hf with hf | hf
    · exact (h.below f hf).trans_le hle
    · obtain ⟨o, ho, rfl⟩ := List.mem_map.mp hf
      exact (hbound o ho).2
  · intro q tx' hq
    obtain ⟨hqt, hq⟩ := txs_ended_eq_some hq
    exact h.txIndex_of_unheld hq (held_of_version hrow hqt)

/-- **Every event keeps the indices in order**, and the committed `next_evm_index` never falls. -/
theorem step (h : IndicesHold s) {derive : ℤ → String → Option String} {e : CheckoutEvent}
    (hs : s.step derive e = some s') :
    IndicesHold s' ∧ s.row.nextEvmIndex ≤ s'.row.nextEvmIndex := by
  cases Move.of_step hs with
  | load _ _ => exact ⟨h.setTx rfl, le_rfl⟩
  | check htx hstage hq =>
    refine ⟨h.setTx ?_, le_rfl⟩
    obtain ⟨rfl, -⟩ := checkQuota_ok hq
    have hindex := h.txs _ _ htx
    simp only [TxIndex, hstage] at hindex ⊢
    simpa using hindex
  | confirm htx hstage =>
    refine ⟨h.setTx ?_, le_rfl⟩
    have hindex := h.txs _ _ htx
    simp only [TxIndex, hstage] at hindex ⊢
    simpa using hindex
  | @reserve t tx req row address htx hstage hrow =>
    have hnext := h.nextEvmIndex_write htx hrow
    refine ⟨h.writeRow hrow ?_ ?_, le_rfl⟩
    · show row.nextEvmIndex ≤ (Merchant.write tx.copy row).nextEvmIndex + 1
      omega
    · refine ⟨_, held_eq_some.mpr rfl, ?_, ?_, .inr rfl⟩
      · show s.row.nextEvmIndex ≤ (Merchant.write tx.copy row).nextEvmIndex
        rw [hnext]
        exact h.version_le hrow
      · exact Int.lt_succ _
  | idle => exact ⟨h, le_rfl⟩
  | @flush t tx row htx hrow =>
    have hnext := h.nextEvmIndex_write htx hrow
    refine ⟨h.writeRow hrow hnext.ge ?_, le_rfl⟩
    have hindex := h.txs t tx htx
    unfold TxIndex at hindex ⊢
    split at hindex
    · rename_i o hstage
      simp only [hstage]
      obtain ⟨row', hheld, hlow, hhigh, -⟩ := hindex
      rw [version_of_lock (held_eq_some.mp hheld)] at hrow
      obtain rfl := Option.some.inj hrow
      exact ⟨_, held_eq_some.mpr rfl, hlow, by rwa [hnext], .inl rfl⟩
    · rfl
  | @commitClean t tx htx hheld hclean =>
    refine ⟨⟨?_, ?_, h.lock, ?_⟩, le_rfl⟩
    · simpa [h.orders_of_unheld htx hheld] using h.nodup
    · simpa [h.orders_of_unheld htx hheld] using h.below
    · intro q tx' hq
      obtain ⟨hqt, hq⟩ := txs_ended_eq_some hq
      exact h.txs q tx' hq
  | commit htx hrow =>
    refine ⟨h.commit htx hrow _, ?_⟩
    rw [h.nextEvmIndex_write htx hrow]
    exact h.version_le hrow
  | release _ => exact ⟨h.release _, le_rfl⟩

end IndicesHold

/-- No transaction is running. -/
structure Idle (s : Checkouts) : Prop where
  lock : s.lock = none
  txs : ∀ t, s.txs t = none

end Checkouts

/-- **Indices under concurrency.** From a merchant whose orders have distinct indices below
`next_evm_index`, such as one without orders, every interleaving of checkouts and poll passes leads
to committed orders with distinct indices below the committed `next_evm_index`, which never falls
from there on. -/
theorem order_indices {derive : ℤ → String → Option String} {s₀ s s' : Checkouts}
    {es es' : List CheckoutEvent} (hidle : s₀.Idle)
    (hnodup : (s₀.filed.map fun f => f.order.evmDerivationIndex).Nodup)
    (hbelow : ∀ f ∈ s₀.filed, f.order.evmDerivationIndex < s₀.row.nextEvmIndex)
    (h : exec (Checkouts.step derive) s₀ es = some s)
    (h' : exec (Checkouts.step derive) s es' = some s') :
    (s.filed.map fun f => f.order.evmDerivationIndex).Nodup ∧
      (∀ f ∈ s.filed, f.order.evmDerivationIndex < s.row.nextEvmIndex) ∧
      s.row.nextEvmIndex ≤ s'.row.nextEvmIndex := by
  have h0 : s₀.IndicesHold :=
    { nodup := hnodup
      below := hbelow
      lock := fun t row hlock => by rw [hidle.lock] at hlock; cases hlock
      txs := fun t tx htx => by rw [hidle.txs t] at htx; cases htx }
  have run : Run (Checkouts.step derive) (fun _ _ => True) s₀ es s :=
    .of_exec_of_forall (fun _ _ _ => trivial) h
  have run' : Run (Checkouts.step derive) (fun _ _ => True) s es' s' :=
    .of_exec_of_forall (fun _ _ _ => trivial) h'
  have hs : s.IndicesHold := run.invariant (fun _ _ _ hi _ hstep => (hi.step hstep).1) h0
  refine ⟨hs.nodup, hs.below, ?_⟩
  exact run'.rel (R := fun s s' => s.row.nextEvmIndex ≤ s'.row.nextEvmIndex)
    (fun _ _ _ hi _ hstep => (hi.step hstep).1) (fun _ => le_rfl) (fun _ _ _ => le_trans)
    (fun _ _ _ hi _ hstep => (hi.step hstep).2) hs

/-! ### A run of it -/

/-- The sample merchant in a billing cycle, with these orders in it. -/
def sampleCheckouts (count : ℕ) : Checkouts where
  row := { sampleMerchant with
    nextEvmIndex := count
    monthlyOrderCount := count
    billingCycleResetAt := some 1000 }
  filed := (List.range count).map fun i => ⟨sampleOrder i, some 1000⟩
  lock := none
  txs := fun _ => none

/-- A checkout of $20. -/
def sampleRequest (id : OrderId) : CheckoutRequest where
  id := id
  amountUsd := ⟨2000, by decide⟩
  orderReference := none
  description := none
  checkedAt := 10
  orderedAt := 10
  createdAt := id

/-- Two checkouts that both read the merchant before either of them commits. -/
def bothLoaded (count : ℕ) : List CheckoutEvent :=
  [.load 1 (sampleCheckouts count).row, .load 2 (sampleCheckouts count).row,
    .check 1 (sampleRequest 101), .check 2 (sampleRequest 102), .reserve 1, .commit 1, .reserve 2,
    .commit 2]

/-- The second one reserves the index after that of the first. -/
theorem order_indices_both : ∃ s,
    exec (Checkouts.step fun _ _ => some "") (sampleCheckouts 0) (bothLoaded 0) = some s ∧
      s.filed.map (fun f => f.order.evmDerivationIndex) = [0, 1] ∧
      (s.filed.map fun f => f.order.evmDerivationIndex).Nodup := by
  have hrun : ((exec (Checkouts.step fun _ _ => some "") (sampleCheckouts 0) (bothLoaded 0)).map
      fun s => s.filed.map fun f => f.order.evmDerivationIndex) = some [0, 1] := by
    decide +kernel
  obtain ⟨s, hs, hindices⟩ := Option.map_eq_some_iff.mp hrun
  exact ⟨s, hs, hindices,
    (order_indices ⟨rfl, fun _ => rfl⟩ (by simp [sampleCheckouts]) (by simp [sampleCheckouts]) hs
      (exec_nil s)).1⟩

end Gateway
