import Gateway.Checkout.Indices

/-!
# The cap of the free plan

`create_order` checks and increments `monthly_order_count` on the session's own copy of the
merchant, which nothing refreshes once the row is locked. The count is right, and the cap of the
free plan holds, as long as a transaction writes the billing columns only over the values that it
has read (`free_plan_cap`). Two checkouts that read the same count lose an increment and pass the
cap (`free_plan_cap_exceeded`).
-/

namespace Gateway

open Foundations

/-- The columns that the billing cycle governs. -/
structure Billing where
  mode : BillingMode
  pendingMode : Option BillingMode
  resetAt : Option Timestamp
  plan : Plan
  count : ℤ
  deriving DecidableEq

/-- The billing columns of a row. -/
def Merchant.billing (m : Merchant) : Billing where
  mode := m.billingMode
  pendingMode := m.pendingBillingMode
  resetAt := m.billingCycleResetAt
  plan := m.plan
  count := m.monthlyOrderCount

namespace Merchant

/-- A copy without changes of the billing columns leaves the stored ones alone. -/
theorem billing_write_of_clean {c : Tracked Merchant} (h : c.cur.billing = c.base.billing)
    (row : Merchant) : (write c row).billing = row.billing := by
  simp only [billing, Billing.mk.injEq] at h ⊢
  obtain ⟨hmode, hpending, hreset, hplan, hcount⟩ := h
  simp [write, hmode, hpending, hreset, hplan, hcount]

/-- Over the billing columns that it has read, a copy writes its own. -/
theorem billing_write_of_fresh {c : Tracked Merchant} {row : Merchant}
    (h : c.base.billing = row.billing) : (write c row).billing = c.cur.billing := by
  simp only [billing, Billing.mk.injEq] at h ⊢
  obtain ⟨hmode, hpending, hreset, hplan, hcount⟩ := h
  simp [write, ← hmode, ← hpending, ← hreset, ← hplan, ← hcount]

end Merchant

/-- Does the transaction leave the billing columns alone, or write them over the values it has
read? -/
def Tx.Fresh (tx : Tx) (row : Merchant) : Prop :=
  tx.copy.cur.billing = tx.copy.base.billing ∨ tx.copy.base.billing = row.billing

instance (tx : Tx) (row : Merchant) : Decidable (tx.Fresh row) :=
  inferInstanceAs (Decidable (_ ∨ _))

/-- The orders of a billing cycle. -/
def filedIn (filed : List Filed) (cycle : Option Timestamp) : List Filed :=
  filed.filter fun f => f.cycle = cycle

theorem filedIn_append (filed filed' : List Filed) (cycle : Option Timestamp) :
    filedIn (filed ++ filed') cycle = filedIn filed cycle ++ filedIn filed' cycle :=
  List.filter_append ..

theorem filedIn_filed (orders : List MerchantOrder) (cycle : Option Timestamp) :
    filedIn (orders.map fun o => ⟨o, cycle⟩) cycle = orders.map fun o => ⟨o, cycle⟩ :=
  List.filter_eq_self.mpr (by simp)

namespace Checkouts

/-- The transaction of a flush is fresh. -/
def FreshBilling (s : Checkouts) : CheckoutEvent → Prop
  | .reserve t | .flush t | .commit t =>
    ∀ tx ∈ s.txs t, ∀ row ∈ s.version t, tx.Fresh row
  | _ => True

/-- The orders committed in a billing cycle. -/
def inCycle (s : Checkouts) (cycle : Option Timestamp) : List Filed := filedIn s.filed cycle

/-- In this billing cycle the merchant is billed flat, on the free plan. -/
def FlatFree (c : Timestamp) (s : Checkouts) : Prop :=
  s.row.billingCycleResetAt = some c → s.row.billingMode = .flat ∧ s.row.plan = .free

end Checkouts

/-! ## Copies -/

/-- A billing cycle that is not before another one. -/
def NotBefore (r r' : Option Timestamp) : Prop := ∀ c ∈ r, ∃ c' ∈ r', c ≤ c'

theorem NotBefore.refl (r : Option Timestamp) : NotBefore r r := fun c hc => ⟨c, hc, le_rfl⟩

theorem NotBefore.trans {r r' r'' : Option Timestamp} (h : NotBefore r r')
    (h' : NotBefore r' r'') : NotBefore r r'' := by
  intro c hc
  obtain ⟨c', hc', hle⟩ := h c hc
  obtain ⟨c'', hc'', hle'⟩ := h' c' hc'
  exact ⟨c'', hc'', hle.trans hle'⟩

/-- The cycle and the count are the same, or a later cycle has begun with a count of 0. -/
def Advanced (b b' : Billing) : Prop :=
  (b'.resetAt = b.resetAt ∧ b'.count = b.count) ∨
    (b'.count = 0 ∧ ∃ c', b'.resetAt = some c' ∧ ∀ c ∈ b.resetAt, c < c')

theorem Advanced.refl (b : Billing) : Advanced b b := .inl ⟨rfl, rfl⟩

theorem Advanced.trans {b b' b'' : Billing} (h : Advanced b b') (h' : Advanced b' b'') :
    Advanced b b'' := by
  rcases h with ⟨hreset, hcount⟩ | ⟨hcount, c', hc', hlt⟩
  · rcases h' with ⟨hreset', hcount'⟩ | ⟨hcount', c'', hc'', hlt'⟩
    · exact .inl ⟨hreset'.trans hreset, hcount'.trans hcount⟩
    · exact .inr ⟨hcount', c'', hc'', fun c hc => hlt' c (hreset ▸ hc)⟩
  · rcases h' with ⟨hreset', hcount'⟩ | ⟨hcount', c'', hc'', hlt'⟩
    · exact .inr ⟨hcount'.trans hcount, c', hreset'.trans hc', hlt⟩
    · exact .inr ⟨hcount', c'', hc'', fun c hc => (hlt c hc).trans (hlt' c' hc')⟩

namespace Merchant

theorem billing_lapsePlan (now : Timestamp) (m : Merchant) :
    (m.lapsePlan now).billing.resetAt = m.billing.resetAt ∧
      (m.lapsePlan now).billing.count = m.billing.count := by
  unfold lapsePlan
  split_ifs <;> exact ⟨rfl, rfl⟩

/-- The rollover keeps the cycle, or starts a later one. -/
theorem advanced_ensureBillingCycleCurrent (now : Timestamp) (m : Merchant) :
    Advanced m.billing (m.ensureBillingCycleCurrent now).billing := by
  obtain ⟨hreset, hcount⟩ := billing_lapsePlan now (m.rollOver now)
  unfold ensureBillingCycleCurrent
  rw [Advanced, hreset, hcount]
  unfold rollOver
  split_ifs with hover
  · refine .inr ⟨rfl, now + monthlyReset, rfl, fun c hc => ?_⟩
    have hreset : m.billingCycleResetAt = some c := hc
    simp only [cycleOver, hreset, decide_eq_true_eq] at hover
    exact hover.trans_lt (lt_add_of_pos_right now (by norm_num [monthlyReset]))
  · exact .inl ⟨rfl, rfl⟩

theorem isSome_ensureBillingCycleCurrent (now : Timestamp) (m : Merchant) :
    (m.ensureBillingCycleCurrent now).billingCycleResetAt.isSome := by
  have hreset := (billing_lapsePlan now (m.rollOver now)).1
  show (m.ensureBillingCycleCurrent now).billing.resetAt.isSome
  unfold ensureBillingCycleCurrent
  rw [hreset]
  unfold rollOver
  split_ifs with hover
  · rfl
  · show m.billingCycleResetAt.isSome
    cases h : m.billingCycleResetAt with
    | none => simp [cycleOver, h] at hover
    | some c => rfl

theorem advanced_confirmed (clock : Timestamp) (payment : Payment) (q : ℚ) (m : Merchant) :
    Advanced m.billing ((m.claimPayment payment).bookVolume clock q).billing := by
  have hclaim : (m.claimPayment payment).billing = m.billing := by
    cases payment with
    | evm em => rfl
    | solana sm =>
      rw [claimPayment]
      cases sm.asset <;> rfl
  rw [← hclaim]
  unfold bookVolume
  split_ifs
  · exact advanced_ensureBillingCycleCurrent clock _
  · exact .refl _

end Merchant

/-! ## The invariant -/

namespace Checkouts

/-- A version of the row that counts the orders committed in its cycle, which is not before the
committed one. -/
structure RowOk (filed : List Filed) (committed row : Merchant) : Prop where
  notBefore : NotBefore committed.billing.resetAt row.billing.resetAt
  count : row.billing.count = (filedIn filed row.billing.resetAt).length

/-- After `create_order`, the copy counts one order more than the held row, or the held row has been
flushed from it. -/
structure AddedOk (filed : List Filed) (committed row : Merchant) (c : Tracked Merchant) :
    Prop where
  isSome : c.cur.billing.resetAt.isSome
  cap : c.cur.billing.mode = .flat → c.cur.billing.plan = .free →
    c.cur.billing.count ≤ freeMonthlyOrderCap
  counted : (c.cur.billing = { c.base.billing with count := c.base.billing.count + 1 } ∧
      RowOk filed committed row) ∨
    (c.cur.billing = c.base.billing ∧ row.billing = c.cur.billing ∧
      NotBefore committed.billing.resetAt row.billing.resetAt ∧
      row.billing.count = (filedIn filed row.billing.resetAt).length + 1)

/-- What is stored are the billing columns of the copy, whether they have been flushed before or
not. -/
theorem AddedOk.stored {filed : List Filed} {committed row : Merchant} {tx : Tx}
    (h : AddedOk filed committed row tx.copy) (hfresh : tx.Fresh row) :
    (Merchant.write tx.copy row).billing = tx.copy.cur.billing ∧
      NotBefore committed.billing.resetAt tx.copy.cur.billing.resetAt ∧
      tx.copy.cur.billing.count = (filedIn filed tx.copy.cur.billing.resetAt).length + 1 := by
  rcases h.counted with ⟨hcur, hok⟩ | ⟨hcur, hsame, hnot, hlen⟩
  · rcases hfresh with hclean | hread
    · rw [hclean] at hcur
      have hcount := congrArg Billing.count hcur
      simp at hcount
    · refine ⟨Merchant.billing_write_of_fresh hread, ?_, ?_⟩
      · rw [hcur, hread]
        exact hok.notBefore
      · rw [hcur, hread]
        show row.billing.count + 1 = _
        rw [hok.count]
  · rw [Merchant.billing_write_of_clean hcur, hsame]
    rw [hsame] at hnot hlen
    exact ⟨rfl, hnot, hlen⟩

/-- What holds of the billing columns of a transaction at its stage. -/
def TxCount (s : Checkouts) (t : TxId) (tx : Tx) : Prop :=
  match tx.stage with
  | .loaded => Advanced tx.copy.base.billing tx.copy.cur.billing ∧
      ∀ row ∈ s.held t, RowOk s.filed s.row row
  | .checked _ => Advanced tx.copy.base.billing tx.copy.cur.billing ∧
      (∀ row ∈ s.held t, RowOk s.filed s.row row) ∧ tx.copy.cur.billing.resetAt.isSome ∧
      tx.copy.cur.quotaExceeded = false
  | .added _ => ∃ row, s.held t = some row ∧ AddedOk s.filed s.row row tx.copy

/-- The count of the committed row is the number of the orders filed in its cycle, and every
transaction has its own in order. -/
structure CountHolds (s : Checkouts) : Prop where
  filed : ∀ f ∈ s.filed, f.cycle.isSome ∧ NotBefore f.cycle s.row.billing.resetAt
  count : s.row.billing.count = (filedIn s.filed s.row.billing.resetAt).length
  lock : ∀ t row, s.lock = some (t, row) → ∃ tx, s.txs t = some tx
  txs : ∀ t tx, s.txs t = some tx → s.TxCount t tx

namespace CountHolds

variable {s s' : Checkouts} {t q : TxId} {tx : Tx} {row : Merchant}

theorem rowOk (h : CountHolds s) : RowOk s.filed s.row s.row := ⟨.refl _, h.count⟩

/-- The cycle and the count of a row that has only been written over are those of the copy. -/
theorem rowOk_write (h : CountHolds s) (hrow : RowOk s.filed s.row row)
    (hadv : Advanced tx.copy.base.billing tx.copy.cur.billing) (hfresh : tx.Fresh row) :
    RowOk s.filed s.row (Merchant.write tx.copy row) := by
  have hclean : ∀ b : Billing, b.resetAt = row.billing.resetAt → b.count = row.billing.count →
      (Merchant.write tx.copy row).billing = b →
        RowOk s.filed s.row (Merchant.write tx.copy row) := by
    rintro b hreset hcount rfl
    refine ⟨?_, ?_⟩
    · rw [hreset]
      exact hrow.notBefore
    · rw [hreset, hcount]
      exact hrow.count
  rcases hfresh with hsame | hread
  · exact hclean _ rfl rfl (Merchant.billing_write_of_clean hsame row)
  · have hwrite := Merchant.billing_write_of_fresh hread
    rcases hadv with ⟨hreset, hcount⟩ | ⟨hcount, c', hc', hlt⟩
    · exact hclean _ (hreset.trans (congrArg _ hread)) (hcount.trans (congrArg _ hread)) hwrite
    · -- a new cycle, in which no order has been committed
      rw [hread] at hlt
      refine ⟨?_, ?_⟩
      · rw [hwrite, hc']
        intro c hc
        obtain ⟨c₁, hc₁, hle⟩ := hrow.notBefore c hc
        exact ⟨c', rfl, hle.trans (hlt c₁ hc₁).le⟩
      · have hnil : filedIn s.filed (some c') = [] := by
          rw [filedIn, List.filter_eq_nil_iff]
          intro f hf hcycle
          rw [decide_eq_true_eq] at hcycle
          obtain ⟨c₀, hc₀, hle₀⟩ := (h.filed f hf).2 c' hcycle
          obtain ⟨c₁, hc₁, hle₁⟩ := hrow.notBefore c₀ hc₀
          exact absurd (hlt c₁ hc₁) (not_lt.mpr (hle₀.trans hle₁))
        rw [hwrite, hc', hcount, hnil]
        rfl

/-- What a transaction that has not added an order finds. -/
theorem rowOk_of_version (h : CountHolds s) (hheld : ∀ row ∈ s.held t, RowOk s.filed s.row row)
    (hrow : s.version t = some row) : RowOk s.filed s.row row := by
  rcases version_eq_some hrow with ⟨-, rfl⟩ | hlock
  · exact h.rowOk
  · exact hheld row (held_eq_some.mpr hlock)

/-- What the others do to the row does not matter to a transaction without the lock. -/
theorem txCount_of_unheld (h : CountHolds s) (htx : s.txs q = some tx) (hheld : s.held q = none)
    (hheld' : s'.held q = none) : s'.TxCount q tx := by
  have hcount := h.txs q tx htx
  unfold TxCount at hcount ⊢
  split at hcount
  · exact ⟨hcount.1, by simp [hheld']⟩
  · exact ⟨hcount.1, by simp [hheld'], hcount.2.2⟩
  · obtain ⟨row, hrow, -⟩ := hcount
    rw [hheld] at hrow
    cases hrow

theorem orders_of_unheld (h : CountHolds s) (htx : s.txs t = some tx) (hheld : s.held t = none) :
    tx.stage.orders = [] := by
  refine orders_eq_nil (fun o hstage => ?_) hheld
  have hcount := h.txs t tx htx
  simp only [TxCount, hstage] at hcount
  exact ⟨_, hcount.choose_spec.1⟩

/-- A transaction that changes only its own session. -/
theorem setTx (h : CountHolds s) (htx : s.TxCount t tx) : CountHolds (s.setTx t tx) where
  filed := h.filed
  count := h.count
  lock := by
    intro q row hlock
    by_cases hqt : q = t
    · exact ⟨tx, by simp [Checkouts.setTx, hqt]⟩
    · obtain ⟨tx', htx'⟩ := h.lock q row hlock
      exact ⟨tx', by simp [Checkouts.setTx, hqt, htx']⟩
  txs := by
    intro q tx' hq
    rcases txs_setTx_eq_some hq with ⟨rfl, rfl⟩ | ⟨hqt, hq⟩
    · exact htx
    · exact h.txs q tx' hq

/-- A statement of a transaction that may write the row. -/
theorem writeRow (h : CountHolds s) {row' : Merchant} (hrow : s.version t = some row)
    (htx : ({ s with lock := some (t, row') } : Checkouts).TxCount t tx) :
    CountHolds ({ s with lock := some (t, row') }.setTx t tx) where
  filed := h.filed
  count := h.count
  lock := by
    rintro _ _ ⟨⟩
    exact ⟨tx, by simp [Checkouts.setTx]⟩
  txs := by
    intro q tx' hq
    rcases txs_setTx_eq_some hq with ⟨rfl, rfl⟩ | ⟨hqt, hq⟩
    · exact htx
    · apply h.txCount_of_unheld hq (held_of_version hrow hqt)
      exact held_of_version (version_of_lock rfl) hqt

theorem release (h : CountHolds s) (t : TxId) : CountHolds (s.release t) where
  filed := h.filed
  count := h.count
  lock := by
    intro q row hlock
    simp only [Checkouts.release] at hlock
    split_ifs at hlock with hheld
    obtain ⟨tx, htx⟩ := h.lock q row hlock
    have hqt : q ≠ t := by
      rintro rfl
      rw [held_eq_some.mpr hlock] at hheld
      exact hheld rfl
    exact ⟨tx, by simp [Checkouts.release, hqt, htx]⟩
  txs := by
    intro q tx hq
    obtain ⟨hqt, hq⟩ := txs_ended_eq_some hq
    have hsame := held_release s hqt
    have hcount := h.txs q tx hq
    unfold TxCount at hcount ⊢
    rw [hsame]
    exact hcount

/-- The row that a commit stores counts the orders of its cycle, the new one included. -/
theorem count_commit (h : CountHolds s) (htx : s.txs t = some tx) (hrow : s.version t = some row)
    (hfresh : tx.Fresh row) :
    NotBefore s.row.billing.resetAt (Merchant.write tx.copy row).billing.resetAt ∧
      (Merchant.write tx.copy row).billing.count =
        (filedIn s.filed (Merchant.write tx.copy row).billing.resetAt).length +
          tx.stage.orders.length ∧
      (tx.stage.orders ≠ [] → (Merchant.write tx.copy row).billing.resetAt.isSome ∧
        ((Merchant.write tx.copy row).billing.mode = .flat →
          (Merchant.write tx.copy row).billing.plan = .free →
          (Merchant.write tx.copy row).billing.count ≤ freeMonthlyOrderCap)) := by
  have hcount := h.txs t tx htx
  unfold TxCount at hcount
  split at hcount
  · rename_i hstage
    have hok := h.rowOk_write (h.rowOk_of_version hcount.2 hrow) hcount.1 hfresh
    simpa [hstage, TxStage.orders] using ⟨hok.notBefore, hok.count⟩
  · rename_i req hstage
    have hok := h.rowOk_write (h.rowOk_of_version hcount.2.1 hrow) hcount.1 hfresh
    simpa [hstage, TxStage.orders] using ⟨hok.notBefore, hok.count⟩
  · rename_i o hstage
    obtain ⟨row', hheld, hadded⟩ := hcount
    rw [version_of_lock (held_eq_some.mp hheld)] at hrow
    obtain rfl := Option.some.inj hrow
    obtain ⟨hwrite, hnot, hlen⟩ := hadded.stored hfresh
    rw [hwrite, hstage]
    exact ⟨hnot, hlen, fun _ => ⟨hadded.isSome, hadded.cap⟩⟩

theorem commit (h : CountHolds s) (htx : s.txs t = some tx) (hrow : s.version t = some row)
    (hfresh : tx.Fresh row) :
    CountHolds
      { row := Merchant.write tx.copy row
        filed := s.filed ++
          tx.stage.orders.map fun o => ⟨o, (Merchant.write tx.copy row).billingCycleResetAt⟩
        lock := none
        txs := Function.update s.txs t none } := by
  obtain ⟨hnot, hcount, hsome⟩ := h.count_commit htx hrow hfresh
  refine ⟨?_, ?_, by simp, ?_⟩
  · intro f hf
    rcases List.mem_append.mp hf with hf | hf
    · exact ⟨(h.filed f hf).1, (h.filed f hf).2.trans hnot⟩
    · obtain ⟨o, ho, rfl⟩ := List.mem_map.mp hf
      exact ⟨(hsome (List.ne_nil_of_mem ho)).1, .refl _⟩
  · show (Merchant.write tx.copy row).billing.count =
      (filedIn _ (Merchant.write tx.copy row).billingCycleResetAt).length
    rw [hcount, filedIn_append, List.length_append, filedIn_filed, List.length_map]
    push_cast
    rfl
  · intro q tx' hq
    obtain ⟨hqt, hq⟩ := txs_ended_eq_some hq
    exact h.txCount_of_unheld hq (held_of_version hrow hqt) rfl

/-- **Every fresh event keeps the count.** -/
theorem step (h : CountHolds s) {derive : ℤ → String → Option String} {e : CheckoutEvent}
    (hfresh : s.FreshBilling e) (hs : s.step derive e = some s') : CountHolds s' := by
  cases Move.of_step hs with
  | @load t m htx hid =>
    refine h.setTx ⟨.refl _, fun row hheld => ?_⟩
    obtain ⟨tx', htx'⟩ := h.lock t row (held_eq_some.mp hheld)
    rw [htx] at htx'
    cases htx'
  | @check t req tx m htx hstage hq =>
    obtain ⟨rfl, hquota⟩ := checkQuota_ok hq
    have hcount := h.txs t tx htx
    simp only [TxCount, hstage] at hcount
    refine h.setTx ⟨?_, hcount.2, Merchant.isSome_ensureBillingCycleCurrent _ _, hquota⟩
    exact hcount.1.trans (Merchant.advanced_ensureBillingCycleCurrent _ _)
  | @confirm t clock payment tx htx hstage =>
    have hcount := h.txs t tx htx
    simp only [TxCount, hstage] at hcount
    apply h.setTx
    simp only [TxCount, hstage]
    exact ⟨hcount.1.trans (Merchant.advanced_confirmed _ _ _ _), hcount.2⟩
  | @reserve t tx req row address htx hstage hrow =>
    have hcount := h.txs t tx htx
    simp only [TxCount, hstage] at hcount
    obtain ⟨hadv, hheld, hsome, hquota⟩ := hcount
    have hok := h.rowOk_write (h.rowOk_of_version hheld hrow) hadv (hfresh tx htx row hrow)
    refine h.writeRow hrow
      ⟨_, held_eq_some.mpr rfl, hsome, ?_, .inl ⟨rfl, hok.notBefore, hok.count⟩⟩
    -- the quota was checked on the count before
    intro hmode hplan
    have hmode' : tx.copy.cur.billingMode = .flat := hmode
    have hplan' : tx.copy.cur.plan = .free := hplan
    simp only [Merchant.quotaExceeded, hmode', hplan', decide_true, Bool.true_and,
      decide_eq_false_iff_not, not_le] at hquota
    exact hquota
  | idle => exact h
  | @flush t tx row htx hrow =>
    have hcount := h.txs t tx htx
    have hfresh := hfresh tx htx row hrow
    apply h.writeRow hrow
    have hheld' : ({ s with lock := some (t, Merchant.write tx.copy row) } : Checkouts).held t =
        some (Merchant.write tx.copy row) := held_eq_some.mpr rfl
    unfold TxCount at hcount ⊢
    rw [hheld']
    split at hcount
    · rename_i hstage
      simp only [hstage, Option.mem_some_iff, forall_eq']
      exact ⟨.refl _, h.rowOk_write (h.rowOk_of_version hcount.2 hrow) hcount.1 hfresh⟩
    · rename_i req hstage
      simp only [hstage, Option.mem_some_iff, forall_eq']
      exact ⟨.refl _, h.rowOk_write (h.rowOk_of_version hcount.2.1 hrow) hcount.1 hfresh,
        hcount.2.2⟩
    · rename_i o hstage
      simp only [hstage]
      obtain ⟨row', hheld, hadded⟩ := hcount
      rw [version_of_lock (held_eq_some.mp hheld)] at hrow
      obtain rfl := Option.some.inj hrow
      obtain ⟨hwrite, hnot, hlen⟩ := hadded.stored hfresh
      refine ⟨_, rfl, hadded.isSome, hadded.cap, .inr ⟨rfl, hwrite, ?_, ?_⟩⟩
      · rwa [hwrite]
      · rwa [hwrite]
  | @commitClean t tx htx hheld hclean =>
    have horders := h.orders_of_unheld htx hheld
    refine ⟨?_, ?_, ?_, ?_⟩
    · simpa [horders] using h.filed
    · simpa [horders] using h.count
    · intro q row hlock
      have hlock' : s.lock = some (q, row) := hlock
      have hqt : q ≠ t := by
        rintro rfl
        rw [held_eq_some.mpr hlock'] at hheld
        cases hheld
      obtain ⟨tx', htx'⟩ := h.lock q row hlock
      exact ⟨tx', by simp [hqt, htx']⟩
    · intro q tx' hq
      obtain ⟨hqt, hq⟩ := txs_ended_eq_some hq
      simp only [horders, List.map_nil, List.append_nil]
      exact h.txs q tx' hq
  | @commit t tx row htx hrow => exact h.commit htx hrow (hfresh tx htx row hrow)
  | release _ => exact h.release _

/-- The cap of a cycle in which the merchant is billed flat, on the free plan. -/
theorem cap_step (h : CountHolds s) {derive : ℤ → String → Option String} {e : CheckoutEvent}
    (hfresh : s.FreshBilling e) (hs : s.step derive e = some s') {c : Timestamp}
    (hcap : (s.inCycle (some c)).length ≤ freeMonthlyOrderCap) (hfree : s'.FlatFree c) :
    (s'.inCycle (some c)).length ≤ freeMonthlyOrderCap := by
  cases Move.of_step hs with
  | @commitClean t tx htx hheld hclean =>
    simpa [inCycle, h.orders_of_unheld htx hheld] using hcap
  | @commit t tx row htx hrow =>
    obtain ⟨-, hcount, hnew⟩ := h.count_commit htx hrow (hfresh tx htx row hrow)
    show ((filedIn (s.filed ++ _) (some c)).length : ℤ) ≤ freeMonthlyOrderCap
    rw [filedIn_append, List.length_append]
    by_cases horders : tx.stage.orders = []
    · simpa [horders, filedIn, inCycle] using hcap
    · by_cases hc : (Merchant.write tx.copy row).billingCycleResetAt = some c
      · obtain ⟨hmode, hplan⟩ := hfree hc
        have hle := (hnew horders).2 hmode hplan
        rw [hcount, show (Merchant.write tx.copy row).billing.resetAt = some c from hc] at hle
        rw [hc, filedIn_filed, List.length_map]
        exact_mod_cast hle
      · -- the order is filed under another cycle
        have hnil : filedIn (tx.stage.orders.map fun o =>
            ⟨o, (Merchant.write tx.copy row).billingCycleResetAt⟩) (some c) = [] := by
          rw [filedIn, List.filter_eq_nil_iff]
          simpa using fun o _ => hc
        rw [hnil]
        exact hcap
  | _ => exact hcap

end CountHolds

/-- The invariant of one billing cycle. -/
structure CapHolds (c : Timestamp) (s : Checkouts) : Prop extends CountHolds s where
  cap : s.FlatFree c → (s.inCycle (some c)).length ≤ freeMonthlyOrderCap

theorem CapHolds.step {s s' : Checkouts} {c : Timestamp} (h : CapHolds c s)
    {derive : ℤ → String → Option String} {e : CheckoutEvent} (hfresh : s.FreshBilling e)
    (hfree : s.FlatFree c) (hs : s.step derive e = some s') : CapHolds c s' where
  toCountHolds := h.toCountHolds.step hfresh hs
  cap := h.toCountHolds.cap_step hfresh hs (h.cap hfree)

instance (s : Checkouts) (e : CheckoutEvent) : Decidable (s.FreshBilling e) := by
  unfold FreshBilling
  split <;> infer_instance

instance (c : Timestamp) (s : Checkouts) : Decidable (s.FlatFree c) :=
  inferInstanceAs (Decidable (_ → _))

end Checkouts

/-- **The count and the cap of the free plan**, in every interleaving in which transactions write
the billing columns only over the values that they have read: the committed `monthly_order_count` is
the number of orders committed in the billing cycle, and in a cycle in which the merchant is billed
flat on the free plan throughout, the orders stay within the cap. -/
theorem free_plan_cap {derive : ℤ → String → Option String} {s₀ s : Checkouts}
    {es : List CheckoutEvent} (hidle : s₀.Idle)
    (hfiled : ∀ f ∈ s₀.filed, f.cycle.isSome ∧ NotBefore f.cycle s₀.row.billingCycleResetAt)
    (hcount : s₀.row.monthlyOrderCount = (s₀.inCycle s₀.row.billingCycleResetAt).length)
    (run : Run (Checkouts.step derive) Checkouts.FreshBilling s₀ es s) :
    s.row.monthlyOrderCount = (s.inCycle s.row.billingCycleResetAt).length ∧
      ∀ c, (s₀.inCycle (some c)).length ≤ freeMonthlyOrderCap →
        Run (Checkouts.step derive) (fun s _ => s.FlatFree c) s₀ es s → s.FlatFree c →
        (s.inCycle (some c)).length ≤ freeMonthlyOrderCap := by
  have h0 : s₀.CountHolds :=
    { filed := hfiled
      count := hcount
      lock := fun t row hlock => by rw [hidle.lock] at hlock; cases hlock
      txs := fun t tx htx => by rw [hidle.txs t] at htx; cases htx }
  have h : s.CountHolds := run.invariant (fun _ _ _ hi hok hs => hi.step hok hs) h0
  refine ⟨h.count, fun c hcap hfree hlast => ?_⟩
  have hcapHolds : s.CapHolds c :=
    (run.inter hfree).invariant (fun _ _ _ hi hok hs => hi.step hok.1 hok.2 hs)
      ⟨h0, fun _ => hcap⟩
  exact hcapHolds.cap hlast

/-! ### Runs of it -/

/-- One checkout after another counts both orders. -/
theorem free_plan_cap_serial : ∃ s,
    exec (Checkouts.step fun _ _ => some "") (sampleCheckouts 48)
      [.load 1 (sampleCheckouts 48).row, .check 1 (sampleRequest 101), .reserve 1, .commit 1] =
        some s ∧
      s.row.monthlyOrderCount = 49 ∧ (s.inCycle s.row.billingCycleResetAt).length = (49 : ℤ) := by
  have hrun : ((exec (restrict (fun s e => s.FreshBilling e) (Checkouts.step fun _ _ => some ""))
      (sampleCheckouts 48) [.load 1 (sampleCheckouts 48).row, .check 1 (sampleRequest 101),
        .reserve 1, .commit 1]).map fun s => s.row.monthlyOrderCount) = some 49 := by
    decide +kernel
  obtain ⟨s, hs, hcount⟩ := Option.map_eq_some_iff.mp hrun
  have run := (Run.of_exec_restrict hs).mono fun _ _ h => of_decide_eq_true h
  refine ⟨s, run.exec_eq, hcount, ?_⟩
  rw [← hcount]
  refine (free_plan_cap ⟨rfl, fun _ => rfl⟩ ?_ ?_ run).1.symm
  · intro f hf
    obtain ⟨i, -, rfl⟩ := List.mem_map.mp hf
    exact ⟨rfl, .refl _⟩
  · decide +kernel

/-- **The cap is passed**: two checkouts that both read the merchant at its 49th order are both
within the cap, and the second one writes its count over that of the first. -/
theorem free_plan_cap_exceeded : ∃ s,
    Run (Checkouts.step fun _ _ => some "") (fun s _ => s.FlatFree 1000) (sampleCheckouts 49)
      (bothLoaded 49) s ∧ s.FlatFree 1000 ∧
      s.row.billingCycleResetAt = some 1000 ∧ s.row.monthlyOrderCount = 50 ∧
      (s.inCycle (some 1000)).length = 51 := by
  have hrun : ((exec (restrict (fun s _ => s.FlatFree 1000) (Checkouts.step fun _ _ => some ""))
      (sampleCheckouts 49) (bothLoaded 49)).map fun s =>
        (s.row.billing, (s.inCycle (some 1000)).length)) =
      some (⟨.flat, none, some 1000, .free, 50⟩, 51) := by
    decide +kernel
  obtain ⟨s, hs, hall⟩ := Option.map_eq_some_iff.mp hrun
  have run := (Run.of_exec_restrict hs).mono fun _ _ h => of_decide_eq_true h
  simp only [Merchant.billing, Prod.mk.injEq, Billing.mk.injEq] at hall
  obtain ⟨⟨hmode, -, hreset, hplan, hcount⟩, hlen⟩ := hall
  exact ⟨s, run, fun _ => ⟨hmode, hplan⟩, hreset, hcount, hlen⟩

end Gateway
