import Gateway.Poll.Expiry

/-!
# What the rows say about payments

A confirmation writes several columns of an order, and each pass flushes the columns that it has
changed over whatever the others have committed meanwhile. Still no row is ever half paid: in every
interleaving a row carries either nothing or one receipt in all of its payment columns, a pending
row carries nothing and a paid one carries a receipt (`RowsHold`). What a receipt is good for is a
parameter of the invariant, since a pass writes down what its checks have found. With the two
checks of the program, a receipt is for at least 99% of the amount on an EVM chain and for the whole
amount on Solana, and is made out before the order expires (`rows_recorded`).
-/

namespace Gateway

open Foundations

/-! ## Receipts -/

/-- What the payment columns of an order say. -/
structure Receipt where
  chain : PaidChain
  asset : Asset
  amount : ℚ
  paidAt : Timestamp

namespace Receipt

/-- The receipt as the columns store it. -/
def stored (r : Receipt) : Receipt := { r with amount := storeNumeric 10 r.amount }

end Receipt

/-- The receipt that a pass writes for a payment. -/
def Payment.receipt (now : Timestamp) (payment : Payment) : Receipt where
  chain := payment.chain
  asset := payment.asset
  amount := payment.amount
  paidAt := now

namespace MerchantOrder

/-- The columns that a confirmation writes are empty. -/
def Blank (o : MerchantOrder) : Prop :=
  o.paidChain = none ∧ o.paidAsset = none ∧ o.paidAmount = none ∧ o.paidAt = none ∧
    o.webhookDeliveredAt = none

/-- They carry a receipt. -/
def Carries (o : MerchantOrder) (r : Receipt) : Prop :=
  o.paidChain = some r.chain ∧ o.paidAsset = some r.asset ∧ o.paidAmount = some r.amount ∧
    o.paidAt = some r.paidAt

theorem Carries.unique {o : MerchantOrder} {r r' : Receipt} (h : o.Carries r) (h' : o.Carries r') :
    r = r' := by
  obtain ⟨hchain, hasset, hamount, hat⟩ := h
  obtain ⟨hchain', hasset', hamount', hat'⟩ := h'
  cases r
  cases r'
  simp_all

/-- A visit that pays an order writes a receipt on it. -/
theorem carries_markPaid (now : Timestamp) (payment : Payment) (o : MerchantOrder) :
    (o.markPaid now payment).Carries (payment.receipt now) := ⟨rfl, rfl, rfl, rfl⟩

end MerchantOrder

/-- An EVM payment is found by the EVM check. -/
theorem evm_of_findPayment {a : Answers} {o : MerchantOrder} {m : Option Merchant} {found : EvmMatch}
    (h : findPayment a o m = some (some (.evm found))) : a.evm = some (some found) := by
  unfold findPayment at h
  split at h
  · cases h
  · cases h
    assumption
  · cases h
  · obtain ⟨r, -, hr⟩ := Option.map_eq_some_iff.mp h
    cases r <;> cases hr

/-- A visit that pays an order has found the payment in time, and writes its receipt. -/
theorem receipt_of_visit {now : Timestamp} {a : Answers} {o o' : MerchantOrder}
    {m m' : Option Merchant} {c : Confirmation} (h : visitOrder now a o m = some (.paid o' m' c)) :
    now < o.expiresAt ∧ o'.status = .paid ∧ ∃ payment, findPayment a o m = some (some payment) ∧
      o'.Carries (payment.receipt now) := by
  obtain ⟨hearly, payment, hfound, hconfirm⟩ := confirm_of_visit h
  have hpaid : o'.status = .paid ∧ o'.Carries (payment.receipt now) := by
    cases m with
    | none =>
      cases hconfirm
      exact ⟨rfl, MerchantOrder.carries_markPaid now payment o⟩
    | some m =>
      simp only [confirm, Visit.paid.injEq] at hconfirm
      obtain ⟨rfl, -⟩ := hconfirm
      split_ifs <;> exact ⟨rfl, rfl, rfl, rfl, rfl⟩
  exact ⟨not_le.mp hearly, hpaid.1, payment, hfound, hpaid.2⟩

/-- What a receipt of an order with these terms is good for. -/
abbrev Goodness := String × Numeric 10 2 × Timestamp → Receipt → Prop

/-- **A row is not half paid**: it carries nothing and is not paid, or it carries a good receipt and
is not pending. -/
def MerchantOrder.Whole (good : Goodness) (o : MerchantOrder) : Prop :=
  (o.Blank ∧ o.status ≠ .paid) ∨ (o.status ≠ .pending ∧ ∃ r, o.Carries r ∧ good o.terms r)

/-! ## Copies and rows -/

/-- A copy that would write nothing, or an expiry, or all columns of a receipt. -/
def CopyWhole (good : Goodness) (t : Tracked MerchantOrder) : Prop :=
  t.cur = t.base ∨ (t.base.Blank ∧ t.base.status = .pending ∧
    (t.cur = { t.base with status := .expired } ∨
      (t.cur.status = .paid ∧ ∃ r, t.cur.Carries r ∧ good t.cur.terms r.stored)))

/-- A copy of an order that the pass has not visited. -/
def CopyOpen (t : Tracked MerchantOrder) : Prop :=
  t.cur = t.base ∧ t.base.Blank ∧ t.base.status = .pending

/-- A whole copy leaves a whole row behind. -/
theorem MerchantOrder.Whole.write {good : Goodness} {o : MerchantOrder}
    {t : Tracked MerchantOrder} (h : o.Whole good) (ht : CopyWhole good t)
    (hterms : t.cur.terms = o.terms) : (MerchantOrder.write t o).Whole good := by
  rcases ht with hclean | ⟨hblank, hpending, hexpired | ⟨hpaid, r, hcarries, hgood⟩⟩
  · rw [MerchantOrder.write_of_clean hclean]
    exact h
  · -- only the status is written
    have hrow : MerchantOrder.write t o = { o with status := .expired } := by
      have hne : Status.expired ≠ t.base.status := by simp [hpending]
      simp [MerchantOrder.write, hexpired, writeBackAs, hne]
    rw [hrow]
    rcases h with ⟨hempty, -⟩ | ⟨-, r, hcarries, hgood⟩
    · exact .inl ⟨hempty, by simp⟩
    · exact .inr ⟨by simp, r, hcarries, hgood⟩
  · obtain ⟨hchain₀, hasset₀, hamount₀, hat₀, -⟩ := hblank
    obtain ⟨hchain, hasset, hamount, hat⟩ := hcarries
    refine .inr ⟨?_, r.stored, ⟨?_, ?_, ?_, ?_⟩, ?_⟩
    · simp [MerchantOrder.write, writeBackAs, hpaid, hpending]
    · simp [MerchantOrder.write, writeBackAs, hchain, hchain₀, Receipt.stored]
    · simp [MerchantOrder.write, writeBackAs, hasset, hasset₀, Receipt.stored]
    · simp [MerchantOrder.write, writeBackAs, hamount, hamount₀, Receipt.stored]
    · simp [MerchantOrder.write, writeBackAs, hat, hat₀, Receipt.stored]
    · rw [hterms] at hgood
      exact hgood

/-! ## The invariant -/

/-- What holds of a running pass over the stored orders. -/
structure PassWhole (good : Goodness) (orders : Table MerchantOrder) (pass : Pass) : Prop where
  todo_nodup : pass.todo.Nodup
  todo_open : ∀ id ∈ pass.todo, ∃ t, pass.orders id = some t ∧ CopyOpen t
  copies : ∀ id t, pass.orders id = some t → CopyWhole good t ∧
    ∃ o, orders.find? id = some o ∧ t.cur.terms = o.terms

/-- No row is half paid, nor will be. -/
structure RowsHold (good : Goodness) (s : System) : Prop where
  rows : ∀ o ∈ s.orders.rows, o.Whole good
  passes : ∀ p pass, s.passes p = some pass → PassWhole good s.orders pass

/-- The receipts that visits write are good, and orders are added without any. -/
def System.GoodReceipts (good : Goodness) (s : System) (e : Event) : Prop :=
  s.OnVisit (fun _ _ _ v => ∀ o m c, v = .paid o m c → ∀ r, o.Carries r →
    good o.terms r.stored) e ∧
  ∀ m o, e = .other m (some o) → o.Blank

namespace PassWhole

variable {good : Goodness} {orders orders' : Table MerchantOrder} {pass : Pass}

/-- The orders are stored with the same terms as before. -/
theorem mono (h : PassWhole good orders pass)
    (hrows : ∀ id o, orders.find? id = some o →
      ∃ o', orders'.find? id = some o' ∧ o'.terms = o.terms) : PassWhole good orders' pass where
  todo_nodup := h.todo_nodup
  todo_open := h.todo_open
  copies := by
    intro id t ht
    obtain ⟨hwhole, o, ho, hterms⟩ := h.copies id t ht
    obtain ⟨o', ho', hterms'⟩ := hrows id o ho
    exact ⟨hwhole, o', ho', hterms.trans hterms'.symm⟩

theorem openPass {s : System} (hrows : ∀ o ∈ s.orders.rows, o.Whole good) (now : Timestamp)
    {pending : List MerchantOrder} (hpending : s.isPendingList pending) :
    PassWhole good s.orders (System.openPass now pending) where
  todo_nodup := System.nodup_of_isPendingList hpending
  todo_open := by
    intro id hid
    obtain ⟨o, ho, rfl⟩ := List.mem_map.mp hid
    cases hf : pending.find? fun o' => o'.id = o.id with
    | none =>
      have hno := List.find?_eq_none.mp hf o ho
      simp at hno
    | some o' =>
      have hmem := System.mem_of_isPendingList hpending (List.mem_of_find?_eq_some hf)
      refine ⟨Tracked.load o', by simp [System.openPass, hf], rfl, ?_, hmem.2⟩
      rcases hrows o' hmem.1 with ⟨hblank, -⟩ | ⟨hnot, -⟩
      · exact hblank
      · exact absurd hmem.2 hnot
  copies := by
    intro id t ht
    obtain ⟨o, ho, rfl⟩ := Option.map_eq_some_iff.mp ht
    obtain ⟨hmem, -⟩ := System.mem_of_isPendingList hpending (List.mem_of_find?_eq_some ho)
    have hid : o.id = id := by simpa using List.find?_some ho
    exact ⟨.inl rfl, o, Table.find?_eq_some.mpr ⟨hmem, hid⟩, rfl⟩

/-- A session that has been committed writes nothing. -/
theorem synced (h : PassWhole good orders pass) (stage : Stage) :
    PassWhole good orders { pass.synced with stage := stage } where
  todo_nodup := h.todo_nodup
  todo_open := by
    intro id hid
    obtain ⟨t, ht, hclean, hblank, hst⟩ := h.todo_open id hid
    refine ⟨t.sync, by simp [Pass.synced, ht], ?_⟩
    rw [Tracked.sync_of_clean hclean]
    exact ⟨hclean, hblank, hst⟩
  copies := by
    intro id t' ht'
    obtain ⟨t, ht, rfl⟩ := Option.map_eq_some_iff.mp ht'
    exact ⟨.inl rfl, (h.copies id t ht).2⟩

/-- The copy that a visit leaves of the order. -/
theorem copy_of_visit {t : Tracked MerchantOrder} (hopen : CopyOpen t) {now : Timestamp}
    {a : Answers} {m : Option Merchant} {v : Visit} (h : visitOrder now a t.cur m = some v)
    (hgood : ∀ o m c, v = .paid o m c → ∀ r, o.Carries r → good o.terms r.stored)
    {o : MerchantOrder} (ho : v.order? = some o) : CopyWhole good (t.set o) := by
  obtain ⟨hclean, hblank, hpending⟩ := hopen
  refine .inr ⟨hblank, hpending, ?_⟩
  rcases visitOrder_cases h with rfl | rfl | ⟨o', m', c, rfl, -⟩
  · cases ho
    left
    rw [Tracked.set_cur, Tracked.set_base, hclean]
  · cases ho
  · cases ho
    right
    obtain ⟨-, hpaid, payment, -, hcarries⟩ := receipt_of_visit h
    exact ⟨hpaid, _, hcarries, hgood o m' c rfl _ hcarries⟩

theorem orders_afterVisit (pass : Pass) (id : OrderId) (rest : List OrderId) (v : Visit) :
    (pass.afterVisit id rest v).orders = v.order?.elim pass.orders fun o =>
      Function.update pass.orders id ((pass.orders id).map (·.set o)) := by
  cases v <;> rfl

/-- A visit leaves the pass whole. -/
theorem visited (h : PassWhole good orders pass) {id : OrderId} {rest : List OrderId}
    {t : Tracked MerchantOrder} {a : Answers} {m : Option Merchant} {v : Visit}
    (htodo : pass.todo = id :: rest) (ht : pass.orders id = some t)
    (hv : visitOrder pass.now a t.cur m = some v)
    (hgood : ∀ o m c, v = .paid o m c → ∀ r, o.Carries r → good o.terms r.stored) :
    PassWhole good orders (pass.afterVisit id rest v) := by
  have hnodup := h.todo_nodup
  rw [htodo, List.nodup_cons] at hnodup
  obtain ⟨hnot, hnodup⟩ := hnodup
  have htodo' : (pass.afterVisit id rest v).todo = rest := by cases v <;> rfl
  have hother : ∀ i ≠ id, (pass.afterVisit id rest v).orders i = pass.orders i := by
    intro i hi
    rw [orders_afterVisit]
    cases v.order? with
    | none => rfl
    | some o => exact Function.update_of_ne hi ..
  obtain ⟨t₀, ht₀, hopen⟩ := h.todo_open id (by simp [htodo])
  obtain rfl : t = t₀ := Option.some.inj (ht.symm.trans ht₀)
  refine ⟨by rwa [htodo'], fun i hi => ?_, fun i t' ht' => ?_⟩
  · rw [htodo'] at hi
    rw [hother i fun he => hnot (he ▸ hi)]
    exact h.todo_open i (by simp [htodo, hi])
  · by_cases hi : i = id
    · subst hi
      obtain ⟨-, o₀, ho₀, hterms₀⟩ := h.copies i t ht
      rw [orders_afterVisit] at ht'
      cases ho : v.order? with
      | none =>
        rw [ho] at ht'
        exact h.copies i t' ht'
      | some o =>
        simp only [ho, Option.elim_some, Function.update_self, ht, Option.map_some,
          Option.some.injEq] at ht'
        subst ht'
        refine ⟨copy_of_visit hopen hv hgood ho, o₀, ho₀, ?_⟩
        exact (visited_of_visitOrder hv ho).1.trans hterms₀
    · rw [hother i hi] at ht'
      exact h.copies i t' ht'

end PassWhole

namespace RowsHold

variable {good : Goodness} {s s' : System} {p : PassId} {pass pass' : Pass}

/-- A pass goes on over the same orders. -/
theorem setPass (h : RowsHold good s) (hpass : PassWhole good s.orders pass') :
    RowsHold good (s.setPass p pass') where
  rows := h.rows
  passes := by
    intro q other hq
    rcases System.passes_setPass hq with ⟨rfl, rfl⟩ | ⟨-, hold⟩
    · exact hpass
    · exact h.passes q other hold

theorem endPass (h : RowsHold good s) (p : PassId) : RowsHold good (s.endPass p) where
  rows := h.rows
  passes := fun q other hq => h.passes q other (System.passes_endPass hq).2

/-- A pass writes whole rows. -/
theorem save (h : RowsHold good s) (hp : s.passes p = some pass) (stage : Stage) :
    RowsHold good ((s.save pass).setPass p { pass.synced with stage := stage }) := by
  have hterms : ∀ id o, s.orders.find? id = some o →
      ∃ o', (s.save pass).orders.find? id = some o' ∧ o'.terms = o.terms := by
    intro id o ho
    rw [s.find?_save, ho, Option.map_some]
    cases pass.orders id <;> exact ⟨_, rfl, rfl⟩
  have hsaved : RowsHold good (s.save pass) := by
    refine ⟨fun o' ho' => ?_, fun q other hq => (h.passes q other hq).mono hterms⟩
    have hf' := Table.find?_of_mem ho'
    rw [s.find?_save] at hf'
    obtain ⟨o, ho, hwrite⟩ := Option.map_eq_some_iff.mp hf'
    have hwhole := h.rows o (Table.find?_eq_some.mp ho).1
    cases hc : pass.orders (Keyed.key o') with
    | none =>
      rw [hc] at hwrite
      exact hwrite ▸ hwhole
    | some t =>
      rw [hc] at hwrite
      obtain ⟨ht, o₁, ho₁, hsame⟩ := (h.passes p pass hp).copies _ t hc
      obtain rfl : o₁ = o := Option.some.inj (ho₁.symm.trans ho)
      exact hwrite ▸ hwhole.write ht hsame
  exact hsaved.setPass (((h.passes p pass hp).mono hterms).synced stage)

/-- Another transaction commits. -/
theorem other (h : RowsHold good s) {m : Merchant} {order : Option MerchantOrder}
    (hblank : ∀ o ∈ order, o.Blank) (hs : s.other m order = some s') : RowsHold good s' := by
  have hpasses : s'.passes = s.passes := by
    obtain ⟨-, orders, rfl, -⟩ := System.other_eq_some hs
    rfl
  refine ⟨fun o ho => ?_, fun p pass hp => ?_⟩
  · rcases System.mem_other hs ho with ho | ⟨hadd, hmay⟩
    · exact h.rows o ho
    · simp only [System.mayAdd, Bool.and_eq_true, decide_eq_true_eq] at hmay
      exact .inl ⟨hblank o hadd, by simp [hmay.1]⟩
  · rw [hpasses] at hp
    exact (h.passes p pass hp).mono fun id o ho => ⟨o, System.find?_other hs ho, rfl⟩

/-- **Every event leaves the rows whole**, in whatever way the passes interleave. -/
theorem step (h : RowsHold good s) {e : Event} (hgood : s.GoodReceipts good e)
    (hmove : Move s e s') : RowsHold good s' := by
  cases hmove with
  | none _ => exact h
  | begin _ hpending => exact h.setPass (.openPass h.rows _ hpending)
  | load hp _ => exact h.setPass { h.passes _ _ hp with }
  | @visit p a pass id rest t v hp _ htodo ht hv =>
    have hset : RowsHold good (s.setPass p (pass.afterVisit id rest v)) := by
      refine h.setPass ((h.passes p pass hp).visited htodo ht hv ?_)
      apply hgood.1 pass id rest v hp
      simp [Pass.nextVisit, htodo, ht, hv]
    cases v <;> exact { hset with }
  | raise _ _ => exact h.endPass _
  | mark hp _ _ => exact h.setPass { h.passes _ _ hp with }
  | pushSave hp _ _ => exact h.save hp _
  | finishSave hp _ =>
    rw [← System.endPass_setPass]
    exact (h.save hp .looping).endPass _
  | finishLost _ _ => exact h.endPass _
  | abort _ => exact h.endPass _
  | @other m order _ hs =>
    apply h.other (fun o ho => ?_) hs
    obtain rfl := Option.mem_def.mp ho
    exact hgood.2 m o rfl

end RowsHold

/-! ## The receipts of the two checks -/

/-- A match of the EVM check reaches the threshold, whatever the rounds have decided. -/
theorem threshold_le_of_checkEvmPayment {settings : Settings} {reads : ConsensusReads}
    {evmAddress : String} {x : Numeric 10 2} {m : EvmMatch}
    (h : checkEvmPayment settings reads evmAddress x.value = some (some m)) :
    x.value * minPaymentFraction ≤ m.amount := by
  rw [checkEvmPayment_eq] at h
  obtain ⟨t, -, ht⟩ := firstMatch_sound h
  obtain ⟨v, hv⟩ := evmValidator_ok settings t.chain t.rpcUrl
  simp only [checkToken, hv, checkContract] at ht
  obtain ⟨consensus, -, ht⟩ := Option.bind_eq_some_iff.mp ht
  split_ifs at ht
  · obtain ⟨raw, -, ht⟩ := Option.bind_eq_some_iff.mp ht
    split_ifs at ht
    · simp at ht
    · obtain ⟨amount, -, ht⟩ := Option.bind_eq_some_iff.mp ht
      rw [(threshold_representable x).2, Option.bind_some] at ht
      split_ifs at ht with hshort
      · simp at ht
      · cases ht
        exact not_lt.mp hshort
  · simp at ht

/-- A receipt for at least 99% of the amount on an EVM chain, or for the whole amount on Solana,
from before the order expires. -/
def fairReceipt : Goodness := fun terms r =>
  (∀ chain, r.chain = .evm chain → terms.2.1.value * minPaymentFraction ≤ r.amount) ∧
    (r.chain = .solana → r.amount = terms.2.1.value) ∧ r.paidAt < terms.2.2

/-- The EVM verdict about the order that a visit is at comes from the EVM check, on whatever the
rounds decide. -/
def System.ChecksEvm (s : System) : Event → Prop
  | .visit p a => ∀ pass id rest r t, s.passes p = some pass →
      pass.nextVisit a = some (id, rest, r) → pass.orders id = some t →
      ∃ settings reads, a.evm =
        checkEvmPayment settings reads t.cur.evmAddress t.cur.amountUsd.value
  | _ => True

/-- Orders are added without a payment. -/
def AddsBlank : Event → Prop
  | .other _ (some o) => o.Blank
  | _ => True

theorem fairReceipt_of_payment {settings : Settings} {reads : ConsensusReads} {now : Timestamp}
    {a : Answers} {o : MerchantOrder} {m : Option Merchant} {payment : Payment}
    (hearly : now < o.expiresAt) (hfound : findPayment a o m = some (some payment))
    (hevm : a.evm = checkEvmPayment settings reads o.evmAddress o.amountUsd.value) :
    fairReceipt o.terms (payment.receipt now).stored := by
  cases payment with
  | evm found =>
    have hmatch := evm_of_findPayment hfound
    have hscaled : Scaled 4 (o.amountUsd.value * minPaymentFraction) := by
      refine ⟨o.amountUsd.unscaled * 99, ?_⟩
      rw [Numeric.value, minPaymentFraction]
      push_cast
      ring
    have hle := threshold_le_of_checkEvmPayment (hevm.symm.trans hmatch)
    refine ⟨fun chain _ => hscaled.le_storeNumeric (by norm_num) hle, ?_, hearly⟩
    simp [Receipt.stored, Payment.receipt, Payment.chain]
  | solana found =>
    obtain ⟨m₀, -, hcheck⟩ := findPayment_solana hfound
    obtain ⟨hamount, -, -⟩ := checkSolanaPayment_eq_match hcheck
    refine ⟨by simp [Receipt.stored, Payment.receipt, Payment.chain], fun _ => ?_, hearly⟩
    show storeNumeric 10 found.amount = o.amountUsd.value
    rw [hamount, storeNumeric_of_scaled (by norm_num) (Scaled.numeric _)]

theorem System.goodReceipts_of_checks {s : System} {e : Event} (hevm : s.ChecksEvm e)
    (hblank : AddsBlank e) : s.GoodReceipts fairReceipt e := by
  constructor
  · cases e with
    | visit p a =>
      intro pass id rest v hp hnext o m c hv r hcarries
      subst hv
      obtain ⟨-, t, ht, hvisit⟩ := Pass.nextVisit_eq_some hnext
      obtain ⟨settings, reads, hcheck⟩ := hevm pass id rest _ t hp hnext ht
      obtain ⟨hearly, -, payment, hfound, hcarries'⟩ := receipt_of_visit hvisit.symm
      obtain rfl := hcarries.unique hcarries'
      rw [(visited_of_visitOrder hvisit.symm (v := .paid o m c) rfl).1]
      exact fairReceipt_of_payment hearly hfound hcheck
    | _ => trivial
  · rintro m o rfl
    exact hblank

/-- **No row is ever half paid.** In every interleaving of passes with other transactions, a pending
order has no payment column set, a paid one has them all, and they are set or not set together; what
they say is at least 99% of the amount on an EVM chain and the whole amount on Solana, paid before
the order expires. -/
theorem rows_recorded {s s' : System} {es : List Event} (h0 : ∀ p, s.passes p = none)
    (hrows : ∀ o ∈ s.orders.rows, o.Whole fairReceipt)
    (run : Run System.step (fun s e => s.ChecksEvm e ∧ AddsBlank e) s es s') :
    ∀ o ∈ s'.orders.rows, o.Whole fairReceipt := by
  have hstart : RowsHold fairReceipt s := by
    refine ⟨hrows, fun p pass hp => ?_⟩
    rw [h0 p] at hp
    cases hp
  have hend : RowsHold fairReceipt s' :=
    run.invariant (fun s e s' hs hok hstep =>
      hs.step (System.goodReceipts_of_checks hok.1 hok.2) (.of_step hstep)) hstart
  exact hend.rows

/-! ### A pass that expires what another one has paid -/

/-- Two passes read the same order; the first one confirms it and commits, and then the second one
expires it. -/
def crossedRun : List Event :=
  [.other sampleMerchant (some fiveOrder), .begin 0 99 [fiveOrder], .begin 1 100 [fiveOrder],
    .loadMerchants 0, .loadMerchants 1, .visit 0 fiveAnswers, .push 0 .quiet, .finish 0,
    .visit 1 fiveAnswers, .finish 1]

/-- Does a visit find the order of the sample? -/
def System.seesOrder (s : System) : Event → Bool
  | .visit p _ => (s.passes p).all fun pass => pass.todo.all fun id =>
      (pass.orders id).all fun t => t.cur.evmAddress = fiveOrder.evmAddress &&
        t.cur.amountUsd.unscaled = 500
  | _ => true

theorem checksEvm_of_sees {s : System} {p : PassId} (hsees : s.seesOrder (.visit p fiveAnswers)) :
    s.ChecksEvm (.visit p fiveAnswers) := by
  intro pass id rest r t hp hnext ht
  obtain ⟨htodo, -⟩ := Pass.nextVisit_eq_some hnext
  simp only [System.seesOrder, hp, Option.all_some, htodo, List.all_cons, ht, Bool.and_eq_true,
    decide_eq_true_eq] at hsees
  obtain ⟨⟨haddress, hamount⟩, -⟩ := hsees
  have hvalue : t.cur.amountUsd.value = fiveOrder.amountUsd.value := by
    rw [Numeric.value, hamount]
    rfl
  exact ⟨{}, sampleReads, by rw [haddress, hvalue]; rfl⟩

theorem checks_crossed {s : System} {e : Event} (he : e ∈ crossedRun) (hsees : s.seesOrder e) :
    s.ChecksEvm e ∧ AddsBlank e := by
  simp only [crossedRun, List.mem_cons, List.not_mem_nil, or_false] at he
  rcases he with rfl | rfl | rfl | rfl | rfl | rfl | rfl | rfl | rfl | rfl
  case inl => exact ⟨trivial, rfl, rfl, rfl, rfl, rfl⟩
  case inr.inr.inr.inr.inr.inl => exact ⟨checksEvm_of_sees hsees, trivial⟩
  case inr.inr.inr.inr.inr.inr.inr.inr.inl => exact ⟨checksEvm_of_sees hsees, trivial⟩
  all_goals exact ⟨trivial, trivial⟩

/-- The row is that of an expired order, with the whole receipt of its payment. -/
theorem rows_recorded_crossed : ∃ s' o,
    exec System.step (sampleSystem [] (by decide)) crossedRun = some s' ∧
      o ∈ s'.orders.rows ∧ o.status = .expired ∧ o.paidAmount = some 5 ∧
      o.Whole fairReceipt := by
  have hrun : ((exec (restrict System.seesOrder System.step) (sampleSystem [] (by decide))
      crossedRun).bind fun s => (s.orders.find? 1).map fun o => (o.status, o.paidAmount)) =
      some (.expired, some 5) := by
    decide +kernel
  obtain ⟨s, hs, hrow⟩ := Option.bind_eq_some_iff.mp hrun
  obtain ⟨o, ho, hdata⟩ := Option.map_eq_some_iff.mp hrow
  obtain ⟨hst, hamount⟩ := Prod.mk.inj hdata
  have hmem := (Table.find?_eq_some.mp ho).1
  have hsees := Run.of_exec_restrict hs
  have hevents : Run System.step (fun _ e => e ∈ crossedRun) (sampleSystem [] (by decide))
      crossedRun s := .of_exec_of_forall (fun _ he _ => he) hsees.exec_eq
  have run := (hevents.inter hsees).mono fun _ _ hok => checks_crossed hok.1 hok.2
  exact ⟨s, o, run.exec_eq, hmem, hst, hamount,
    rows_recorded (fun _ => rfl) (by simp [sampleSystem]) run o hmem⟩

end Gateway
