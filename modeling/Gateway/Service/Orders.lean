import Gateway.Service.Refinement

/-!
# The orders of the service

All orders of the database, while checkouts of any number of merchants, switches of their billing
modes and poll passes run in any order: no two orders have one merchant and one derivation index,
every index is below the counter of its merchant, and no row is half paid (`service_orders`). A pass
writes the rows of merchants and orders that the checkouts count on, and leaves the indices in both
alone.
-/

namespace Gateway

open Foundations

/-! ## Passes leave the indices alone -/

/-- What tells an order from the others of the database. -/
def MerchantOrder.slot (o : MerchantOrder) : MerchantId × ℤ := (o.merchantId, o.evmDerivationIndex)

/-- The copy of a merchant in a pass, with the index that was read. -/
def Pass.IndexKept (pass : Pass) : Prop :=
  ∀ id t, pass.merchants id = some t →
    t.cur.id = id ∧ t.cur.nextEvmIndex = t.base.nextEvmIndex

namespace Move

variable {s s' : System} {e : Event}

/-- An event of a pass leaves the orders, and what no flush of them writes. -/
theorem map_orders {β : Type*} (h : Move s e s') (hother : ∀ m order, e ≠ .other m order)
    {f : MerchantOrder → β} (hf : ∀ t o, f (MerchantOrder.write t o) = f o) :
    s'.orders.rows.map f = s.orders.rows.map f := by
  have hsave : ∀ pass : Pass, (s.save pass).orders.rows.map f = s.orders.rows.map f := by
    intro pass
    simp only [System.save, Table.flush, Table.update, List.map_map]
    apply List.map_congr_left
    intro o _
    simp only [Function.comp_apply, key_order]
    cases pass.orders o.id with
    | none => rfl
    | some t => exact hf t o
  cases h with
  | pushSave => exact hsave _
  | finishSave => exact hsave _
  | other => exact absurd rfl (hother _ _)
  | @visit _ _ _ _ _ _ v => cases v <;> rfl
  | _ => rfl

/-- An event of a pass keeps the rows of the merchants. -/
theorem merchant_stays (h : Move s e s') (hother : ∀ m order, e ≠ .other m order)
    {id : MerchantId} {m : Merchant} (hm : s.merchants.find? id = some m) :
    ∃ m', s'.merchants.find? id = some m' := by
  have hsave : ∀ pass : Pass, ∃ m', (s.save pass).merchants.find? id = some m' := by
    intro pass
    rw [s.find?_save_merchants, hm, Option.map_some]
    exact ⟨_, rfl⟩
  cases h with
  | pushSave => exact hsave _
  | finishSave => exact hsave _
  | other => exact absurd rfl (hother _ _)
  | @visit _ _ _ _ _ _ v => cases v <;> exact ⟨m, hm⟩
  | _ => exact ⟨m, hm⟩

/-- The passes keep the indices that they have read. -/
theorem indexKept (h : Move s e s')
    (hs : ∀ p pass, s.passes p = some pass → pass.IndexKept) :
    ∀ p pass, s'.passes p = some pass → pass.IndexKept :=
  h.copies (fun _ _ hc => hc.1) (fun _ _ hm => ⟨(Table.find?_eq_some.mp hm).2, rfl⟩)
    (fun _ _ _ _ _ hc => ⟨by simp [hc.1], by simp [hc.2]⟩) (fun _ _ hc => ⟨hc.1, rfl⟩) hs

end Move

/-! ## The indices of a merchant -/

/-- The indices of a merchant's orders, among these. -/
def indicesOf (id : MerchantId) (orders : List MerchantOrder) : List ℤ :=
  ((orders.map MerchantOrder.slot).filter fun x => x.1 = id).map Prod.snd

theorem indicesOf_append (id : MerchantId) (orders orders' : List MerchantOrder) :
    indicesOf id (orders ++ orders') = indicesOf id orders ++ indicesOf id orders' := by
  simp [indicesOf]

/-- Orders of one merchant. -/
theorem indicesOf_eq {id id' : MerchantId} {orders : List MerchantOrder}
    (h : ∀ o ∈ orders, o.merchantId = id') : indicesOf id orders =
      if id' = id then orders.map MerchantOrder.evmDerivationIndex else [] := by
  have hfilter : ∀ x ∈ orders.map MerchantOrder.slot, decide (x.1 = id) = decide (id' = id) := by
    intro x hx
    obtain ⟨o, ho, rfl⟩ := List.mem_map.mp hx
    simp [MerchantOrder.slot, h o ho]
  rw [indicesOf, List.filter_congr hfilter]
  split_ifs with hid
  · simp [hid, MerchantOrder.slot]
  · simp [hid]

namespace Checkouts

/-- The indices of the filed orders. -/
abbrev filedIndices (c : Checkouts) : List ℤ := c.filed.map fun f => f.order.evmDerivationIndex

/-- What the filed orders and the row are otherwise does not matter. -/
theorem IndicesHold.congr {c c' : Checkouts} (h : c.IndicesHold)
    (hfiled : c'.filedIndices = c.filedIndices)
    (hnext : c'.row.nextEvmIndex = c.row.nextEvmIndex) (hlock : c'.lock = c.lock)
    (htxs : c'.txs = c.txs) : c'.IndicesHold where
  nodup := by
    show c'.filedIndices.Nodup
    rw [hfiled]
    exact h.nodup
  below := by
    intro f hf
    have hmem : f.order.evmDerivationIndex ∈ c.filedIndices := by
      rw [← hfiled]
      exact List.mem_map_of_mem hf
    obtain ⟨f', hf', he⟩ := List.mem_map.mp hmem
    rw [hnext, ← he]
    exact h.below f' hf'
  lock := by
    intro t row ht
    rw [hnext]
    exact h.lock t row (hlock ▸ ht)
  txs := by
    intro t tx ht
    have hindex := h.txs t tx (htxs ▸ ht)
    have hheld : c'.held t = c.held t := by simp only [held, hlock]
    unfold TxIndex at hindex ⊢
    rw [hheld, hnext]
    exact hindex

/-- A commit files the orders of the transaction. -/
theorem filedIndices_commit {c c' : Checkouts} {derive : ℤ → String → Option String} {t : TxId}
    (h : c.step derive (.commit t) = some c') : ∃ tx, c.txs t = some tx ∧
      c'.filedIndices = c.filedIndices ++ tx.stage.orders.map MerchantOrder.evmDerivationIndex := by
  obtain ⟨tx, htx, h⟩ := Option.bind_eq_some_iff.mp h
  obtain ⟨⟨c₁, tx₁⟩, hflush, rfl⟩ := Option.map_eq_some_iff.mp h
  refine ⟨tx, htx, ?_⟩
  rcases flush_eq_some hflush with ⟨-, rfl, rfl⟩ | ⟨row, -, rfl, rfl⟩
  · simp [filedIndices, Checkouts.commit, Function.comp_def]
  · simp [filedIndices, Checkouts.commit, Function.comp_def]

end Checkouts

/-- A switch of the billing mode leaves the index alone. -/
theorem nextEvmIndex_of_setBillingMode {mode : String} {m m' : Merchant}
    (h : setBillingMode mode m = .ok m') : m'.nextEvmIndex = m.nextEvmIndex := by
  unfold setBillingMode at h
  split at h
  · cases h
  · split_ifs at h <;> cases h <;> rfl

/-! ## The invariant -/

namespace Service

theorem filedIndices_view (s : Service) (id : MerchantId) (row : Merchant) :
    (s.view id row).filedIndices = indicesOf id s.system.orders.rows := by
  have hfilter : (fun x : MerchantId × ℤ => decide (x.1 = id)) ∘ MerchantOrder.slot =
      fun o => decide (o.merchantId = id) := rfl
  simp [view, Checkouts.filedIndices, indicesOf, List.filter_map, hfilter, MerchantOrder.slot,
    Function.comp_def]

/-- A commit appends the order that it stores. -/
theorem orders_store {sys system : System} {m : Merchant} {os : List MerchantOrder}
    (hone : os.length ≤ 1) (h : store sys m os = some system) :
    system.orders.rows = sys.orders.rows ++ os ∧ system.passes = sys.passes := by
  cases os with
  | nil =>
    cases h
    simp
  | cons o os =>
    obtain rfl : os = [] := List.length_eq_zero_iff.mp (by simpa using hone)
    obtain ⟨orders, hinsert, rfl⟩ := Option.map_eq_some_iff.mp h
    exact ⟨(Table.insert?_eq_some hinsert).2, rfl⟩

theorem length_added (s : Service) (id : MerchantId) (t : TxId) : (s.added id t).length ≤ 1 := by
  unfold added
  cases (s.opened id).txs t with
  | none => simp
  | some tx => cases hstage : tx.stage <;> simp [hstage, TxStage.orders]

/-- The orders of the database: the transactions of each merchant keep its indices, every order has
its merchant, and no row is half paid, or by a receipt that is not good. -/
structure OrdersHold (good : Goodness) (s : Service) : Prop where
  marks : s.MarksHold
  indices : ∀ id row, s.system.merchants.find? id = some row → (s.view id row).IndicesHold
  passes : ∀ p pass, s.system.passes p = some pass → pass.IndexKept
  owners : ∀ o ∈ s.system.orders.rows, ∃ row, s.system.merchants.find? o.merchantId = some row
  rows : RowsHold good s.system

namespace OrdersHold

variable {s s' : Service} {derive : ℤ → String → Option String} {id : MerchantId} {row : Merchant}
  {t : TxId} {good : Goodness}

/-- The indices while the transactions of one merchant go on. -/
theorem indices_keep (h : s.OrdersHold good) (hrow : s.system.merchants.find? id = some row)
    {c : Checkouts} (hc : c.IndicesHold) (hsame : c.row = row)
    (hfiled : c.filedIndices = indicesOf id s.system.orders.rows) {id' : MerchantId}
    {row' : Merchant} (hrow' : s.system.merchants.find? id' = some row') :
    ((s.keep id c).view id' row').IndicesHold := by
  by_cases hid : id' = id
  · subst hid
    obtain rfl : row = row' := Option.some.inj (hrow.symm.trans hrow')
    refine hc.congr ?_ (by rw [hsame]; rfl) ?_ ?_
    · rw [filedIndices_view, hfiled]
      rfl
    · simp [view, Service.keep]
    · simp [view, Service.keep]
  · refine (h.indices id' row' hrow').congr ?_ rfl ?_ ?_
    · simp only [filedIndices_view]
      rfl
    · simp [view, Service.keep, hid]
    · simp [view, Service.keep, hid]

/-- It holds before anything happens, if the stored orders are in order. -/
theorem start (h0 : s.Idle) (hpasses : ∀ p, s.system.passes p = none)
    (hslots : (s.system.orders.rows.map MerchantOrder.slot).Nodup)
    (hbelow : ∀ o ∈ s.system.orders.rows, ∃ m, s.system.merchants.find? o.merchantId = some m ∧
      o.evmDerivationIndex < m.nextEvmIndex)
    (hwhole : ∀ o ∈ s.system.orders.rows, o.Whole good) : s.OrdersHold good where
  marks := h0.marksHold
  indices := by
    intro id row hrow
    refine ⟨?_, fun f hf => ?_, fun t row' hlock => ?_, fun t tx htx => ?_⟩
    · show (s.view id row).filedIndices.Nodup
      rw [filedIndices_view, indicesOf]
      apply (hslots.filter _).map_on
      simp only [List.mem_filter, decide_eq_true_eq]
      rintro x ⟨-, hx⟩ y ⟨-, hy⟩ hxy
      exact Prod.ext (hx.trans hy.symm) hxy
    · obtain ⟨o, ho, rfl⟩ := List.mem_map.mp hf
      obtain ⟨hmem, hid⟩ := List.mem_filter.mp ho
      obtain ⟨m, hm, hlt⟩ := hbelow o hmem
      rw [decide_eq_true_eq] at hid
      rw [hid, hrow] at hm
      rwa [← Option.some.inj hm] at hlt
    · rw [show (s.view id row).lock = none from (h0 id).1] at hlock
      cases hlock
    · rw [show (s.view id row).txs t = none from (h0 id).2 t] at htx
      cases htx
  passes := by
    intro p pass hp
    rw [hpasses p] at hp
    cases hp
  owners := by
    intro o ho
    obtain ⟨m, hm, -⟩ := hbelow o ho
    exact ⟨m, hm⟩
  rows := by
    refine ⟨hwhole, fun p pass hp => ?_⟩
    rw [hpasses p] at hp
    cases hp

/-- Only the transactions of one merchant go on. -/
theorem keep (h : s.OrdersHold good) (hrow : s.system.merchants.find? id = some row) {c : Checkouts}
    (hmarks : c.MarksHold) (hc : c.IndicesHold) (hsame : c.row = row)
    (hfiled : c.filedIndices = indicesOf id s.system.orders.rows) :
    (s.keep id c).OrdersHold good where
  marks := h.marks.keep hrow hmarks hsame
  indices := fun _ _ hrow' => h.indices_keep hrow hc hsame hfiled hrow'
  passes := h.passes
  owners := h.owners
  rows := h.rows

/-- A transaction commits. -/
theorem commit (h : s.OrdersHold good) (hrow : s.system.merchants.find? id = some row)
    {c : Checkouts}
    (hc : (s.view id row).step derive (.commit t) = some c) {system : System}
    (hstore : store s.system c.row (s.added id t) = some system)
    (hmarks : ({ s.keep id c with system } : Service).MarksHold)
    (hrows : RowsHold good system) :
    ({ s.keep id c with system } : Service).OrdersHold good := by
  have hkey : row.id = id := (Table.find?_eq_some.mp hrow).2
  obtain ⟨-, hid, hconsumed⟩ := (h.marks id row hrow).step (by simp) hc
  obtain ⟨-, hfind⟩ := h.marks.other_of_store hrow hid hconsumed hstore
  obtain ⟨hindices, -⟩ := (h.indices id row hrow).step hc
  obtain ⟨hnew, hpasses⟩ := orders_store (s.length_added id t) hstore
  obtain ⟨tx, htx, hfiled⟩ := Checkouts.filedIndices_commit hc
  have hadded : s.added id t = tx.stage.orders := by
    rw [added, show (s.opened id).txs t = some tx from htx, Option.elim_some]
  have howner : ∀ o ∈ s.added id t, o.merchantId = id := by
    intro o ho
    rw [hadded] at ho
    exact (((h.marks id row hrow).txs t tx htx).2 o ho).1.trans hkey
  refine ⟨hmarks, fun id' row' hrow' => ?_, ?_, fun o ho => ?_, hrows⟩
  · rw [hfind] at hrow'
    have hnewIndices : indicesOf id' system.orders.rows = indicesOf id' s.system.orders.rows ++
        if id = id' then (s.added id t).map MerchantOrder.evmDerivationIndex else [] := by
      rw [hnew, indicesOf_append, indicesOf_eq howner]
    split_ifs at hrow' with he
    · obtain rfl := Option.some.inj hrow'
      obtain rfl : id = id' := (hid.trans hkey).symm.trans he
      refine hindices.congr ?_ rfl ?_ ?_
      · rw [filedIndices_view, hfiled, filedIndices_view, ← hadded, hnewIndices, if_pos rfl]
      · simp [view, Service.keep]
      · simp [view, Service.keep]
    · have hne : id' ≠ id := fun hne => he ((hid.trans hkey).trans hne.symm)
      refine (h.indices id' row' hrow').congr ?_ rfl ?_ ?_
      · rw [filedIndices_view, filedIndices_view, hnewIndices, if_neg (Ne.symm hne),
          List.append_nil]
      · simp [view, Service.keep, hne]
      · simp [view, Service.keep, hne]
  · intro p pass hp
    exact h.passes p pass (hpasses ▸ hp)
  · show ∃ row, system.merchants.find? o.merchantId = some row
    rw [show ({ s.keep id c with system } : Service).system.orders.rows = _ from hnew,
      List.mem_append] at ho
    rw [hfind]
    split_ifs with he
    · exact ⟨_, rfl⟩
    · rcases ho with ho | ho
      · exact h.owners o ho
      · exact absurd ((hid.trans hkey).trans (howner o ho).symm) he

/-- A pass goes on. -/
theorem poll (h : s.OrdersHold good) {e : Event} {system : System}
    (hother : ∀ m order, e ≠ .other m order) (hmove : Gateway.Move s.system e system)
    (hmarks : ({ s with system } : Service).MarksHold) (hrows : RowsHold good system) :
    ({ s with system } : Service).OrdersHold good := by
  have hslots := hmove.map_orders hother (f := MerchantOrder.slot) fun _ _ => rfl
  refine ⟨hmarks, fun id row' hrow' => ?_, hmove.indexKept h.passes, fun o ho => ?_, hrows⟩
  · obtain ⟨row, hrow, hwrite⟩ := hmove.merchant hother hrow'
    have hnext : row'.nextEvmIndex = row.nextEvmIndex := by
      rcases hwrite with rfl | ⟨p, pass, t, hp, -, -, ht, rfl⟩
      · rfl
      · -- the pass has not changed the index of its copy
        exact Merchant.nextEvmIndex_write (.inl (h.passes p pass hp id t ht).2)
    refine (h.indices id row hrow).congr ?_ hnext rfl rfl
    simp only [filedIndices_view, indicesOf, hslots]
  · have hslot : o.slot ∈ s.system.orders.rows.map MerchantOrder.slot := by
      rw [← hslots]
      exact List.mem_map_of_mem ho
    obtain ⟨o₀, ho₀, hsame⟩ := List.mem_map.mp hslot
    obtain ⟨row, hrow⟩ := h.owners o₀ ho₀
    obtain ⟨hid, -⟩ := Prod.mk.inj hsame
    exact hmove.merchant_stays hother (hid ▸ hrow)

/-- **Every event keeps the orders in order**, if the visits of the passes write good receipts. -/
theorem step (h : s.OrdersHold good) {e : ServiceEvent}
    (he : s.OnPoll (System.GoodReceipts good) e) (hs : s.step derive e = some s') :
    s'.OrdersHold good := by
  have hadmits : Admits (System.GoodReceipts good) := by
    intro system m order hnew
    refine ⟨trivial, ?_⟩
    rintro _ o ⟨⟩
    exact (hnew o rfl).2
  have hmove := Move.of_step hs
  obtain ⟨hmarks, ds, hrun⟩ := h.marks.step hadmits he hmove (by
    rintro e rfl
    exact step_poll hs)
  have hrows : RowsHold good s'.system :=
    hrun.invariant (fun _ _ _ hrows hok hstep => hrows.step hok (.of_step hstep)) h.rows
  cases hmove with
  | poll hother _ hmove => exact h.poll hother hmove hmarks hrows
  | @checkout id row e c hrow hc _ hcommit =>
    obtain ⟨hsame, hfiled⟩ := view_unchanged (.of_step hc) hcommit
    obtain ⟨hindices, -⟩ := (h.indices id row hrow).step hc
    refine ⟨hmarks, fun _ _ hrow' => h.indices_keep hrow hindices hsame ?_ hrow', h.passes,
      h.owners, h.rows⟩
    rw [Checkouts.filedIndices, hfiled]
    exact filedIndices_view s id row
  | @lost id row t hrow =>
    refine h.keep hrow ((h.marks id row hrow).release t) ((h.indices id row hrow).release t) rfl ?_
    exact filedIndices_view s id row
  | commit hrow hc hstore => exact h.commit hrow hc hstore hmarks hrows
  | refused => exact h
  | @setBillingMode id row t mode tx m hrow htx hstage hmode =>
    have hview := h.indices id row hrow
    refine ⟨hmarks, fun _ _ hrow' => h.indices_keep hrow (hview.setTx ?_) rfl
      (filedIndices_view s id row) hrow', h.passes, h.owners, h.rows⟩
    have hindex := hview.txs t tx htx
    simp only [Checkouts.TxIndex, hstage] at hindex ⊢
    exact (nextEvmIndex_of_setBillingMode hmode).trans hindex

/-- The orders of every merchant have distinct indices below its counter. -/
theorem slots (h : s.OrdersHold good) : (s.system.orders.rows.map MerchantOrder.slot).Nodup ∧
    ∀ o ∈ s.system.orders.rows, ∃ m, s.system.merchants.find? o.merchantId = some m ∧
      o.evmDerivationIndex < m.nextEvmIndex := by
  constructor
  · apply nodup_of_groups
    intro id
    show (indicesOf id s.system.orders.rows).Nodup
    cases hrow : s.system.merchants.find? id with
    | some row =>
      rw [← filedIndices_view s id row]
      exact (h.indices id row hrow).nodup
    | none =>
      have hempty : (s.system.orders.rows.map MerchantOrder.slot).filter (fun x => x.1 = id) =
          [] := by
        rw [List.filter_eq_nil_iff]
        intro x hx
        obtain ⟨o, ho, rfl⟩ := List.mem_map.mp hx
        obtain ⟨row, hfind⟩ := h.owners o ho
        rw [decide_eq_true_eq]
        rintro rfl
        rw [show s.system.merchants.find? o.slot.1 = some row from hfind] at hrow
        cases hrow
      simp [indicesOf, hempty]
  · intro o ho
    obtain ⟨row, hrow⟩ := h.owners o ho
    refine ⟨row, hrow, ?_⟩
    apply (h.indices o.merchantId row hrow).below ⟨o, none⟩
    exact List.mem_map_of_mem (List.mem_filter.mpr ⟨ho, by simp⟩)

end OrdersHold

/-- The visits of passes that check as the code does write fair receipts. -/
theorem goodReceipts_of_checks {s s' : Service} {derive : ℤ → String → Option String}
    {e : ServiceEvent} (he : s.OnPoll System.ChecksEvm e) (hs : s.step derive e = some s') :
    s.OnPoll (System.GoodReceipts fairReceipt) e := by
  cases e with
  | poll e =>
    refine System.goodReceipts_of_checks he ?_
    cases e with
    | other m order => simp [Service.step] at hs
    | _ => trivial
  | _ => trivial

end Service

open Service in
/-- **The orders of the service.** Whatever checkouts of whatever merchants, switches of the billing
mode and passes interleave, with stale copies, lost commits and rollbacks: no two orders have one
merchant and one index, the index of an order is below the counter of its merchant, and no row is
half paid. -/
theorem service_orders {s₀ s : Service} {es : List ServiceEvent}
    {derive : ℤ → String → Option String} (h0 : s₀.Idle) (hpasses : ∀ p, s₀.system.passes p = none)
    (hslots : (s₀.system.orders.rows.map MerchantOrder.slot).Nodup)
    (hbelow : ∀ o ∈ s₀.system.orders.rows, ∃ m, s₀.system.merchants.find? o.merchantId = some m ∧
      o.evmDerivationIndex < m.nextEvmIndex)
    (hwhole : ∀ o ∈ s₀.system.orders.rows, o.Whole fairReceipt)
    (run : Run (Service.step derive) (OnPoll System.ChecksEvm) s₀ es s) :
    (s.system.orders.rows.map MerchantOrder.slot).Nodup ∧
      (∀ o ∈ s.system.orders.rows, ∃ m, s.system.merchants.find? o.merchantId = some m ∧
        o.evmDerivationIndex < m.nextEvmIndex) ∧
      ∀ o ∈ s.system.orders.rows, o.Whole fairReceipt := by
  have hs : s.OrdersHold fairReceipt :=
    run.invariant (fun _ _ _ hs he hstep => hs.step (goodReceipts_of_checks he hstep) hstep)
      (.start h0 hpasses hslots hbelow hwhole)
  exact ⟨hs.slots.1, hs.slots.2, hs.rows.rows⟩

/-- The second checkout reserves the next index, while a pass pays the order of the first one. -/
theorem service_orders_busy : ∃ s o o' m,
    exec (Service.step (twoAddresses "0x44" "0x55")) idleService busyRun = some s ∧
      s.system.orders.find? 1 = some o ∧ s.system.orders.find? 2 = some o' ∧
      s.system.merchants.find? 1 = some m ∧ o.status = .paid ∧ o'.evmDerivationIndex = 1 ∧
      m.nextEvmIndex = 2 ∧ (s.system.orders.rows.map MerchantOrder.slot).Nodup := by
  obtain ⟨s, o, o', m, run, ho, ho', hm, hpaid, -, hindex, hnext⟩ := run_busy
  have horders := service_orders (fun _ => ⟨rfl, fun _ => rfl⟩) (fun _ => rfl)
    (by simp [idleService, sampleSystem]) (by simp [idleService, sampleSystem])
    (by simp [idleService, sampleSystem]) run
  exact ⟨s, o, o', m, run.exec_eq, ho, ho', hm, hpaid, hindex, hnext, horders.1⟩

end Gateway
