import Gateway.Poll.Moves

/-!
# The copies of orders

`SessionsHold` is the invariant of the sessions' copies: a copy of an order that a pass has changed
was pending when it was read and its stored row is still the one that was read, so that flushing
it writes exactly what the pass decided; and no two passes have changed a copy of the same order.
It is preserved by every event that is fresh: a visit that decides an order does so while the
stored order is still pending and no other running pass has decided it (`FreshOrders`). A visit
that claims on a watermark moreover does so on the stored one (`Fresh`), which the ledger of the
next module needs.

Under this condition a stored order that is no longer pending never changes again
(`settled_of_run`).
-/

namespace Gateway

open Foundations

/-! ## Fresh visits -/

/-- Has the pass changed its copy of the order since its last commit? -/
def Pass.Decided (pass : Pass) (id : OrderId) : Prop :=
  ∃ t, pass.orders id = some t ∧ t.cur ≠ t.base

namespace System

/-- The stored order is pending, and no other pass has decided it. -/
def Undecided (s : System) (p : PassId) (id : OrderId) : Prop :=
  (∃ o, s.orders.find? id = some o ∧ o.status = .pending) ∧
    ∀ q pass, q ≠ p → s.passes q = some pass → ¬ pass.Decided id

/-- The watermark that the pass has read is the stored one, and no other pass has claimed on
it. -/
def Unclaimed (s : System) (p : PassId) (pass : Pass) (k : MerchantId × Asset) : Prop :=
  (∀ m t, s.merchants.find? k.1 = some m → pass.merchants k.1 = some t →
    t.base.consumed k.2 = m.consumed k.2) ∧
    ∀ q pass', q ≠ p → s.passes q = some pass' → ∀ c ∈ pass'.claims, c.account ≠ k

/-- A visit that decides an order decides an undecided one. -/
def DecidesUndecided (s : System) (p : PassId) (_ : Pass) (id : OrderId) : Visit → Prop
  | .unpaid => True
  | _ => s.Undecided p id

/-- A visit that claims on a watermark claims on one that nobody else has claimed on. The claim is
positive, unless the watermark in hand is in the range of its column. -/
def ClaimsUnclaimed (s : System) (p : PassId) (pass : Pass) (_ : OrderId) : Visit → Prop
  | .paid _ _ confirmation => ∀ c ∈ confirmation.claim, s.Unclaimed p pass c.account ∧
      (0 < c.amount ∨
        ∀ t, pass.merchants c.account.1 = some t → |t.cur.consumed c.account.2| < 10 ^ 14)
  | _ => True

/-- A condition on what the visits do. -/
def OnVisit (s : System) (P : PassId → Pass → OrderId → Visit → Prop) : Event → Prop
  | .visit p a => ∀ pass id rest v, s.passes p = some pass →
      pass.nextVisit a = some (id, rest, some v) → P p pass id v
  | _ => True

/-- The visits decide undecided orders. -/
def FreshOrders (s : System) (e : Event) : Prop := s.OnVisit s.DecidesUndecided e

/-- The visits work on current data. -/
def Fresh (s : System) (e : Event) : Prop := s.FreshOrders e ∧ s.OnVisit s.ClaimsUnclaimed e

end System

/-! ## The invariant -/

/-- What holds of a pass's copy `t` of the stored order `o`. -/
structure OrderCopy (pass : Pass) (id : OrderId) (t : Tracked MerchantOrder)
    (o : MerchantOrder) : Prop where
  cur_id : t.cur.id = id
  merchantId_eq : o.merchantId = t.cur.merchantId
  amountUsd_eq : o.amountUsd = t.cur.amountUsd
  /-- A pending order is stored as it was created. -/
  row : o.status = .pending → t.base.status = .pending → o = t.base
  /-- A changed copy has been decided, over an order that is still pending. -/
  changed : t.cur ≠ t.base → o = t.base ∧ o.status = .pending ∧ t.cur.status ≠ .pending
  /-- An unsaved confirmation is in the copy. -/
  unsaved : ∀ c ∈ pass.unsaved, c.order = id → t.cur ≠ t.base ∧ t.cur.status = .paid
  /-- The unsaved claims of the order are what the changed copy records. -/
  claims : (pass.claims.filter fun c => c.owner = id).map claimEntry =
    if t.cur = t.base then [] else t.cur.claimed
  amounts : ∀ x ∈ t.cur.claimed, x.2 = t.cur.amountUsd.value

/-- What holds of a running pass over the stored tables. -/
structure SessionOk (orders : Table MerchantOrder) (merchants : Table Merchant) (pass : Pass) :
    Prop where
  todo_nodup : pass.todo.Nodup
  todo_clean : ∀ id ∈ pass.todo, ∃ t, pass.orders id = some t ∧ t.cur = t.base ∧
    t.base.status = .pending
  orders : ∀ id t, pass.orders id = some t →
    ∃ o, orders.find? id = some o ∧ OrderCopy pass id t o
  merchants : ∀ id t, pass.merchants id = some t →
    t.cur.id = id ∧ ∃ m, merchants.find? id = some m
  unsaved : ∀ c ∈ pass.unsaved, (∃ t, pass.orders c.order = some t) ∧
    ∀ cl ∈ c.claim, cl.owner = c.order
  opened : pass.stage = .opened → pass.unsaved = []

/-- The invariant of the sessions. -/
structure SessionsHold (s : System) : Prop where
  unclaimed : ∀ o ∈ s.orders.rows, o.status = .pending → o.claimed = []
  /-- An order claims its own amount. -/
  amounts : ∀ o ∈ s.orders.rows, ∀ x ∈ o.claimed, x.2 = o.amountUsd.value
  ok : ∀ p pass, s.passes p = some pass → SessionOk s.orders s.merchants pass
  exclusive : ∀ p q pass pass' id, p ≠ q → s.passes p = some pass → s.passes q = some pass' →
    pass.Decided id → ¬ pass'.Decided id

/-! ## Copies under a flush -/

namespace System

theorem find?_save (s : System) (pass : Pass) (id : OrderId) :
    (s.save pass).orders.find? id =
      (s.orders.find? id).map fun o => (pass.orders id).elim o (MerchantOrder.write · o) :=
  Table.find?_flush _ _ MerchantOrder.write (fun _ _ => rfl) id

theorem find?_save_merchants (s : System) (pass : Pass) (id : MerchantId) :
    (s.save pass).merchants.find? id =
      (s.merchants.find? id).map fun m => (pass.merchants id).elim m (Merchant.write · m) :=
  Table.find?_flush _ _ Merchant.write (fun _ _ => rfl) id

end System

namespace OrderCopy

variable {pass : Pass} {id : OrderId} {t : Tracked MerchantOrder} {o o' : MerchantOrder}

/-- Flushing a decided copy writes the decision. -/
theorem write_changed (h : OrderCopy pass id t o) (hne : t.cur ≠ t.base) :
    (MerchantOrder.write t o).status = t.cur.status ∧
      (MerchantOrder.write t o).claimed = t.cur.claimed := by
  obtain ⟨rfl, -, -⟩ := h.changed hne
  have hmer := h.merchantId_eq
  refine ⟨by simp [MerchantOrder.write], ?_⟩
  unfold MerchantOrder.claimed
  simp only [MerchantOrder.write, writeBack_fresh]
  split
  · rename_i asset amount hchain hasset hamount
    have hcur : t.cur.claimed =
        t.cur.paidAmount.elim [] fun q => [((t.cur.merchantId, asset), q)] := by
      unfold MerchantOrder.claimed
      rw [hchain, hasset]
      cases t.cur.paidAmount <;> rfl
    -- the amount of a claim is stored unrounded
    have hstore : t.cur.paidAmount.map (storeNumeric 10) = t.cur.paidAmount := by
      cases hq : t.cur.paidAmount with
      | none => rfl
      | some q =>
        rw [hq] at hcur
        have hamt : q = t.cur.amountUsd.value :=
          h.amounts _ (by rw [hcur]; exact List.mem_singleton_self _)
        rw [Option.map_some, hamt, storeNumeric_of_scaled (by norm_num) (Scaled.numeric _)]
    rw [writeBackAs_fresh hstore] at hamount
    rw [hmer, hchain, hasset, hamount]
  · rename_i hnot
    split
    · rename_i asset amount hchain hasset hamount
      exfalso
      have hq : Scaled 2 amount := by
        have hamt : amount = t.cur.amountUsd.value :=
          h.amounts ((t.cur.merchantId, asset), amount)
            (by simp [MerchantOrder.claimed, hchain, hasset, hamount])
        exact hamt ▸ Scaled.numeric _
      apply hnot asset amount hchain hasset
      rw [writeBackAs_fresh (by rw [hamount, Option.map_some,
        storeNumeric_of_scaled (by norm_num) hq]), hamount]
    · rfl

/-- A copy that the pass has not changed may be of an order that has been settled since. -/
theorem of_settled (h : OrderCopy pass id t o) (hclean : t.cur = t.base)
    (hmer : o'.merchantId = o.merchantId) (hamt : o'.amountUsd = o.amountUsd)
    (hst : o'.status ≠ .pending) : OrderCopy pass id t o' where
  cur_id := h.cur_id
  merchantId_eq := hmer.trans h.merchantId_eq
  amountUsd_eq := hamt.trans h.amountUsd_eq
  row := fun hp => absurd hp hst
  changed := fun hne => absurd hclean hne
  unsaved := h.unsaved
  claims := h.claims
  amounts := h.amounts

end OrderCopy

/-! ## The invariant of one session -/

namespace SessionOk

variable {orders orders' : Table MerchantOrder} {merchants merchants' : Table Merchant}
  {pass : Pass}

/-- A session over tables in which the rows of its copies are unchanged, or settled where the
copy is unchanged. -/
theorem mono (h : SessionOk orders merchants pass)
    (ho : ∀ id o, orders.find? id = some o → ∃ o', orders'.find? id = some o' ∧
      (o' = o ∨ ¬ pass.Decided id ∧ o'.merchantId = o.merchantId ∧ o'.amountUsd = o.amountUsd ∧
        o'.status ≠ .pending))
    (hm : ∀ id m, merchants.find? id = some m → ∃ m', merchants'.find? id = some m') :
    SessionOk orders' merchants' pass where
  todo_nodup := h.todo_nodup
  todo_clean := h.todo_clean
  orders := by
    intro id t ht
    obtain ⟨o, hfind, hcopy⟩ := h.orders id t ht
    obtain ⟨o', hfind', rfl | ⟨hnot, hmer, hamt, hst⟩⟩ := ho id o hfind
    · exact ⟨o', hfind', hcopy⟩
    · have hclean : t.cur = t.base := by
        by_contra hne
        exact hnot ⟨t, ht, hne⟩
      exact ⟨o', hfind', hcopy.of_settled hclean hmer hamt hst⟩
  merchants := by
    intro id t ht
    obtain ⟨hid, m, hfind⟩ := h.merchants id t ht
    exact ⟨hid, hm id m hfind⟩
  unsaved := h.unsaved
  opened := h.opened

/-- An order that has not been visited has no unsaved confirmation. -/
theorem not_unsaved_of_todo (h : SessionOk orders merchants pass) {id : OrderId}
    (hid : id ∈ pass.todo) : ∀ c ∈ pass.unsaved, c.order ≠ id := by
  intro c hc he
  obtain ⟨t, ht, hclean, -⟩ := h.todo_clean id hid
  obtain ⟨o, -, hcopy⟩ := h.orders id t ht
  exact (hcopy.unsaved c hc he).1 hclean

theorem not_decided_of_todo (h : SessionOk orders merchants pass) {id : OrderId}
    (hid : id ∈ pass.todo) : ¬ pass.Decided id := by
  rintro ⟨t, ht, hne⟩
  obtain ⟨t', ht', hclean, -⟩ := h.todo_clean id hid
  rw [ht] at ht'
  cases ht'
  exact hne hclean

/-- The rows after the session has been saved. -/
theorem find?_saved {s : System} (h : SessionOk s.orders s.merchants pass) {id : OrderId}
    {o : MerchantOrder} (hfind : s.orders.find? id = some o) :
    ∃ o', (s.save pass).orders.find? id = some o' ∧ o'.id = o.id ∧
      o'.merchantId = o.merchantId ∧ o'.amountUsd = o.amountUsd ∧
      ((¬ pass.Decided id ∧ o' = o) ∨
        ∃ t, pass.orders id = some t ∧ t.cur ≠ t.base ∧ o.status = .pending ∧
          o'.status = t.cur.status ∧ t.cur.status ≠ .pending ∧ o'.claimed = t.cur.claimed) := by
  have hsave := s.find?_save pass id
  rw [hfind] at hsave
  cases ht : pass.orders id with
  | none =>
    rw [ht] at hsave
    refine ⟨o, hsave, rfl, rfl, rfl, .inl ⟨?_, rfl⟩⟩
    rintro ⟨t, ht', -⟩
    rw [ht] at ht'
    cases ht'
  | some t =>
    rw [ht] at hsave
    refine ⟨_, hsave, rfl, rfl, rfl, ?_⟩
    obtain ⟨o₁, hfind₁, hcopy⟩ := h.orders id t ht
    rw [hfind] at hfind₁
    cases hfind₁
    by_cases hclean : t.cur = t.base
    · refine .inl ⟨?_, MerchantOrder.write_of_clean hclean o⟩
      rintro ⟨t', ht', hne⟩
      rw [ht] at ht'
      cases ht'
      exact hne hclean
    · obtain ⟨hst, hcl⟩ := hcopy.write_changed hclean
      obtain ⟨-, hpend, hdec⟩ := hcopy.changed hclean
      exact .inr ⟨t, rfl, hclean, hpend, hst, hdec, hcl⟩

theorem find?_saved_merchants (s : System) (pass : Pass) {id : MerchantId} {m : Merchant}
    (hfind : s.merchants.find? id = some m) :
    ∃ m', (s.save pass).merchants.find? id = some m' := by
  rw [s.find?_save_merchants, hfind]
  exact ⟨_, rfl⟩

/-- The session that has just been opened. -/
theorem openPass {s : System} (hun : ∀ o ∈ s.orders.rows, o.status = .pending → o.claimed = [])
    (now : Timestamp) {pending : List MerchantOrder} (hp : s.isPendingList pending) :
    SessionOk s.orders s.merchants (System.openPass now pending) := by
  have hmem : ∀ o ∈ pending, o ∈ s.orders.rows ∧ o.status = .pending := by
    intro o ho
    exact System.mem_of_isPendingList hp ho
  refine ⟨System.nodup_of_isPendingList hp, ?_, ?_, by simp [System.openPass],
    by simp [System.openPass],
    by simp [System.openPass]⟩
  · intro id hid
    obtain ⟨o, ho, rfl⟩ := List.mem_map.mp hid
    cases hf : pending.find? fun o' => o'.id = o.id with
    | none =>
      have := List.find?_eq_none.mp hf o ho
      simp at this
    | some o' =>
      exact ⟨Tracked.load o', by simp [System.openPass, hf], rfl,
        (hmem o' (List.mem_of_find?_eq_some hf)).2⟩
  · intro id t ht
    obtain ⟨o, hf, rfl⟩ := Option.map_eq_some_iff.mp ht
    obtain ⟨hrow, hst⟩ := hmem o (List.mem_of_find?_eq_some hf)
    have hid : o.id = id := by simpa using List.find?_some hf
    refine ⟨o, Table.find?_eq_some.mpr ⟨hrow, hid⟩, ?_⟩
    exact
      { cur_id := hid
        merchantId_eq := rfl
        amountUsd_eq := rfl
        row := fun _ _ => rfl
        changed := fun hne => absurd rfl hne
        unsaved := by simp [System.openPass]
        claims := by simp [System.openPass, Pass.claims]
        amounts := by simp [hun o hrow hst] }

/-- The session after it has been saved. -/
theorem saved {s : System} (h : SessionOk s.orders s.merchants pass) (stage : Stage) :
    SessionOk (s.save pass).orders (s.save pass).merchants { pass.synced with stage := stage } where
  todo_nodup := h.todo_nodup
  todo_clean := by
    intro id hid
    obtain ⟨t, ht, hclean, hst⟩ := h.todo_clean id hid
    exact ⟨t.sync, by simp [Pass.synced, ht], rfl, by rw [Tracked.sync_base, hclean, hst]⟩
  orders := by
    intro id t' ht'
    obtain ⟨t, ht, rfl⟩ := Option.map_eq_some_iff.mp ht'
    obtain ⟨o, hfind, hcopy⟩ := h.orders id t ht
    obtain ⟨o', hfind', -, hmer, hamt, hrow⟩ := h.find?_saved hfind
    refine ⟨o', hfind', ?_⟩
    exact
      { cur_id := hcopy.cur_id
        merchantId_eq := hmer.trans hcopy.merchantId_eq
        amountUsd_eq := hamt.trans hcopy.amountUsd_eq
        row := by
          intro hp hbase
          rcases hrow with ⟨hnot, rfl⟩ | ⟨t₁, ht₁, -, -, hst, hdec, -⟩
          · have hclean : t.cur = t.base := by
              by_contra hne
              exact hnot ⟨t, ht, hne⟩
            rw [Tracked.sync_base, hclean] at hbase ⊢
            exact hcopy.row hp hbase
          · exact absurd (hst ▸ hp) hdec
        changed := fun hne => absurd rfl hne
        unsaved := by simp [Pass.synced]
        claims := by simp [Pass.synced, Pass.claims]
        amounts := hcopy.amounts }
  merchants := by
    intro id t' ht'
    obtain ⟨t, ht, rfl⟩ := Option.map_eq_some_iff.mp ht'
    obtain ⟨hid, m, hfind⟩ := h.merchants id t ht
    exact ⟨hid, find?_saved_merchants s pass hfind⟩
  unsaved := by simp [Pass.synced]
  opened := fun _ => rfl

/-- The session after the merchants have been read. -/
theorem loaded {s : System} (h : SessionOk s.orders s.merchants pass) (stage : Stage)
    (hst : stage ≠ .opened) : SessionOk s.orders s.merchants
      { pass with stage := stage, merchants := s.loadedMerchants pass } where
  todo_nodup := h.todo_nodup
  todo_clean := h.todo_clean
  orders := fun id t ht => by
    obtain ⟨o, hfind, hcopy⟩ := h.orders id t ht
    exact ⟨o, hfind, { hcopy with }⟩
  merchants := by
    intro id t ht
    simp only [System.loadedMerchants] at ht
    split_ifs at ht
    obtain ⟨m, hm, rfl⟩ := Option.map_eq_some_iff.mp ht
    exact ⟨(Table.find?_eq_some.mp hm).2, m, hm⟩
  unsaved := h.unsaved
  opened := fun he => absurd he hst

/-- The session after the push service has returned without a commit. -/
theorem marked (h : SessionOk orders merchants pass) (stage : Stage) (hst : stage ≠ .opened)
    (broken : Bool) :
    SessionOk orders merchants { pass with stage := stage, broken := broken } where
  todo_nodup := h.todo_nodup
  todo_clean := h.todo_clean
  orders := fun id t ht => by
    obtain ⟨o, hfind, hcopy⟩ := h.orders id t ht
    exact ⟨o, hfind, { hcopy with }⟩
  merchants := h.merchants
  unsaved := h.unsaved
  opened := fun he => absurd he hst

end SessionOk

/-! ## A visit -/

section Visit

variable {s : System} {p : PassId} {pass : Pass} {id : OrderId} {rest : List OrderId}
  {t : Tracked MerchantOrder} {v : Visit} {a : Answers}

/-- A visit decided the order: `o` is its new copy, `new` the confirmation if there is one. -/
structure Decides (pass : Pass) (id : OrderId) (rest : List OrderId) (t : Tracked MerchantOrder)
    (v : Visit) (o : MerchantOrder) (new : List Confirmation) : Prop where
  id_eq : o.id = id
  merchantId_eq : o.merchantId = t.cur.merchantId
  amountUsd_eq : o.amountUsd = t.cur.amountUsd
  decided : o.status ≠ .pending
  orders_eq : (pass.afterVisit id rest v).orders = Function.update pass.orders id (some (t.set o))
  unsaved_eq : (pass.afterVisit id rest v).unsaved = pass.unsaved ++ new
  new_ok : ∀ c ∈ new, c.order = id ∧ o.status = .paid ∧
    ∀ cl ∈ c.claim, cl.owner = id ∧ cl.amount = o.amountUsd.value
  claimed_eq : t.cur.claimed = [] → o.claimed = (new.filterMap Confirmation.claim).map claimEntry

/-- A visit leaves the copies alone or decides the order. -/
theorem unpaid_or_decides (rest : List OrderId) (hid : t.cur.id = id) (ht : pass.orders id = some t)
    (hv : visitOrder pass.now a t.cur ((pass.merchants t.cur.merchantId).map Tracked.cur) =
      some v) :
    v = .unpaid ∨ ∃ o new, Decides pass id rest t v o new ∧
      ((v = .expired o ∧ new = []) ∨ ∃ m' c, v = .paid o m' c ∧ new = [c] ∧
        Confirms t.cur ((pass.merchants t.cur.merchantId).map Tracked.cur) o m' c) := by
  rcases visitOrder_cases hv with rfl | rfl | ⟨o', m', c, rfl, hc⟩
  · right
    refine ⟨{ t.cur with status := .expired }, [], ⟨hid, rfl, rfl, by simp, ?_, ?_, by simp, ?_⟩,
      .inl ⟨rfl, rfl⟩⟩
    · simp [Pass.afterVisit, ht]
    · simp [Pass.afterVisit]
    · intro h
      exact h
  · exact .inl rfl
  · right
    refine ⟨o', [c], ⟨hc.id_eq.trans hid, hc.merchantId_eq, hc.amountUsd_eq, by simp [hc.paid],
      ?_, rfl, ?_, ?_⟩, .inr ⟨m', c, rfl, rfl, hc⟩⟩
    · simp [Pass.afterVisit, ht]
    · intro c' hc'
      obtain rfl := List.mem_singleton.mp hc'
      refine ⟨hc.order_eq.trans hid, hc.paid, fun cl hcl => ?_⟩
      obtain ⟨_, _, _, _, _, howner, _, hamount, _⟩ := hc.claim cl hcl
      exact ⟨howner.trans hid, by rw [hamount, hc.amountUsd_eq]⟩
    · intro _
      rw [hc.claimed_eq]
      cases hcl : c.claim <;> simp [hcl]

/-- The copies of the other orders do not notice a confirmation. -/
theorem OrderCopy.of_unsaved {pass' : Pass} {i : OrderId} {o : MerchantOrder}
    {new : List Confirmation} (h : OrderCopy pass i t o) (hi : i ≠ id)
    (hun : pass'.unsaved = pass.unsaved ++ new)
    (hnew : ∀ c ∈ new, c.order = id ∧ ∀ cl ∈ c.claim, cl.owner = id) : OrderCopy pass' i t o where
  cur_id := h.cur_id
  merchantId_eq := h.merchantId_eq
  amountUsd_eq := h.amountUsd_eq
  row := h.row
  changed := h.changed
  unsaved := by
    intro c hc he
    rw [hun, List.mem_append] at hc
    rcases hc with hc | hc
    · exact h.unsaved c hc he
    · exact absurd (he.symm.trans (hnew c hc).1) hi
  claims := by
    rw [← h.claims, Pass.claims, Pass.claims, hun, List.filterMap_append, List.filter_append]
    have : (new.filterMap Confirmation.claim).filter (fun c => c.owner = i) = [] := by
      rw [List.filter_eq_nil_iff]
      intro cl hcl
      obtain ⟨c, hc, hcl⟩ := List.mem_filterMap.mp hcl
      simpa [(hnew c hc).2 cl hcl] using hi.symm
    rw [this, List.append_nil]
  amounts := h.amounts

/-- The copy of an order that a visit has decided. -/
theorem OrderCopy.of_decides {o r : MerchantOrder} {new : List Confirmation}
    (hd : Decides pass id rest t v o new) (h : OrderCopy pass id t r) (hclean : t.cur = t.base)
    (hr : r = t.base) (hst : r.status = .pending) (hcl : r.claimed = []) :
    OrderCopy (pass.afterVisit id rest v) id (t.set o) r := by
  subst hr
  have hne : o ≠ t.base := by
    rintro rfl
    exact hd.decided hst
  have hnone : pass.claims.filter (fun c => c.owner = id) = [] := by
    have := h.claims
    rw [if_pos hclean] at this
    exact List.map_eq_nil_iff.mp this
  have hclaimed := hd.claimed_eq (by rw [hclean, hcl])
  have hnew : (new.filterMap Confirmation.claim).filter (fun c => c.owner = id) =
      new.filterMap Confirmation.claim := by
    rw [List.filter_eq_self]
    intro cl hcl
    obtain ⟨c, hc, hcl⟩ := List.mem_filterMap.mp hcl
    simpa using ((hd.new_ok c hc).2.2 cl hcl).1
  refine ⟨hd.id_eq, ?_, ?_, fun _ _ => rfl, fun _ => ⟨rfl, hst, hd.decided⟩, ?_, ?_, ?_⟩
  · rw [h.merchantId_eq, Tracked.set_cur, hd.merchantId_eq]
  · rw [h.amountUsd_eq, Tracked.set_cur, hd.amountUsd_eq]
  · intro c hc he
    rw [hd.unsaved_eq, List.mem_append] at hc
    rcases hc with hc | hc
    · exact absurd hclean (h.unsaved c hc he).1
    · exact ⟨hne, (hd.new_ok c hc).2.1⟩
  · rw [Tracked.set_cur, Tracked.set_base, if_neg hne, hclaimed, Pass.claims, hd.unsaved_eq,
      List.filterMap_append, List.filter_append, hnew]
    rw [Pass.claims] at hnone
    rw [hnone, List.nil_append]
  · intro x hx
    rw [Tracked.set_cur, hclaimed] at hx
    obtain ⟨cl, hcl, rfl⟩ := List.mem_map.mp hx
    obtain ⟨c, hc, hcl⟩ := List.mem_filterMap.mp hcl
    exact ((hd.new_ok c hc).2.2 cl hcl).2

theorem Pass.merchants_afterVisit {k : MerchantId} {t' : Tracked Merchant}
    (h : (pass.afterVisit id rest v).merchants k = some t') :
    pass.merchants k = some t' ∨ ∃ t₀ o m c, v = .paid o (some m) c ∧ m.id = k ∧
      pass.merchants k = some t₀ ∧ t' = t₀.set m := by
  cases v with
  | expired o => exact .inl h
  | unpaid => exact .inl h
  | paid o m' c =>
    cases m' with
    | none => exact .inl h
    | some m =>
      simp only [afterVisit] at h
      by_cases hk : k = m.id
      · subst hk
        rw [Function.update_self] at h
        obtain ⟨t₀, ht₀, rfl⟩ := Option.map_eq_some_iff.mp h
        exact .inr ⟨t₀, o, m, c, rfl, rfl, ht₀, rfl⟩
      · rw [Function.update_of_ne hk] at h
        exact .inl h

/-- The session after a visit of the next order, which is still pending if it is decided. -/
theorem SessionOk.visited (h : SessionOk s.orders s.merchants pass)
    (hun : ∀ o ∈ s.orders.rows, o.status = .pending → o.claimed = [])
    (hstage : pass.stage = .looping) (htodo : pass.todo = id :: rest)
    (ht : pass.orders id = some t)
    (hv : visitOrder pass.now a t.cur ((pass.merchants t.cur.merchantId).map Tracked.cur) = some v)
    (hrow : v ≠ .unpaid → ∃ o, s.orders.find? id = some o ∧ o.status = .pending) :
    SessionOk s.orders s.merchants (pass.afterVisit id rest v) := by
  obtain ⟨r, hfind, hcopy⟩ := h.orders id t ht
  have hnodup := h.todo_nodup
  rw [htodo, List.nodup_cons] at hnodup
  obtain ⟨hnot, hnodup⟩ := hnodup
  have hmer : ∀ k t', (pass.afterVisit id rest v).merchants k = some t' →
      t'.cur.id = k ∧ ∃ m, s.merchants.find? k = some m := by
    intro k t' ht'
    rcases Pass.merchants_afterVisit ht' with ht' | ⟨t₀, _, m, _, _, hk, ht₀, rfl⟩
    · exact h.merchants k t' ht'
    · exact ⟨hk, (h.merchants k t₀ ht₀).2⟩
  have hclean := h.todo_clean id (by simp [htodo])
  rw [ht] at hclean
  obtain ⟨_, ht', hclean, hpend⟩ := hclean
  cases ht'
  rcases unpaid_or_decides rest hcopy.cur_id ht hv with rfl | ⟨o, new, hd, hkind⟩
  · exact
      { todo_nodup := hnodup
        todo_clean := fun i hi => h.todo_clean i (htodo ▸ List.mem_cons_of_mem id hi)
        orders := fun i t' ht' => by
          obtain ⟨o, hf, hc⟩ := h.orders i t' ht'
          exact ⟨o, hf, { hc with }⟩
        merchants := hmer
        unsaved := h.unsaved
        opened := h.opened }
  · have hne : v ≠ .unpaid := by
      rcases hkind with ⟨rfl, -⟩ | ⟨_, _, rfl, -⟩ <;> simp
    obtain ⟨r', hfind', hst⟩ := hrow hne
    rw [hfind] at hfind'
    cases hfind'
    have htodo' : (pass.afterVisit id rest v).todo = rest := by cases v <;> rfl
    have hstage' : (pass.afterVisit id rest v).stage ≠ .opened := by
      cases v with
      | paid o m c =>
        simp only [Pass.afterVisit]
        split_ifs <;> simp
      | _ => simp [Pass.afterVisit, hstage]
    refine ⟨by rw [htodo']; exact hnodup, ?_, ?_, hmer, ?_, fun he => absurd he hstage'⟩
    · intro i hi
      rw [htodo'] at hi
      have hi' : i ≠ id := fun he => hnot (he ▸ hi)
      rw [hd.orders_eq, Function.update_of_ne hi']
      exact h.todo_clean i (by simp [htodo, hi])
    · intro i t' ht'
      rw [hd.orders_eq] at ht'
      by_cases hi : i = id
      · subst hi
        rw [Function.update_self] at ht'
        cases ht'
        exact ⟨r, hfind, OrderCopy.of_decides hd hcopy hclean (hcopy.row hst hpend) hst
          (hun r (Table.find?_eq_some.mp hfind).1 hst)⟩
      · rw [Function.update_of_ne hi] at ht'
        obtain ⟨o', hf, hc⟩ := h.orders i t' ht'
        exact ⟨o', hf, hc.of_unsaved hi hd.unsaved_eq fun c hc =>
          ⟨(hd.new_ok c hc).1, fun cl hcl => ((hd.new_ok c hc).2.2 cl hcl).1⟩⟩
    · intro c hc
      rw [hd.unsaved_eq, List.mem_append] at hc
      rw [hd.orders_eq]
      have hcopy' : ∀ i, (∃ t, pass.orders i = some t) →
          ∃ t', Function.update pass.orders id (some (t.set o)) i = some t' := by
        intro i hi
        by_cases he : i = id
        · subst he
          exact ⟨_, Function.update_self ..⟩
        · rw [Function.update_of_ne he]
          exact hi
      rcases hc with hc | hc
      · exact ⟨hcopy' _ (h.unsaved c hc).1, (h.unsaved c hc).2⟩
      · obtain ⟨horder, -, hcl⟩ := hd.new_ok c hc
        refine ⟨hcopy' _ ⟨t, horder ▸ ht⟩, fun cl hcl' => ?_⟩
        rw [horder]
        exact (hcl cl hcl').1

end Visit

/-! ## All sessions -/

namespace SessionsHold

variable {s : System} {p : PassId} {pass pass' : Pass}

/-- A pass is started, or goes on, in a session that has decided no order of another one. -/
theorem setPass (h : SessionsHold s) (hok : SessionOk s.orders s.merchants pass')
    (hex : ∀ q other id, q ≠ p → s.passes q = some other → pass'.Decided id →
      ¬ other.Decided id) : SessionsHold (s.setPass p pass') where
  unclaimed := h.unclaimed
  amounts := h.amounts
  ok := by
    intro q other hq
    rcases System.passes_setPass hq with ⟨rfl, rfl⟩ | ⟨-, hq⟩
    · exact hok
    · exact h.ok q other hq
  exclusive := by
    intro q q' other other' id hne hq hq' hdec
    rcases System.passes_setPass hq with ⟨rfl, rfl⟩ | ⟨hqp, hold⟩ <;>
      rcases System.passes_setPass hq' with ⟨rfl, rfl⟩ | ⟨hqp', hold'⟩
    · exact absurd rfl hne
    · exact hex q' other' id hqp' hold' hdec
    · exact fun hdec' => hex q other id hqp hold hdec' hdec
    · exact h.exclusive q q' other other' id hne hold hold' hdec

/-- A pass goes on in a session that has decided nothing new. -/
theorem setPass_of_decided (h : SessionsHold s) (hp : s.passes p = some pass)
    (hok : SessionOk s.orders s.merchants pass') (hdec : ∀ id, pass'.Decided id → pass.Decided id) :
    SessionsHold (s.setPass p pass') :=
  h.setPass hok fun q other id hq hother hd =>
    h.exclusive p q pass other id hq.symm hp hother (hdec id hd)

theorem endPass (h : SessionsHold s) (p : PassId) : SessionsHold (s.endPass p) where
  unclaimed := h.unclaimed
  amounts := h.amounts
  ok := fun q other hq => h.ok q other (System.passes_endPass hq).2
  exclusive := fun q q' other other' id hne hq hq' =>
    h.exclusive q q' other other' id hne (System.passes_endPass hq).2 (System.passes_endPass hq').2

theorem synced_not_decided (pass : Pass) (stage : Stage) (id : OrderId) :
    ¬ Pass.Decided { pass.synced with stage := stage } id := by
  rintro ⟨t, ht, hne⟩
  obtain ⟨t₀, -, rfl⟩ := Option.map_eq_some_iff.mp ht
  exact hne rfl

/-- What the rows of a saved table were before. -/
theorem row_of_saved (h : SessionsHold s) (hp : s.passes p = some pass) {o' : MerchantOrder}
    (ho' : o' ∈ (s.save pass).orders.rows) :
    ∃ o, s.orders.find? o'.id = some o ∧ ((¬ pass.Decided o'.id ∧ o' = o) ∨
      ∃ t, pass.orders o'.id = some t ∧ t.cur ≠ t.base ∧ o.status = .pending ∧
        o'.status = t.cur.status ∧ t.cur.status ≠ .pending ∧ o'.claimed = t.cur.claimed) := by
  have hf' := Table.find?_of_mem ho'
  rw [key_order] at hf'
  cases hf : s.orders.find? o'.id with
  | none =>
    rw [s.find?_save pass, hf] at hf'
    cases hf'
  | some o =>
    obtain ⟨o₁, hf₁, -, -, -, hcase⟩ := (h.ok p pass hp).find?_saved hf
    obtain rfl : o₁ = o' := Option.some.inj (hf₁.symm.trans hf')
    exact ⟨o, rfl, hcase⟩

/-- The pass commits and goes on. -/
theorem save (h : SessionsHold s) (hp : s.passes p = some pass) (stage : Stage) :
    SessionsHold ((s.save pass).setPass p { pass.synced with stage := stage }) where
  unclaimed := by
    intro o' ho' hst'
    obtain ⟨o, hf, ⟨-, rfl⟩ | ⟨t, -, -, -, hst, hdec, -⟩⟩ := h.row_of_saved hp ho'
    · exact h.unclaimed o' (Table.find?_eq_some.mp hf).1 hst'
    · exact absurd (hst ▸ hst') hdec
  amounts := by
    intro o' ho' x hx
    obtain ⟨o, hf, ⟨-, rfl⟩ | ⟨t, ht, -, -, -, -, hcl⟩⟩ := h.row_of_saved hp ho'
    · exact h.amounts o' (Table.find?_eq_some.mp hf).1 x hx
    · obtain ⟨o₁, hf₁, hcopy⟩ := (h.ok p pass hp).orders _ t ht
      obtain ⟨o₂, hf₂, -, -, hamt, -⟩ := (h.ok p pass hp).find?_saved hf₁
      have hf' := Table.find?_of_mem ho'
      obtain rfl : o₂ = o' := Option.some.inj (hf₂.symm.trans hf')
      rw [hcl] at hx
      rw [hcopy.amounts x hx, hamt, hcopy.amountUsd_eq]
  ok := by
    intro q other hq
    rcases System.passes_setPass hq with ⟨rfl, rfl⟩ | ⟨hqp, hq⟩
    · exact (h.ok q pass hp).saved stage
    · refine (h.ok q other hq).mono ?_ fun id m => SessionOk.find?_saved_merchants s pass
      intro id o hf
      obtain ⟨o', hf', -, hmer, hamt, ⟨-, rfl⟩ | ⟨t, ht, hne, -, hst, hdec, -⟩⟩ :=
        (h.ok p pass hp).find?_saved hf
      · exact ⟨o', hf', .inl rfl⟩
      · exact ⟨o', hf', .inr
          ⟨h.exclusive p q pass other id hqp.symm hp hq ⟨t, ht, hne⟩, hmer, hamt, hst ▸ hdec⟩⟩
  exclusive := by
    intro q q' other other' id hne hq hq' hdec
    rcases System.passes_setPass hq with ⟨rfl, rfl⟩ | ⟨hqp, hq⟩
    · exact absurd hdec (synced_not_decided pass stage id)
    · rcases System.passes_setPass hq' with ⟨rfl, rfl⟩ | ⟨hqp', hq'⟩
      · exact synced_not_decided pass stage id
      · exact h.exclusive q q' other other' id hne hq hq' hdec

/-- A pass visits its next order. -/
theorem visit (h : SessionsHold s) {id : OrderId} {rest : List OrderId}
    {t : Tracked MerchantOrder} {v : Visit} {a : Answers} (hp : s.passes p = some pass)
    (hstage : pass.stage = .looping) (htodo : pass.todo = id :: rest)
    (ht : pass.orders id = some t)
    (hv : visitOrder pass.now a t.cur ((pass.merchants t.cur.merchantId).map Tracked.cur) = some v)
    (hfresh : s.DecidesUndecided p pass id v) : SessionsHold (s.visited p pass id rest v) := by
  have hok := h.ok p pass hp
  have hund : v ≠ .unpaid → s.Undecided p id := by
    intro hne
    cases v with
    | expired o => exact hfresh
    | unpaid => exact absurd rfl hne
    | paid o m c => exact hfresh
  have hset : SessionsHold (s.setPass p (pass.afterVisit id rest v)) := by
    refine h.setPass (hok.visited h.unclaimed hstage htodo ht hv fun hne => (hund hne).1) ?_
    intro q other i hq hother hdec
    obtain ⟨o, -, hcopy⟩ := hok.orders id t ht
    rcases unpaid_or_decides rest hcopy.cur_id ht hv with rfl | ⟨o, new, hd, hkind⟩
    · exact h.exclusive p q pass other i hq.symm hp hother hdec
    · have hne : v ≠ .unpaid := by
        rcases hkind with ⟨rfl, -⟩ | ⟨_, _, rfl, -⟩ <;> simp
      by_cases hi : i = id
      · subst hi
        exact (hund hne).2 q other hq hother
      · apply h.exclusive p q pass other i hq.symm hp hother
        obtain ⟨t', ht', hne'⟩ := hdec
        rw [hd.orders_eq, Function.update_of_ne hi] at ht'
        exact ⟨t', ht', hne'⟩
  cases v with
  | paid o m c => exact { hset with }
  | _ => exact hset

/-- Another transaction commits. -/
theorem other (h : SessionsHold s) {m : Merchant} {order : Option MerchantOrder} {s' : System}
    (hs : s.other m order = some s') : SessionsHold s' := by
  have hclaimed : ∀ o ∈ s'.orders.rows, o ∈ s.orders.rows ∨ o.claimed = [] := by
    intro o ho
    rcases System.mem_other hs ho with ho | ⟨-, hmay⟩
    · exact .inl ho
    · simp only [System.mayAdd, Bool.and_eq_true, decide_eq_true_eq] at hmay
      right
      simp [MerchantOrder.claimed, hmay.2]
  have hfind : ∀ {id o}, s.orders.find? id = some o → s'.orders.find? id = some o :=
    System.find?_other hs
  have hmerchants : ∀ {id m₀}, s.merchants.find? id = some m₀ →
      ∃ m', s'.merchants.find? id = some m' := by
    intro id m₀ hf
    obtain ⟨m', hf', -⟩ := System.find?_merchants_other hs hf
    exact ⟨m', hf'⟩
  obtain ⟨-, orders, rfl, -⟩ := System.other_eq_some hs
  refine ⟨?_, ?_, ?_, h.exclusive⟩
  · intro o ho hst
    rcases hclaimed o ho with ho | he
    · exact h.unclaimed o ho hst
    · exact he
  · intro o ho x hx
    rcases hclaimed o ho with ho | he
    · exact h.amounts o ho x hx
    · rw [he] at hx
      cases hx
  · intro p pass hp
    exact (h.ok p pass hp).mono (fun id o hf => ⟨o, hfind hf, .inl rfl⟩)
      fun id m' hf => hmerchants hf

/-- **Fresh events keep the sessions' invariant.** -/
theorem step (h : SessionsHold s) {e : Event} {s' : System} (hf : s.FreshOrders e)
    (hs : s.step e = some s') : SessionsHold s' := by
  cases Move.of_step hs with
  | none hp => exact h
  | begin hp hpending =>
    apply h.setPass (SessionOk.openPass h.unclaimed _ hpending)
    intro q other id _ _ ⟨t, ht, hne⟩
    obtain ⟨o, -, rfl⟩ := Option.map_eq_some_iff.mp ht
    exact absurd rfl hne
  | load hp hst => exact h.setPass_of_decided hp ((h.ok _ _ hp).loaded _ (by simp)) fun _ hd => hd
  | @visit p a pass id rest t v hp hst htodo ht hv =>
    refine h.visit hp hst htodo ht hv (hf pass id rest v hp ?_)
    simp [Pass.nextVisit, htodo, ht, hv]
  | raise hp _ => exact h.endPass _
  | mark hp hst _ =>
    exact h.setPass_of_decided hp ((h.ok _ _ hp).marked _ (by simp) _) fun _ hd => hd
  | pushSave hp _ _ => exact h.save hp _
  | finishSave hp _ =>
    rw [← System.endPass_setPass]
    exact (h.save hp .looping).endPass _
  | finishLost hp _ => exact h.endPass _
  | abort hp => exact h.endPass _
  | other hs => exact h.other hs

end SessionsHold

/-! ## The copies of merchants -/

/-- **What every copy of a merchant satisfies**: it holds of a row as it is loaded, confirmations
keep it, and so does a commit. -/
theorem Move.copies {P : MerchantId → Tracked Merchant → Prop} {s s' : System} {e : Event}
    (h : Move s e s') (hid : ∀ k c, P k c → c.cur.id = k)
    (hload : ∀ k m, s.merchants.find? k = some m → P k (.load m))
    (hconfirm : ∀ k c clock payment q, P k c →
      P k (c.set ((c.cur.claimPayment payment).bookVolume clock q)))
    (hsync : ∀ k c, P k c → P k c.sync)
    (hs : ∀ p pass, s.passes p = some pass → ∀ k c, pass.merchants k = some c → P k c) :
    ∀ p pass, s'.passes p = some pass → ∀ k c, pass.merchants k = some c → P k c := by
  have hset : ∀ {p : PassId} {next : Pass} {t : System}, t.passes = s.passes →
      (∀ k c, next.merchants k = some c → P k c) →
      ∀ q pass, (t.setPass p next).passes q = some pass → ∀ k c, pass.merchants k = some c →
        P k c := by
    intro p next t ht hnext q pass hq
    rcases System.passes_setPass hq with ⟨rfl, rfl⟩ | ⟨-, hold⟩
    · exact hnext
    · exact hs q pass (ht ▸ hold)
  have hend : ∀ {p : PassId} {t : System}, t.passes = s.passes →
      ∀ q pass, (t.endPass p).passes q = some pass → ∀ k c, pass.merchants k = some c → P k c :=
    fun ht q pass hq => hs q pass (ht ▸ (System.passes_endPass hq).2)
  cases h with
  | none _ => exact hs
  | begin _ _ =>
    apply hset rfl
    intro k c hc
    cases hc
  | load hp _ =>
    apply hset rfl
    intro k c hc
    simp only [System.loadedMerchants] at hc
    split_ifs at hc
    obtain ⟨m, hm, rfl⟩ := Option.map_eq_some_iff.mp hc
    exact hload k m hm
  | @visit p a pass id rest t v hp _ _ _ hv =>
    have hnext : ∀ k c, (pass.afterVisit id rest v).merchants k = some c → P k c := by
      intro k c' hc'
      rcases Pass.merchants_afterVisit hc' with hold | ⟨c, o, m, x, rfl, hk, hc, rfl⟩
      · exact hs p pass hp k c' hold
      · obtain ⟨-, payment, -, hconfirmed⟩ := confirm_of_visit hv
        cases hm : pass.merchants t.cur.merchantId with
        | none =>
          rw [hm] at hconfirmed
          cases hconfirmed
        | some c₀ =>
          rw [hm] at hconfirmed
          simp only [confirm, Option.map_some, Visit.paid.injEq, Option.some.injEq] at hconfirmed
          obtain ⟨-, rfl, -⟩ := hconfirmed
          -- the copy that the visit has changed is the one of its merchant
          have hold := hs p pass hp _ c₀ hm
          have hown : t.cur.merchantId = k := by
            rw [← hk, ← hid _ _ hold]
            simp
          subst hown
          obtain rfl : c₀ = c := Option.some.inj (hm.symm.trans hc)
          exact hconfirm _ _ _ _ _ hold
    have hstep := hset (p := p) (t := s) rfl hnext
    cases v <;> exact hstep
  | raise _ _ => exact hend rfl
  | mark hp _ _ => exact hset rfl fun k c hc => hs _ _ hp k c hc
  | pushSave hp _ _ =>
    apply hset rfl
    intro k c' hc'
    obtain ⟨c, hc, rfl⟩ := Option.map_eq_some_iff.mp hc'
    exact hsync k c (hs _ _ hp k c hc)
  | finishSave _ _ => exact hend rfl
  | finishLost _ _ => exact hend rfl
  | abort _ => exact hend rfl
  | other hother =>
    obtain ⟨-, orders, rfl, -⟩ := System.other_eq_some hother
    exact hs

/-! ## Settled orders stay -/

/-- The orders that are no longer pending are stored unchanged. -/
def Settled (s s' : System) : Prop :=
  ∀ o ∈ s.orders.rows, o.status ≠ .pending → o ∈ s'.orders.rows

theorem Settled.trans {s s' s'' : System} (h : Settled s s') (h' : Settled s' s'') :
    Settled s s'' :=
  fun o ho hst => h' o (h o ho hst) hst

/-- A commit writes pending orders only. -/
theorem SessionsHold.settled_save {s : System} {p : PassId} {pass : Pass} (h : SessionsHold s)
    (hp : s.passes p = some pass) : Settled s (s.save pass) := by
  intro o ho hst
  obtain ⟨o', hf', -, -, -, ⟨-, rfl⟩ | ⟨-, -, -, hpend, -⟩⟩ :=
    (h.ok p pass hp).find?_saved (Table.find?_of_mem ho)
  · exact (Table.find?_eq_some.mp hf').1
  · exact absurd hpend hst

theorem SessionsHold.settled_step {s s' : System} {e : Event} (h : SessionsHold s)
    (hs : s.step e = some s') : Settled s s' := by
  cases Move.of_step hs with
  | pushSave hp _ _ => exact h.settled_save hp
  | finishSave hp _ => exact h.settled_save hp
  | @visit _ _ _ _ _ _ v => cases v <;> exact fun o ho _ => ho
  | other hs =>
    intro o ho _
    exact (Table.find?_eq_some.mp (System.find?_other hs (Table.find?_of_mem ho))).1
  | _ => exact fun o ho _ => ho

/-- **Settled orders stay**: along a run of fresh events, an order that has been committed as paid
or expired is never changed again. -/
theorem settled_of_run {s s' : System} {es : List Event} (h : SessionsHold s)
    (run : Run System.step System.FreshOrders s es s') : Settled s s' :=
  run.rel (fun _ _ _ hs hf hstep => hs.step hf hstep) (fun _ _ ho _ => ho)
    (fun _ _ _ h h' => h.trans h') (fun _ _ _ hs _ hstep => hs.settled_step hstep) h

end Gateway
