import Gateway.Poll.Watermarks

/-!
# Passes one after another

When a pass starts only after the last one has ended (`Serial`), the orders it has not visited are
still pending (`SoleHolds`), and with orders of positive amounts the watermarks it has read are the
stored ones (`SerialHolds`). Every event of such a run is therefore `Fresh`, whatever the chains
answer, wherever the passes abort and whatever other transactions commit meanwhile, and the
invariants of the sessions and of the ledger hold throughout. `solana_ledger` reads the guarantee
of the shared Solana address off them.
-/

namespace Gateway

open Foundations

/-- A pass starts only when no pass is running. -/
def Serial (s : System) : Event → Prop
  | .begin _ _ _ => ∀ q, s.passes q = none
  | _ => True

/-- The orders that appear have positive amounts. -/
def PositiveOrders (_ : System) : Event → Prop
  | .other _ order => ∀ o ∈ order, 0 < o.amountUsd.value
  | _ => True

/-! ## The pass that runs alone -/

/-- What holds of the orders when passes run one after another. -/
structure SoleHolds (s : System) : Prop where
  sessions : SessionsHold s
  one : ∀ p q pass pass', s.passes p = some pass → s.passes q = some pass' → p = q
  todo : ∀ p pass, s.passes p = some pass → ∀ id ∈ pass.todo,
    ∃ o, s.orders.find? id = some o ∧ o.status = .pending

namespace SoleHolds

variable {s s' : System} {p : PassId} {pass : Pass}

/-- An order that the running pass has not visited is undecided. -/
theorem undecided (h : SoleHolds s) (hp : s.passes p = some pass) {id : OrderId}
    (hid : id ∈ pass.todo) : s.Undecided p id :=
  ⟨h.todo p pass hp id hid, fun q other hq hother => absurd (h.one q p other pass hother hp) hq⟩

/-- A pass that runs alone decides undecided orders. -/
theorem freshOrders (h : SoleHolds s) (e : Event) : s.FreshOrders e := by
  cases e with
  | visit p a =>
    intro pass id rest v hp hv
    obtain ⟨htodo, -⟩ := Pass.nextVisit_eq_some hv
    have hund := h.undecided hp (by simp [htodo] : id ∈ pass.todo)
    cases v with
    | unpaid => trivial
    | _ => exact hund
  | _ => trivial

/-- The only pass goes on. -/
theorem setPass {pass' : Pass} (hone : ∀ q other, s.passes q = some other → q = p)
    (hsessions : SessionsHold (s.setPass p pass'))
    (htodo : ∀ id ∈ pass'.todo, ∃ o, s.orders.find? id = some o ∧ o.status = .pending) :
    SoleHolds (s.setPass p pass') where
  sessions := hsessions
  one := by
    have hall : ∀ q other, (s.setPass p pass').passes q = some other → q = p := by
      intro q other hq
      rcases System.passes_setPass hq with ⟨rfl, -⟩ | ⟨-, hold⟩
      · rfl
      · exact hone q other hold
    intro q q' other other' hq hq'
    exact (hall q other hq).trans (hall q' other' hq').symm
  todo := by
    intro q other hq
    rcases System.passes_setPass hq with ⟨rfl, rfl⟩ | ⟨hqp, hold⟩
    · exact htodo
    · exact absurd (hone q other hold) hqp

theorem endPass (h : SoleHolds s) (p : PassId) : SoleHolds (s.endPass p) where
  sessions := h.sessions.endPass p
  one := fun q q' other other' hq hq' =>
    h.one q q' other other' (System.passes_endPass hq).2 (System.passes_endPass hq').2
  todo := fun q other hq => h.todo q other (System.passes_endPass hq).2

/-- The pass commits and goes on: the orders it has not visited are stored as they were. -/
theorem save (h : SoleHolds s) (hp : s.passes p = some pass) (stage : Stage) :
    SoleHolds ((s.save pass).setPass p { pass.synced with stage := stage }) := by
  refine setPass (fun q other hq => h.one q p other pass hq hp) (h.sessions.save hp stage) ?_
  intro id hid
  have hok := h.sessions.ok p pass hp
  obtain ⟨o, hf, hst⟩ := h.todo p pass hp id hid
  obtain ⟨o', hf', -, -, -, ⟨-, rfl⟩ | ⟨t, ht, hne, -⟩⟩ := hok.find?_saved hf
  · exact ⟨o', hf', hst⟩
  · exact absurd ⟨t, ht, hne⟩ (hok.not_decided_of_todo hid)

/-- Another transaction commits. -/
theorem other (h : SoleHolds s) {m : Merchant} {order : Option MerchantOrder}
    (hs : s.other m order = some s') : SoleHolds s' := by
  have hsessions := h.sessions.other hs
  have hfind : ∀ {id o}, s.orders.find? id = some o → s'.orders.find? id = some o :=
    System.find?_other hs
  obtain ⟨-, orders, rfl, -⟩ := System.other_eq_some hs
  refine ⟨hsessions, h.one, ?_⟩
  intro q other hq id hid
  obtain ⟨o, hf, hst⟩ := h.todo q other hq id hid
  exact ⟨o, hfind hf, hst⟩

/-- **Passes one after another keep their sessions in order.** -/
theorem step (h : SoleHolds s) {e : Event} (hser : Serial s e) (hs : s.step e = some s') :
    SoleHolds s' := by
  have hsessions := h.sessions.step (h.freshOrders e) hs
  have hone : ∀ {p pass}, s.passes p = some pass → ∀ q other, s.passes q = some other → q = p :=
    fun hp q other hq => h.one q _ other _ hq hp
  cases Move.of_step hs with
  | none hp => exact h
  | @begin p now pending hp hpending =>
    refine setPass (fun q other hq => ?_) hsessions ?_
    · rw [hser q] at hq
      cases hq
    · intro id hid
      obtain ⟨o, ho, rfl⟩ := List.mem_map.mp hid
      obtain ⟨hmem, hstatus⟩ := System.mem_of_isPendingList hpending ho
      exact ⟨o, Table.find?_of_mem hmem, hstatus⟩
  | @load p pass hp hst => exact setPass (hone hp) hsessions (h.todo p pass hp)
  | @visit p a pass id rest t v hp hst htodo ht hv =>
    have hset : SoleHolds (s.setPass p (pass.afterVisit id rest v)) := by
      apply setPass (hone hp)
      · cases v with
        | paid o m c => exact { hsessions with }
        | _ => exact hsessions
      · intro i hi
        apply h.todo p pass hp i
        rw [htodo]
        cases v <;> exact List.mem_cons_of_mem id hi
    cases v with
    | paid o m c => exact { hset with sessions := hsessions }
    | _ => exact hset
  | raise hp _ => exact h.endPass _
  | @mark p o pass broken hp hst hb => exact setPass (hone hp) hsessions (h.todo p pass hp)
  | pushSave hp _ _ => exact h.save hp _
  | finishSave hp _ =>
    rw [← System.endPass_setPass]
    exact (h.save hp .looping).endPass _
  | finishLost hp _ => exact h.endPass _
  | abort hp => exact h.endPass _
  | other hother => exact h.other hother

end SoleHolds

/-! ## Its watermarks -/

/-- What holds when passes run one after another over orders of positive amounts. -/
structure SerialHolds (s : System) : Prop extends SoleHolds s where
  ledger : LedgerHolds s
  read : ∀ p pass id t m, s.passes p = some pass → pass.merchants id = some t →
    s.merchants.find? id = some m → ∀ a, t.base.consumed a = m.consumed a
  positive : ∀ o ∈ s.orders.rows, 0 < o.amountUsd.value

namespace SerialHolds

variable {s s' : System} {p : PassId} {pass : Pass}

/-- A pass that runs alone claims on the stored watermarks. -/
theorem claimsUnclaimed (h : SerialHolds s) (e : Event) : s.OnVisit s.ClaimsUnclaimed e := by
  cases e with
  | visit p a =>
    intro pass id rest v hp hv
    obtain ⟨htodo, t, ht, hvisit⟩ := Pass.nextVisit_eq_some hv
    obtain ⟨o, hf, hcopy⟩ := (h.sessions.ok p pass hp).orders id t ht
    rcases visitOrder_cases hvisit.symm with rfl | rfl | ⟨o', m', c, rfl, hc⟩
    · trivial
    · trivial
    · refine fun cl hcl => ⟨⟨?_, ?_⟩, .inl ?_⟩
      · exact fun m t' hm ht' => h.read p pass _ t' m hp ht' hm _
      · exact fun q other hq hother => absurd (h.one q p other pass hother hp) hq
      · obtain ⟨_, _, _, _, _, _, _, hamt, _⟩ := hc.claim cl hcl
        rw [hamt, ← hcopy.amountUsd_eq]
        exact h.positive o (Table.find?_eq_some.mp hf).1
  | _ => trivial

/-- The pass commits and goes on, with the watermarks that it has stored. -/
theorem read_save (h : SerialHolds s) (hp : s.passes p = some pass) (hsave : s.canSave pass)
    (stage : Stage) {q : PassId} {other : Pass}
    (hq : ((s.save pass).setPass p { pass.synced with stage := stage }).passes q = some other)
    {id : MerchantId} {t : Tracked Merchant} {m' : Merchant} (ht : other.merchants id = some t)
    (hf' : (s.save pass).merchants.find? id = some m') (a : Asset) :
    t.base.consumed a = m'.consumed a := by
  have hm := marksOk_of_canSave hsave (h.ledger.passes p pass hp)
  rcases System.passes_setPass hq with ⟨rfl, rfl⟩ | ⟨hqp, hold⟩
  · obtain ⟨t₀, ht₀, rfl⟩ := Option.map_eq_some_iff.mp ht
    obtain ⟨-, m, hf⟩ := (h.sessions.ok q pass hp).merchants id t₀ ht₀
    obtain ⟨m₁, hf₁, -, hcons⟩ := h.ledger.merchant_of_saved hm hsave hf
    obtain rfl : m₁ = m' := Option.some.inj (hf₁.symm.trans hf')
    rw [Tracked.sync_base, (hm.copy id t₀ m ht₀ hf a).sum, (hcons a).1,
      h.read q pass id t₀ m hp ht₀ hf a]
  · exact absurd (h.one q p other pass hold hp) hqp

/-- The watermarks that a pass has read stay the stored ones. -/
theorem read_step (h : SerialHolds s) {e : Event} (hs : s.step e = some s') {q : PassId}
    {other : Pass} (hq : s'.passes q = some other) {id : MerchantId} {t : Tracked Merchant}
    {m : Merchant} (ht : other.merchants id = some t) (hf : s'.merchants.find? id = some m)
    (a : Asset) : t.base.consumed a = m.consumed a := by
  cases Move.of_step hs with
  | none hp => exact h.read q other id t m hq ht hf a
  | begin hp hpending =>
    rcases System.passes_setPass hq with ⟨rfl, rfl⟩ | ⟨-, hold⟩
    · cases ht
    · exact h.read q other id t m hold ht hf a
  | load hp hst =>
    rcases System.passes_setPass hq with ⟨rfl, rfl⟩ | ⟨-, hold⟩
    · simp only [System.loadedMerchants] at ht
      split_ifs at ht
      obtain ⟨m', hm', rfl⟩ := Option.map_eq_some_iff.mp ht
      obtain rfl : m' = m := Option.some.inj (hm'.symm.trans hf)
      rfl
    · exact h.read q other id t m hold ht hf a
  | @visit p _ pass i rest _ v hp =>
    have hset : (s.setPass p (pass.afterVisit i rest v)).passes q = some other := by
      cases v <;> exact hq
    have hfind : s.merchants.find? id = some m := by cases v <;> exact hf
    rcases System.passes_setPass hset with ⟨rfl, rfl⟩ | ⟨-, hold⟩
    · rcases Pass.merchants_afterVisit ht with ht | ⟨t₀, _, m₁, _, -, -, ht₀, rfl⟩
      · exact h.read q pass id t m hp ht hfind a
      · exact h.read q pass id t₀ m hp ht₀ hfind a
    · exact h.read q other id t m hold ht hfind a
  | raise hp _ => exact h.read q other id t m (System.passes_endPass hq).2 ht hf a
  | @mark p _ pass _ hp =>
    rcases System.passes_setPass hq with ⟨rfl, rfl⟩ | ⟨-, hold⟩
    · exact h.read q pass id t m hp ht hf a
    · exact h.read q other id t m hold ht hf a
  | pushSave hp _ hsave => exact h.read_save hp hsave _ hq ht hf a
  | @finishSave p pass hp hsave =>
    obtain ⟨hqp, hold⟩ := System.passes_endPass hq
    exact absurd (h.one q p other pass hold hp) hqp
  | finishLost hp _ => exact h.read q other id t m (System.passes_endPass hq).2 ht hf a
  | abort hp => exact h.read q other id t m (System.passes_endPass hq).2 ht hf a
  | other hother =>
    have hmarks : ∀ {id m₀}, s.merchants.find? id = some m₀ →
        ∃ m', s'.merchants.find? id = some m' ∧ ∀ a, m'.consumed a = m₀.consumed a :=
      System.find?_merchants_other hother
    obtain ⟨-, orders, rfl, -⟩ := System.other_eq_some hother
    obtain ⟨-, m₀, hf₀⟩ := (h.sessions.ok q other hq).merchants id t ht
    obtain ⟨m', hf', hcons⟩ := hmarks hf₀
    obtain rfl : m' = m := Option.some.inj (hf'.symm.trans hf)
    rw [hcons a]
    exact h.read q other id t m₀ hq ht hf₀ a

/-- The amounts of the stored orders stay positive. -/
theorem positive_step (h : SerialHolds s) {e : Event} (hpos : PositiveOrders s e)
    (hs : s.step e = some s') : ∀ o ∈ s'.orders.rows, 0 < o.amountUsd.value := by
  have hsave : ∀ {p pass}, s.passes p = some pass →
      ∀ o ∈ (s.save pass).orders.rows, 0 < o.amountUsd.value := by
    intro p pass hp o' ho'
    have hf' := Table.find?_of_mem ho'
    obtain ⟨o, hf, -⟩ := h.sessions.row_of_saved hp ho'
    obtain ⟨o₁, hf₁, -, -, hamt, -⟩ := (h.sessions.ok p pass hp).find?_saved hf
    obtain rfl : o₁ = o' := Option.some.inj (hf₁.symm.trans hf')
    rw [hamt]
    exact h.positive o (Table.find?_eq_some.mp hf).1
  cases Move.of_step hs with
  | pushSave hp _ _ => exact hsave hp
  | finishSave hp _ => exact hsave hp
  | @visit _ _ _ _ _ _ v => cases v <;> exact h.positive
  | other hother =>
    intro o ho
    rcases System.mem_other hother ho with ho | ⟨rfl, -⟩
    · exact h.positive o ho
    · exact hpos o rfl
  | _ => exact h.positive

/-- **Passes one after another keep all invariants.** -/
theorem step (h : SerialHolds s) {e : Event} (hok : Serial s e ∧ PositiveOrders s e)
    (hs : s.step e = some s') : SerialHolds s' where
  toSoleHolds := h.toSoleHolds.step hok.1 hs
  ledger := h.ledger.step h.sessions (h.claimsUnclaimed e) hs
  read := fun _ _ _ _ _ hq ht hf a => h.read_step hs hq ht hf a
  positive := h.positive_step hok.2 hs

end SerialHolds

/-! ## The guarantee of the shared address -/

/-- No pass is running, nothing has been confirmed, and no order has been paid on Solana. -/
structure Start (s : System) : Prop where
  idle : ∀ p, s.passes p = none
  confirmed : s.confirmed = []
  ledger : s.ledger = []
  marks : ∀ m ∈ s.merchants.rows, ∀ a, m.consumed a = 0
  unpaid : ∀ o ∈ s.orders.rows, o.paidChain ≠ some .solana

namespace Start

variable {s : System} (h : Start s)

include h

theorem claimed_eq {o : MerchantOrder} (ho : o ∈ s.orders.rows) : o.claimed = [] := by
  unfold MerchantOrder.claimed
  split
  · rename_i hchain _ _
    exact absurd hchain (h.unpaid o ho)
  · rfl

theorem sessionsHold : SessionsHold s where
  unclaimed := fun o ho _ => h.claimed_eq ho
  amounts := fun o ho x hx => by rw [h.claimed_eq ho] at hx; cases hx
  ok := fun p pass hp => by rw [h.idle p] at hp; cases hp
  exclusive := fun p q pass pass' id _ hp => by rw [h.idle p] at hp; cases hp

theorem ledgerHolds : LedgerHolds s where
  marks := by
    intro m hm a
    rw [h.ledger, h.marks m hm a]
    simp
  orders := by
    intro o ho
    rw [h.ledger, h.claimed_eq ho]
    rfl
  known := by simp [h.ledger]
  cents := by simp [h.ledger]
  covered := by simp [h.ledger]
  passes := fun p pass hp => by rw [h.idle p] at hp; cases hp
  exclusive := fun p q pass pass' _ hp => by rw [h.idle p] at hp; cases hp

theorem soleHolds : SoleHolds s where
  sessions := h.sessionsHold
  one := fun p q pass pass' hp => by rw [h.idle p] at hp; cases hp
  todo := fun p pass hp => by rw [h.idle p] at hp; cases hp

theorem serialHolds (hpos : ∀ o ∈ s.orders.rows, 0 < o.amountUsd.value) : SerialHolds s where
  toSoleHolds := h.soleHolds
  ledger := h.ledgerHolds
  read := fun p pass id t m hp => by rw [h.idle p] at hp; cases hp
  positive := hpos

end Start

/-- The watermark of an account is within 1% of the last claim of the balance that satisfied it. -/
theorem StoredOk.consumed_le {s : System} (h : StoredOk s) (hpos : ∀ c ∈ s.ledger, 0 < c.amount)
    {pre post : List PaymentClaim} {c : PaymentClaim} {b : ℚ} (hl : s.ledger = pre ++ c :: post)
    (hlast : ∀ d ∈ post, d.account ≠ c.account) (hb : c.balance = some b) {m : Merchant}
    (hm : m ∈ s.merchants.rows) (hid : m.id = c.account.1) :
    m.consumed c.account.2 ≤ b + c.amount / 100 := by
  have hcov := h.covered
  rw [hl] at hcov hpos
  have hle := Ledger.total_le_of_covered hcov hpos hb hlast
  rw [(h.marks m hm _).1, hid, hl]
  refine hle.trans (le_of_eq ?_)
  rw [minPaymentFraction]
  ring

/-- Claims are of the amounts of orders. -/
theorem StoredOk.claims_positive {s : System} (h : StoredOk s) (hs : SessionsHold s)
    (hpos : ∀ o ∈ s.orders.rows, 0 < o.amountUsd.value) : ∀ c ∈ s.ledger, 0 < c.amount := by
  intro c hc
  obtain ⟨⟨o, ho⟩, -⟩ := h.known c hc
  obtain ⟨hmem, hid⟩ := Table.find?_eq_some.mp ho
  have hcl := h.claimed_of_mem hc hmem hid.symm
  have hamt := hs.amounts o hmem (claimEntry c) (by rw [hcl]; exact List.mem_singleton_self _)
  rw [show c.amount = (claimEntry c).2 from rfl, hamt]
  exact hpos o hmem

/-- **The ledger of the shared Solana address.** Along every run of passes one after another, in
every committed state: a watermark is the sum of the amounts of the merchant's orders paid on
Solana in its asset; every order records exactly its own claims of the ledger, which holds at most
one of them; a watermark stays within 1% of the last claim of the balance that satisfied it; and an
event under which no further order is paid on it leaves it alone. -/
theorem solana_ledger {s₀ s : System} {es : List Event} (h0 : Start s₀)
    (hpos : ∀ o ∈ s₀.orders.rows, 0 < o.amountUsd.value)
    (run : Run System.step (fun s e => Serial s e ∧ PositiveOrders s e) s₀ es s) :
    (∀ m ∈ s.merchants.rows, ∀ a,
      m.consumed a = ((s.solanaPaid m.id a).map fun o => o.paidAmount.getD 0).sum) ∧
    (∀ o ∈ s.orders.rows, (s.ledger.filter fun c => c.owner = o.id).map claimEntry = o.claimed) ∧
    (s.ledger.map Claim.owner).Nodup ∧
    (∀ pre c post b, s.ledger = pre ++ c :: post → (∀ d ∈ post, d.account ≠ c.account) →
      c.balance = some b → ∀ m ∈ s.merchants.rows, m.id = c.account.1 →
        m.consumed c.account.2 ≤ b + c.amount / 100) ∧
    (∀ e s', Serial s e ∧ PositiveOrders s e → s.step e = some s' →
      ∀ m ∈ s.merchants.rows, ∀ m' ∈ s'.merchants.rows,
      m'.id = m.id → ∀ a, s'.solanaPaid m.id a = s.solanaPaid m.id a →
        m'.consumed a = m.consumed a) := by
  have h : SerialHolds s :=
    run.invariant (fun _ _ _ hs hser hstep => hs.step hser hstep) (h0.serialHolds hpos)
  have hclaims := h.ledger.claims_positive h.sessions h.positive
  refine ⟨fun m hm a => h.ledger.consumed_eq_sum hm a, h.ledger.orders, h.ledger.owners_nodup,
    ?_, ?_⟩
  · intro pre c post b hl hlast hb m hm hid
    exact h.ledger.consumed_le hclaims hl hlast hb hm hid
  · intro e s' hser hstep m hm m' hm' hid a hpaid
    have h' := h.step hser hstep
    rw [h'.ledger.consumed_eq_sum hm' a, hid, hpaid, h.ledger.consumed_eq_sum hm a]

/-! ### Runs of one pass after another -/

/-- The pass that an event belongs to. -/
def Event.pass? : Event → Option PassId
  | .begin p _ _ => some p
  | .loadMerchants p => some p
  | .visit p _ => some p
  | .push p _ => some p
  | .finish p => some p
  | .abort p => some p
  | .other _ _ => none

/-- An event of one pass starts no other. -/
theorem System.idle_step {s s' : System} {e : Event} {p : PassId}
    (hidle : ∀ q, q ≠ p → s.passes q = none) (he : ∀ q ∈ e.pass?, q = p)
    (hs : s.step e = some s') : ∀ q, q ≠ p → s'.passes q = none := by
  intro q hq
  have hset : ∀ {p'} (pass : Pass) (t : System), t.passes = s.passes → p' = p →
      (t.setPass p' pass).passes q = none := by
    rintro p' pass t ht rfl
    exact (Function.update_of_ne hq ..).trans (ht ▸ hidle q hq)
  have hend : ∀ {p'} (t : System), t.passes = s.passes → p' = p →
      (t.endPass p').passes q = none := by
    rintro p' t ht rfl
    exact (Function.update_of_ne hq ..).trans (ht ▸ hidle q hq)
  cases Move.of_step hs with
  | none hp => exact hidle q hq
  | begin hp _ => exact hset _ s rfl (he _ rfl)
  | load hp _ => exact hset _ s rfl (he _ rfl)
  | @visit _ _ pass id rest _ v hp =>
    cases v <;> exact hset (pass.afterVisit id rest _) s rfl (he _ rfl)
  | raise hp _ => exact hend s rfl (he _ rfl)
  | mark hp _ _ => exact hset _ s rfl (he _ rfl)
  | @pushSave _ pass hp _ _ => exact hset _ (s.save pass) rfl (he _ rfl)
  | @finishSave _ pass hp _ => exact hend (s.save pass) rfl (he _ rfl)
  | finishLost hp _ => exact hend s rfl (he _ rfl)
  | abort hp => exact hend s rfl (he _ rfl)
  | other hother =>
    obtain ⟨-, orders, rfl, -⟩ := System.other_eq_some hother
    exact hidle q hq

/-- A pass that starts while no other runs starts alone. -/
theorem serial_of_idle {s s' : System} {e : Event} {p : PassId}
    (hidle : ∀ q, q ≠ p → s.passes q = none) (he : ∀ q ∈ e.pass?, q = p)
    (hs : s.step e = some s') : Serial s e := by
  cases e with
  | begin p' now pending =>
    obtain rfl := he p' rfl
    intro q
    by_cases hq : q = p'
    · subst hq
      cases Move.of_step hs with
      | none hp => exact hp
      | begin hp _ => exact hp
    · exact hidle q hq
  | _ => trivial

section OnePass

variable {s s' : System} {es : List Event} {p : PassId}
  (hidle : ∀ q, q ≠ p → s.passes q = none) (hes : ∀ e ∈ es, ∀ q ∈ e.pass?, q = p)
  (h : exec System.step s es = some s')

include hidle hes h

theorem idle_of_exec : ∀ q, q ≠ p → s'.passes q = none := by
  have run : Run System.step (fun _ e => ∀ q ∈ e.pass?, q = p) s es s' :=
    .of_exec_of_forall (fun e he _ => hes e he) h
  exact run.invariant (fun _ _ _ hi he hs => System.idle_step hi he hs) hidle

/-- Passes under one name run one after another. -/
theorem serial_of_exec : Run System.step Serial s es s' := by
  have run : Run System.step (fun _ e => ∀ q ∈ e.pass?, q = p) s es s' :=
    .of_exec_of_forall (fun e he _ => hes e he) h
  exact run.strengthen (fun _ _ _ hi he hs => System.idle_step hi he hs)
    (fun _ _ _ hi he hs => serial_of_idle hi he hs) hidle

end OnePass

/-! ### A run of it -/

/-- A merchant without an order so far. -/
def sampleMerchant : Merchant where
  id := 1
  payoutEvmXpub := ""
  nextEvmIndex := 0
  payoutSolanaAddress := some "So1"
  webhookUrl := some "https://shop.example/hook"
  webhookSecret := "5e"
  billingMode := .flat
  pendingBillingMode := none
  billingCycleResetAt := none
  monthlyVolumeUsd := 0
  volumeFeePaidUsd := 0
  solanaUsdcConsumed := 0
  solanaUsdtConsumed := 0
  plan := .free
  planExpiresAt := none
  monthlyOrderCount := 0

/-- A pending order of $20 that expires at time 100. -/
def sampleOrder (id : OrderId) : MerchantOrder where
  id := id
  merchantId := 1
  orderReference := none
  description := none
  amountUsd := ⟨2000, by norm_num⟩
  evmDerivationIndex := id
  evmAddress := ""
  solanaAddress := some "So1"
  status := .pending
  paidChain := none
  paidAsset := none
  paidAmount := none
  paidAt := none
  webhookDeliveredAt := none
  expiresAt := 100
  createdAt := id

/-- A system with these orders of the sample merchant. -/
def sampleSystem (orders : List OrderId) (h : orders.Nodup) : System where
  orders := ⟨orders.map sampleOrder, by simpa [Function.comp_def, sampleOrder] using h⟩
  merchants := ⟨[sampleMerchant], by simp⟩
  passes := fun _ => none
  confirmed := []
  ledger := []

/-- A reply with one token account, of this balance. -/
def accountReply (uiAmount : Json) : Json :=
  .obj [("result", .obj [("value", .arr [.obj [("account", .obj [("data", .obj [("parsed", .obj
    [("info", .obj [("tokenAmount", .obj [("uiAmount", uiAmount)])])])])])]])])]

/-- No EVM payment, one token account of this many USDC, and a webhook that is accepted. -/
def sampleAnswers (usdc : ℤ) : Answers where
  evm := some none
  solana := fun mint =>
    if mint = "EPjFWdd5AufqSSqeM2qN1xzybapC8G4wEGGkZwyTDt1v" then
      some (accountReply (.int usdc))
    else some (.obj [])
  clock := 10
  webhook := some 200

theorem start_sampleSystem (orders : List OrderId) (h : orders.Nodup) :
    Start (sampleSystem orders h) where
  idle := fun _ => rfl
  confirmed := rfl
  ledger := rfl
  marks := by
    intro m hm a
    obtain rfl : m = sampleMerchant := by simpa [sampleSystem] using hm
    cases a <;> rfl
  unpaid := by
    intro o ho
    obtain ⟨id, -, rfl⟩ := List.mem_map.mp ho
    simp [sampleOrder]

/-- Two orders of $20 and one deposit of 20 USDC: the older order is paid, and claims the deposit
so that the younger one stays pending. -/
theorem solana_ledger_one_deposit :
    ∃ s, exec System.step (sampleSystem [1, 2] (by decide))
        [.begin 0 10 [sampleOrder 1, sampleOrder 2], .loadMerchants 0,
          .visit 0 (sampleAnswers 20), .push 0 .quiet, .visit 0 (sampleAnswers 20), .finish 0] =
        some s ∧
      s.orders.rows.map MerchantOrder.status = [.paid, .pending] ∧
      ∀ m ∈ s.merchants.rows, ∀ a,
        m.consumed a = ((s.solanaPaid m.id a).map fun o => o.paidAmount.getD 0).sum := by
  have hrun : ((exec System.step (sampleSystem [1, 2] (by decide))
      [.begin 0 10 [sampleOrder 1, sampleOrder 2], .loadMerchants 0,
        .visit 0 (sampleAnswers 20), .push 0 .quiet, .visit 0 (sampleAnswers 20), .finish 0]).map
      fun s => s.orders.rows.map MerchantOrder.status) = some [.paid, .pending] := by
    decide +kernel
  obtain ⟨s, hs, hst⟩ := Option.map_eq_some_iff.mp hrun
  refine ⟨s, hs, hst, ?_⟩
  have hpos : Run System.step PositiveOrders (sampleSystem [1, 2] (by decide)) _ s :=
    .of_exec_of_forall (by simp [PositiveOrders]) hs
  have run := (serial_of_exec (p := 0) (by simp [sampleSystem]) (by simp [Event.pass?]) hs).inter
    hpos
  refine (solana_ledger (start_sampleSystem _ _) ?_ run).1
  intro o ho
  obtain ⟨id, -, rfl⟩ := List.mem_map.mp ho
  norm_num [sampleOrder, Numeric.value]

end Gateway
