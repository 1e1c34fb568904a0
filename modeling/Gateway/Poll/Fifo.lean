import Gateway.Poll.Sequential
import Gateway.Poll.Sweep

/-!
# First come, first served

The loop of `poll_pending_orders` goes through the pending orders oldest first, so that of several
orders of one merchant on one Solana address the oldest takes what has arrived. `Completes` is a
pass from its first query to its commit, while other sessions do what they like. It is a sweep over
its orders (`sweepOf_of_completes`), whence `fifo_without_inversion`. Two things are not excluded:
an order with a negative amount gives back what it claims, and a watermark knows the claims of one
merchant only, not of the address (`fifo_inverted`).
-/

namespace Gateway

open Foundations Foundations.Decimal

/-! ## What a pass sees of an event -/

/-- No merchant disappears. -/
def KeepsMerchants (s s' : System) : Prop :=
  ∀ id m, s.merchants.find? id = some m → ∃ m', s'.merchants.find? id = some m'

theorem keepsMerchants_of_eq {s s' : System} (h : s'.merchants = s.merchants) :
    KeepsMerchants s s' :=
  fun _ m hm => ⟨m, by rw [h, hm]⟩

/-- What an event does to a pass that survives it. -/
inductive PassMove (p : PassId) (s : System) (pass : Pass) : Event → System → Pass → Prop
  /-- The event is another session's. -/
  | elsewhere {e s'} : (∀ a, e ≠ .visit p a) → KeepsMerchants s s' → PassMove p s pass e s' pass
  | load {s'} : pass.stage = .opened → s'.merchants = s.merchants →
      PassMove p s pass (.loadMerchants p) s'
        { pass with stage := .looping, merchants := s.loadedMerchants pass }
  | visit {a s' id rest t v} : pass.stage = .looping → s'.merchants = s.merchants →
      pass.todo = id :: rest → pass.orders id = some t →
      visitOrder pass.now a t.cur ((pass.merchants t.cur.merchantId).map Tracked.cur) = some v →
      PassMove p s pass (.visit p a) s' (pass.afterVisit id rest v)
  | mark {o s'} {broken : Bool} : pass.stage = .notifying → s'.merchants = s.merchants →
      PassMove p s pass (.push p o) s' { pass with stage := .looping, broken := broken }
  | saved {s'} : pass.stage = .notifying → s.canSave pass →
      s'.merchants = (s.save pass).merchants →
      PassMove p s pass (.push p .commits) s' { pass.synced with stage := .looping }

theorem keepsMerchants_save (s : System) (pass : Pass) {s' : System}
    (h : s'.merchants = (s.save pass).merchants) : KeepsMerchants s s' := by
  intro id m hm
  rw [h]
  exact SessionOk.find?_saved_merchants s pass hm

theorem PassMove.keepsMerchants {p : PassId} {s s' : System} {e : Event} {pass pass' : Pass}
    (h : PassMove p s pass e s' pass') : KeepsMerchants s s' := by
  cases h with
  | elsewhere _ hkeeps => exact hkeeps
  | load _ heq => exact keepsMerchants_of_eq heq
  | visit _ heq => exact keepsMerchants_of_eq heq
  | mark _ heq => exact keepsMerchants_of_eq heq
  | saved _ _ heq => exact keepsMerchants_save s pass heq

/-- A pass that runs after an event, and has not begun with it, has run before it. -/
theorem passMove_of_step {s s' : System} {e : Event} {p : PassId} {pass' : Pass}
    (h : s.step e = some s') (hbegin : ∀ now pending, e ≠ .begin p now pending)
    (hp : s'.passes p = some pass') :
    ∃ pass, s.passes p = some pass ∧ PassMove p s pass e s' pass' := by
  cases Move.of_step h with
  | none _ => exact ⟨pass', hp, .elsewhere (by simp) (keepsMerchants_of_eq rfl)⟩
  | begin _ _ =>
    rcases System.passes_setPass hp with ⟨rfl, -⟩ | ⟨-, hold⟩
    · exact absurd rfl (hbegin _ _)
    · exact ⟨pass', hold, .elsewhere (by simp) (keepsMerchants_of_eq rfl)⟩
  | load hq hstage =>
    rcases System.passes_setPass hp with ⟨rfl, rfl⟩ | ⟨-, hold⟩
    · exact ⟨_, hq, .load hstage rfl⟩
    · exact ⟨pass', hold, .elsewhere (by simp) (keepsMerchants_of_eq rfl)⟩
  | @visit q a pass id rest t v hq hstage htodo ht hv =>
    have hset : (s.setPass q (pass.afterVisit id rest v)).passes p = some pass' := by
      cases v <;> exact hp
    have hmerchants : (s.visited q pass id rest v).merchants = s.merchants := by
      cases v <;> rfl
    rcases System.passes_setPass hset with ⟨rfl, rfl⟩ | ⟨hne, hold⟩
    · exact ⟨pass, hq, .visit hstage hmerchants htodo ht hv⟩
    · refine ⟨pass', hold, .elsewhere ?_ (keepsMerchants_of_eq hmerchants)⟩
      intro a' he
      cases he
      exact hne rfl
  | raise _ _ =>
    obtain ⟨hne, hold⟩ := System.passes_endPass hp
    refine ⟨pass', hold, .elsewhere ?_ (keepsMerchants_of_eq rfl)⟩
    intro a' he
    cases he
    exact hne rfl
  | mark hq hstage _ =>
    rcases System.passes_setPass hp with ⟨rfl, rfl⟩ | ⟨-, hold⟩
    · exact ⟨_, hq, .mark hstage rfl⟩
    · exact ⟨pass', hold, .elsewhere (by simp) (keepsMerchants_of_eq rfl)⟩
  | @pushSave q pass hq hstage hsave =>
    rcases System.passes_setPass hp with ⟨rfl, rfl⟩ | ⟨-, hold⟩
    · exact ⟨pass, hq, .saved hstage hsave rfl⟩
    · exact ⟨pass', hold, .elsewhere (by simp) (keepsMerchants_save s pass rfl)⟩
  | @finishSave q pass _ _ =>
    obtain ⟨-, hold⟩ := System.passes_endPass hp
    exact ⟨pass', hold, .elsewhere (by simp) (keepsMerchants_save s pass rfl)⟩
  | finishLost _ _ =>
    exact ⟨pass', (System.passes_endPass hp).2, .elsewhere (by simp) (keepsMerchants_of_eq rfl)⟩
  | abort _ =>
    exact ⟨pass', (System.passes_endPass hp).2, .elsewhere (by simp) (keepsMerchants_of_eq rfl)⟩
  | other hother =>
    have hkeeps : KeepsMerchants s s' := by
      intro id m hm
      obtain ⟨m', hm', -⟩ := System.find?_merchants_other hother hm
      exact ⟨m', hm'⟩
    obtain ⟨-, orders, rfl, -⟩ := System.other_eq_some hother
    exact ⟨pass', hp, .elsewhere (by simp) hkeeps⟩

/-! ## The pass as a sweep -/

/-- The copy that a pass has of an order. -/
def Pass.copyOf (pass : Pass) (o : MerchantOrder) : MerchantOrder :=
  (pass.orders o.id).elim o Tracked.cur

/-- The copies that a pass has of the merchants. -/
def Pass.curMerchants (pass : Pass) (id : MerchantId) : Option Merchant :=
  (pass.merchants id).map Tracked.cur

/-- The answer to the visit that an event is, if it is one of this pass. -/
def Event.answer? (p : PassId) : Event → Option Answers
  | .visit q a => if q = p then some a else none
  | _ => none

/-- The answers to the visits of a pass. -/
def answersOf (p : PassId) (es : List Event) : List Answers := es.filterMap (Event.answer? p)

theorem Event.answer?_eq_none {p : PassId} {e : Event} (h : ∀ a, e ≠ .visit p a) :
    e.answer? p = none := by
  cases e with
  | visit q a =>
    apply if_neg
    rintro rfl
    exact h a rfl
  | _ => rfl

section Copies

variable {pass : Pass} {o : MerchantOrder} {t : Tracked MerchantOrder} {rest : List OrderId}
  {v : Visit}

theorem copyOf_of_orders (h : pass.orders o.id = some t) : pass.copyOf o = t.cur := by
  rw [Pass.copyOf, h]
  rfl

theorem copyOf_afterVisit_of_ne {id : OrderId} (h : o.id ≠ id) :
    (pass.afterVisit id rest v).copyOf o = pass.copyOf o := by
  cases v with
  | unpaid => rfl
  | expired o' => simp only [Pass.copyOf, Pass.afterVisit, Function.update_of_ne h]
  | paid o' m c => simp only [Pass.copyOf, Pass.afterVisit, Function.update_of_ne h]

theorem copyOf_afterVisit (h : pass.orders o.id = some t) (hcur : t.cur = o) :
    (pass.afterVisit o.id rest v).copyOf o = v.order o := by
  cases v with
  | unpaid => exact (copyOf_of_orders h).trans hcur
  | expired o' => simp [Pass.copyOf, Pass.afterVisit, h, Visit.order]
  | paid o' m c => simp [Pass.copyOf, Pass.afterVisit, h, Visit.order]

theorem curMerchants_afterVisit (id : OrderId) :
    (pass.afterVisit id rest v).curMerchants = v.merchants pass.curMerchants := by
  cases v with
  | unpaid => rfl
  | expired o' => rfl
  | paid o' m c =>
    cases m with
    | none => rfl
    | some m =>
      funext k
      simp only [Pass.curMerchants, Pass.afterVisit, Visit.merchants]
      by_cases hk : k = m.id
      · subst hk
        simp only [Function.update_self, Option.map_map]
        rfl
      · simp only [Function.update_of_ne hk]
        rfl

theorem curMerchants_synced (pass : Pass) : pass.synced.curMerchants = pass.curMerchants := by
  funext k
  simp only [Pass.curMerchants, Pass.synced, Option.map_map]
  rfl

theorem copyOf_synced (pass : Pass) (o : MerchantOrder) :
    pass.synced.copyOf o = pass.copyOf o := by
  simp only [Pass.copyOf, Pass.synced]
  cases pass.orders o.id <;> rfl

end Copies

/-- The pass has visited `done`, with these answers, as the sweep `w`, and has `rest` to visit. -/
structure Swept (now : Timestamp) (reads : MerchantId → Option Merchant)
    (done rest : List MerchantOrder) (answers : List Answers) (w : Sweep) (pass : Pass) : Prop where
  stage : pass.stage ≠ .opened
  now_eq : pass.now = now
  length_eq : done.length = answers.length
  swept : exec (Sweep.visit now) ⟨reads, []⟩ (done.zip answers) = some w
  orders : w.visits.map Prod.fst = done
  todo : pass.todo = rest.map MerchantOrder.id
  merchants : pass.curMerchants = w.merchants
  visited : ∀ x ∈ w.visits, pass.copyOf x.1 = x.2.order x.1
  waiting : ∀ o ∈ rest, pass.copyOf o = o

namespace Swept

variable {now : Timestamp} {reads : MerchantId → Option Merchant} {done rest : List MerchantOrder}
  {answers : List Answers} {w : Sweep} {pass pass' : Pass}

/-- Only the copies matter, and what is still to be visited. -/
theorem congr (h : Swept now reads done rest answers w pass) (hstage : pass'.stage ≠ .opened)
    (hnow : pass'.now = pass.now) (htodo : pass'.todo = pass.todo)
    (hmerchants : pass'.curMerchants = pass.curMerchants)
    (hcopies : ∀ o, pass'.copyOf o = pass.copyOf o) :
    Swept now reads done rest answers w pass' where
  stage := hstage
  now_eq := hnow.trans h.now_eq
  length_eq := h.length_eq
  swept := h.swept
  orders := h.orders
  todo := htodo.trans h.todo
  merchants := hmerchants.trans h.merchants
  visited := fun x hx => (hcopies x.1).trans (h.visited x hx)
  waiting := fun o ho => (hcopies o).trans (h.waiting o ho)

/-- The next visit is the next one of the sweep. -/
theorem visit (h : Swept now reads done rest answers w pass)
    (hnodup : ((done ++ rest).map MerchantOrder.id).Nodup) {id : OrderId} {todo : List OrderId}
    {t : Tracked MerchantOrder} {a : Answers} {v : Visit} (htodo : pass.todo = id :: todo)
    (ht : pass.orders id = some t)
    (hv : visitOrder pass.now a t.cur ((pass.merchants t.cur.merchantId).map Tracked.cur) =
      some v) :
    ∃ o rest' w', rest = o :: rest' ∧
      Swept now reads (done ++ [o]) rest' (answers ++ [a]) w' (pass.afterVisit id todo v) := by
  obtain ⟨o, rest', rfl, rfl, rfl⟩ := List.map_eq_cons_iff.mp (h.todo.symm.trans htodo)
  have hcur : t.cur = o := (copyOf_of_orders ht).symm.trans (h.waiting o List.mem_cons_self)
  rw [hcur, h.now_eq] at hv
  have hstep : w.visit now (o, a) = some ⟨v.merchants w.merchants, w.visits ++ [(o, v)]⟩ := by
    rw [Sweep.visit, ← h.merchants]
    exact Option.map_eq_some_iff.mpr ⟨v, hv, rfl⟩
  have hdone : ∀ o' ∈ done, o'.id ≠ o.id := by
    intro o' ho' he
    rw [List.map_append, List.nodup_append] at hnodup
    exact hnodup.2.2 _ (List.mem_map_of_mem ho') _ (List.mem_map_of_mem List.mem_cons_self) he
  have hrest : ∀ o' ∈ rest', o'.id ≠ o.id := by
    intro o' ho' he
    rw [List.map_append, List.map_cons, List.nodup_append] at hnodup
    exact (List.nodup_cons.mp hnodup.2.1).1 (he ▸ List.mem_map_of_mem ho')
  refine ⟨o, rest', ⟨v.merchants w.merchants, w.visits ++ [(o, v)]⟩, rfl, ?_⟩
  exact
    { stage := by
        have hstage := h.stage
        cases v with
        | paid o' m c => cases m <;> simp [Pass.afterVisit]
        | _ => exact hstage
      now_eq := by
        rw [← h.now_eq]
        cases v <;> rfl
      length_eq := by simp [h.length_eq]
      swept := by
        rw [List.zip_append h.length_eq, exec_append, h.swept, Option.bind_some, List.zip_cons_cons,
          List.zip_nil_left, exec_cons, hstep]
        rfl
      orders := by simp [h.orders]
      todo := by cases v <;> rfl
      merchants := by rw [curMerchants_afterVisit, h.merchants]
      visited := by
        intro x hx
        rcases List.mem_append.mp hx with hx | hx
        · have hmem : x.1 ∈ done := h.orders ▸ List.mem_map_of_mem hx
          rw [copyOf_afterVisit_of_ne (hdone _ hmem)]
          exact h.visited x hx
        · obtain rfl := List.mem_singleton.mp hx
          exact copyOf_afterVisit ht hcur
      waiting := by
        intro o' ho'
        rw [copyOf_afterVisit_of_ne (hrest o' ho')]
        exact h.waiting o' (List.mem_cons_of_mem _ ho') }

/-- **One event of a pass that goes on.** -/
theorem step (h : Swept now reads done rest answers w pass)
    (hnodup : ((done ++ rest).map MerchantOrder.id).Nodup) {p : PassId} {s s' : System} {e : Event}
    (hmove : PassMove p s pass e s' pass') :
    ∃ done' rest' w', done' ++ rest' = done ++ rest ∧
      Swept now reads done' rest' (answers ++ answersOf p [e]) w' pass' := by
  cases hmove with
  | elsewhere hother _ =>
    refine ⟨done, rest, w, rfl, ?_⟩
    rw [answersOf, List.filterMap_cons_none (Event.answer?_eq_none hother), List.filterMap_nil,
      List.append_nil]
    exact h
  | load hstage _ => exact absurd hstage h.stage
  | @visit a s' id todo t v _ _ htodo ht hv =>
    obtain ⟨o, rest', w', rfl, hswept⟩ := h.visit hnodup htodo ht hv
    refine ⟨done ++ [o], rest', w', by simp, ?_⟩
    simpa [answersOf, Event.answer?] using hswept
  | mark _ _ =>
    refine ⟨done, rest, w, rfl, ?_⟩
    rw [answersOf, List.filterMap_cons_none rfl, List.filterMap_nil, List.append_nil]
    exact h.congr (by simp) rfl rfl rfl fun _ => rfl
  | saved _ _ _ =>
    refine ⟨done, rest, w, rfl, ?_⟩
    rw [answersOf, List.filterMap_cons_none rfl, List.filterMap_nil, List.append_nil]
    exact h.congr (by simp) rfl rfl (curMerchants_synced pass) (copyOf_synced pass)

end Swept

/-! ## Passes that complete -/

/-- A pass over these orders from its first query to its commit: it reads its orders at `s`, its
merchants at `s₁`, and commits at `s₂`. Events of other sessions come in between. -/
structure Completes (p : PassId) (now : Timestamp) (pending : List MerchantOrder)
    (es₁ es₂ : List Event) (s s₁ s₂ : System) (pass : Pass) : Prop where
  opens : exec System.step s (.begin p now pending :: es₁) = some s₁
  loops : exec System.step s₁ (.loadMerchants p :: es₂) = some s₂
  once : ∀ e ∈ es₁ ++ es₂, ∀ now' pending', e ≠ .begin p now' pending'
  running : s₂.passes p = some pass
  finishes : pass.stage = .looping ∧ pass.todo = []
  saves : s₂.canSave pass

/-- The watermarks of the merchant are values of their columns. -/
def Merchant.MarksInColumn (m : Merchant) : Prop :=
  ∀ b, ∃ x : Numeric 24 10, m.consumed b = x.value

theorem Merchant.MarksInColumn.scaled {m : Merchant} (h : m.MarksInColumn) (b : Asset) :
    Scaled 10 (m.consumed b) := by
  obtain ⟨x, hx⟩ := h b
  rw [hx]
  exact Scaled.numeric x

theorem Merchant.MarksInColumn.abs_lt {m : Merchant} (h : m.MarksInColumn) (b : Asset) :
    |m.consumed b| < 10 ^ 14 := by
  obtain ⟨x, hx⟩ := h b
  rw [hx]
  exact x.abs_value_lt (by norm_num)

/-- The watermarks that the pass has read or committed are in the range of their columns. -/
def BasesFit (s : System) (pass : Pass) : Prop :=
  ∀ id t, pass.merchants id = some t → (∃ m, s.merchants.find? id = some m) ∧
    ∀ b, t.base.consumed b < 10 ^ 14

/-- What can be committed on top of them is so too. -/
theorem BasesFit.cur_lt {s : System} {pass : Pass} (h : BasesFit s pass) (hsave : s.canSave pass)
    {id : MerchantId} {t : Tracked Merchant} (ht : pass.merchants id = some t) (b : Asset) :
    t.cur.consumed b < 10 ^ 14 := by
  obtain ⟨⟨m, hm⟩, hbase⟩ := h id t ht
  exact Merchant.lt_of_fits (fits_of_canSave hsave ht hm) (hbase b)

theorem BasesFit.step {p : PassId} {s s' : System} {e : Event} {pass pass' : Pass}
    (h : BasesFit s pass) (hstage : pass.stage ≠ .opened) (hmove : PassMove p s pass e s' pass') :
    BasesFit s' pass' := by
  have hkeeps := hmove.keepsMerchants
  have hkept : ∀ {id t}, pass.merchants id = some t → ∃ m, s'.merchants.find? id = some m := by
    intro id t ht
    obtain ⟨⟨m, hm⟩, -⟩ := h id t ht
    exact hkeeps id m hm
  cases hmove with
  | elsewhere _ _ => exact fun id t ht => ⟨hkept ht, (h id t ht).2⟩
  | load hopened _ => exact absurd hopened hstage
  | visit _ _ _ _ _ =>
    intro id t' ht'
    rcases Pass.merchants_afterVisit ht' with ht | ⟨t, _, _, _, -, -, ht, rfl⟩
    · exact ⟨hkept ht, (h id t' ht).2⟩
    · exact ⟨hkept ht, (h id t ht).2⟩
  | mark _ _ => exact fun id t ht => ⟨hkept ht, (h id t ht).2⟩
  | saved _ hsave _ =>
    intro id t' ht'
    obtain ⟨t, ht, rfl⟩ := Option.map_eq_some_iff.mp ht'
    exact ⟨hkept ht, h.cur_lt hsave ht⟩

/-- The pass, if it still runs, is a sweep over its orders that has had these answers. -/
def SweepsOn (p : PassId) (now : Timestamp) (pending : List MerchantOrder)
    (reads : MerchantId → Option Merchant) (answers : List Answers) (s : System) : Prop :=
  ∀ pass, s.passes p = some pass → BasesFit s pass ∧
    ∃ done rest w, done ++ rest = pending ∧ Swept now reads done rest answers w pass

section Run

variable {p : PassId} {now : Timestamp} {pending : List MerchantOrder} {es : List Event}
  {s s' : System}

/-- **A pass stays a sweep**, whatever happens. -/
theorem sweepsOn_of_exec {reads : MerchantId → Option Merchant} {answers : List Answers}
    (hnodup : (pending.map MerchantOrder.id).Nodup)
    (honce : ∀ e ∈ es, ∀ now' pending', e ≠ .begin p now' pending')
    (h : exec System.step s es = some s') (hs : SweepsOn p now pending reads answers s) :
    SweepsOn p now pending reads (answers ++ answersOf p es) s' := by
  induction es generalizing s answers with
  | nil =>
    cases h
    simpa [answersOf] using hs
  | cons e es ih =>
    obtain ⟨s₁, h₁, h⟩ := Option.bind_eq_some_iff.mp h
    have hs₁ : SweepsOn p now pending reads (answers ++ answersOf p [e]) s₁ := by
      intro pass' hp'
      obtain ⟨pass, hp, hmove⟩ := passMove_of_step h₁ (honce e List.mem_cons_self) hp'
      obtain ⟨hfit, done, rest, w, rfl, hswept⟩ := hs pass hp
      exact ⟨hfit.step hswept.stage hmove, hswept.step hnodup hmove⟩
    have hsplit : answers ++ answersOf p (e :: es) =
        answers ++ answersOf p [e] ++ answersOf p es := by
      rw [List.append_assoc, answersOf, answersOf, answersOf, ← List.filterMap_append,
        List.singleton_append]
    rw [hsplit]
    exact ih (fun e he => honce e (List.mem_cons_of_mem _ he)) h hs₁

/-- The pass, if it still runs, is as it was opened at `s₀`, or has read its merchants. -/
def OpenedAt (s₀ : System) (p : PassId) (now : Timestamp) (pending : List MerchantOrder)
    (s : System) : Prop :=
  ∀ pass, s.passes p = some pass →
    (pass = System.openPass now pending ∧ s₀.isPendingList pending) ∨ pass.stage ≠ .opened

theorem OpenedAt.step {s₀ : System} {e : Event} (h : OpenedAt s₀ p now pending s)
    (hbegin : ∀ now' pending', e ≠ .begin p now' pending') (hstep : s.step e = some s') :
    OpenedAt s₀ p now pending s' := by
  intro pass' hp'
  obtain ⟨pass, hp, hmove⟩ := passMove_of_step hstep hbegin hp'
  cases hmove with
  | elsewhere _ _ => exact h _ hp
  | load _ _ => exact .inr (by simp)
  | @visit _ _ _ _ _ v hlooping _ _ _ _ =>
    right
    cases v with
    | paid o' m c => cases m <;> simp [Pass.afterVisit]
    | _ => simp [Pass.afterVisit, hlooping]
  | mark _ _ => exact .inr (by simp)
  | saved _ _ _ => exact .inr (by simp)

/-- Until it has read its merchants, a pass is as it was opened. -/
theorem opened_of_exec (honce : ∀ e ∈ es, ∀ now' pending', e ≠ .begin p now' pending')
    (h : exec System.step s (.begin p now pending :: es) = some s') {pass : Pass}
    (hp : s'.passes p = some pass) (hstage : pass.stage = .opened) :
    pass = System.openPass now pending ∧ s.isPendingList pending := by
  obtain ⟨s₁, h₁, h⟩ := Option.bind_eq_some_iff.mp h
  have hbegun : OpenedAt s p now pending s₁ := by
    intro pass hp
    cases Move.of_step h₁ with
    | none hnone =>
      rw [hnone] at hp
      cases hp
    | begin _ hpending =>
      rcases System.passes_setPass hp with ⟨-, rfl⟩ | ⟨hne, -⟩
      · exact .inl ⟨rfl, hpending⟩
      · exact absurd rfl hne
  have run : Run System.step (fun _ e => ∀ now' pending', e ≠ .begin p now' pending') s₁ es s' :=
    .of_exec_of_forall (fun e he _ => honce e he) h
  have hopened : OpenedAt s p now pending s' :=
    run.invariant (fun _ _ _ ht hbegin hstep => ht.step hbegin hstep) hbegun
  rcases hopened pass hp with hopen | hne
  · exact hopen
  · exact absurd hstage hne

theorem copyOf_openPass (hnodup : (pending.map MerchantOrder.id).Nodup) (now : Timestamp)
    {o : MerchantOrder} (ho : o ∈ pending) : (System.openPass now pending).copyOf o = o := by
  have hfind : (pending.find? fun o' => o'.id = o.id) = some o := by
    cases hf : pending.find? fun o' => o'.id = o.id with
    | none =>
      have := List.find?_eq_none.mp hf o ho
      simp at this
    | some o' =>
      have hid : o'.id = o.id := by simpa using List.find?_some hf
      rw [List.inj_on_of_nodup_map hnodup (List.mem_of_find?_eq_some hf) ho hid]
  simp only [Pass.copyOf, System.openPass, hfind]
  rfl

end Run

/-- The merchants as a pass reads them. -/
def System.readMerchants (s : System) (pass : Pass) (id : MerchantId) : Option Merchant :=
  (s.loadedMerchants pass id).map Tracked.cur

theorem System.find?_of_loadedMerchants {s : System} {pass : Pass} {id : MerchantId}
    {t : Tracked Merchant} (h : s.loadedMerchants pass id = some t) :
    ∃ m, s.merchants.find? id = some m ∧ t = Tracked.load m := by
  unfold loadedMerchants at h
  split_ifs at h
  obtain ⟨m, hm, rfl⟩ := Option.map_eq_some_iff.mp h
  exact ⟨m, hm, rfl⟩

theorem System.find?_of_readMerchants {s : System} {pass : Pass} {id : MerchantId} {m : Merchant}
    (h : s.readMerchants pass id = some m) : s.merchants.find? id = some m := by
  obtain ⟨t, ht, rfl⟩ := Option.map_eq_some_iff.mp h
  obtain ⟨m, hm, rfl⟩ := find?_of_loadedMerchants ht
  exact hm

section Completes

variable {p : PassId} {now : Timestamp} {pending : List MerchantOrder} {es₁ es₂ : List Event}
  {s s₁ s₂ : System} {pass : Pass} {entries : String → Asset → List Json}

/-- A pass that has just read its merchants. -/
theorem sweepsOn_loaded (hnodup : (pending.map MerchantOrder.id).Nodup)
    (hcolumn : ∀ m ∈ s₁.merchants.rows, m.MarksInColumn) :
    SweepsOn p now pending (s₁.readMerchants (System.openPass now pending)) []
      (s₁.setPass p { System.openPass now pending with
        stage := .looping, merchants := s₁.loadedMerchants (System.openPass now pending) }) := by
  intro pass hp
  rcases System.passes_setPass hp with ⟨-, rfl⟩ | ⟨hne, -⟩
  · refine ⟨fun k t ht => ?_, [], pending,
      ⟨s₁.readMerchants (System.openPass now pending), []⟩, rfl, ?_⟩
    · obtain ⟨m, hm, rfl⟩ := System.find?_of_loadedMerchants ht
      have hrange := hcolumn m (Table.find?_eq_some.mp hm).1
      exact ⟨⟨m, hm⟩, fun b => (abs_lt.mp (hrange.abs_lt b)).2⟩
    · exact
        { stage := by simp
          now_eq := rfl
          length_eq := rfl
          swept := rfl
          orders := rfl
          todo := rfl
          merchants := rfl
          visited := by simp
          waiting := fun o ho => copyOf_openPass hnodup now ho }
  · exact absurd rfl hne

/-- A sweep over the orders of a pass, with the answers that it had: from merchants as they are
stored at `s₁` to the copies of the pass. -/
structure SweepOf (now : Timestamp) (xs : List (MerchantOrder × Answers)) (s₁ : System)
    (pass : Pass) (reads : MerchantId → Option Merchant) (w : Sweep) : Prop where
  stored : ∀ k m, reads k = some m → s₁.merchants.find? k = some m
  pending : ∀ x ∈ xs, x.1.status = .pending
  swept : exec (Sweep.visit now) ⟨reads, []⟩ xs = some w
  copies : ∀ x ∈ w.visits, pass.copyOf x.1 = x.2.order x.1
  range : ∀ k, w.mark k < 10 ^ 14

/-- **A pass that completes is a sweep** over its orders, on the merchants as it has read them. -/
theorem sweepOf_of_completes (h : Completes p now pending es₁ es₂ s s₁ s₂ pass)
    (hcolumn : ∀ m ∈ s₁.merchants.rows, m.MarksInColumn) :
    (pending.zip (answersOf p es₂)).map Prod.fst = pending ∧
      ∃ reads w, SweepOf now (pending.zip (answersOf p es₂)) s₁ pass reads w := by
  obtain ⟨s', hload, hloop⟩ := Option.bind_eq_some_iff.mp h.loops
  cases Move.of_step hload with
  | load hp hstage =>
    obtain ⟨rfl, hpending⟩ := opened_of_exec
      (fun e he => h.once e (List.mem_append_left _ he)) h.opens hp hstage
    have hnodup := System.nodup_of_isPendingList hpending
    obtain ⟨hfit, done, rest, w, hsplit, hswept⟩ := sweepsOn_of_exec hnodup
      (fun e he => h.once e (List.mem_append_right _ he)) hloop (sweepsOn_loaded hnodup hcolumn)
      pass h.running
    obtain rfl : rest = [] := List.map_eq_nil_iff.mp (hswept.todo.symm.trans h.finishes.2)
    obtain rfl : done = pending := by simpa using hsplit
    have hfst : (done.zip (answersOf p es₂)).map Prod.fst = done :=
      List.map_fst_zip hswept.length_eq.le
    refine ⟨hfst, s₁.readMerchants (System.openPass now done), w, ?_⟩
    exact
      { stored := fun k m hm => System.find?_of_readMerchants hm
        pending := by
          intro x hx
          have hmem : x.1 ∈ done := hfst ▸ List.mem_map_of_mem hx
          exact (System.mem_of_isPendingList hpending hmem).2
        swept := hswept.swept
        copies := hswept.visited
        range := by
          intro k
          rw [Sweep.mark, ← hswept.merchants, Pass.curMerchants]
          cases ht : pass.merchants k.1 with
          | none => norm_num
          | some t => exact hfit.cur_lt h.saves ht k.2 }

namespace SweepOf

variable {reads : MerchantId → Option Merchant} {w : Sweep}
  {pre mid post : List (MerchantOrder × Answers)}
  (hcolumn : ∀ m ∈ s₁.merchants.rows, m.MarksInColumn)

include hcolumn

/-- The merchants that a pass reads are where they belong, with numbers of the context. -/
theorem ok {xs : List (MerchantOrder × Answers)} (h : SweepOf now xs s₁ pass reads w) :
    Sweep.Ok ⟨reads, []⟩ where
  id_eq := fun k m hm => (Table.find?_eq_some.mp (h.stored k m hm)).2
  representable := by
    intro k
    cases hm : reads k.1 with
    | none =>
      rw [show Sweep.mark ⟨reads, []⟩ k = 0 by simp [Sweep.mark, hm]]
      exact Context.representable_zero
    | some m =>
      rw [Sweep.mark_of_merchants hm]
      have hrange := hcolumn m (Table.find?_eq_some.mp (h.stored _ m hm)).1
      exact representable_of_scaled (s := 10) (by norm_num) (hrange.scaled k.2)
        ((hrange.abs_lt k.2).trans (by norm_num))

/-- An order that is paid leaves no earlier one pending. -/
theorem older_not_pending {older newer : MerchantOrder × Answers}
    (h : SweepOf now (pre ++ older :: (mid ++ newer :: post)) s₁ pass reads w)
    (hsteady : ∀ x ∈ pre ++ older :: (mid ++ newer :: post), SteadyAnswers now entries x)
    (hmerchant : older.1.merchantId = newer.1.merchantId)
    (haddress : older.1.solanaAddress = newer.1.solanaAddress)
    (hpos : 0 < older.1.amountUsd.value)
    (hle : older.1.amountUsd.value ≤ newer.1.amountUsd.value)
    (hnonneg : ∀ x ∈ mid, x.1.merchantId = older.1.merchantId → 0 ≤ x.1.amountUsd.value)
    (hpaid : (pass.copyOf newer.1).PaidOnSolana) : (pass.copyOf older.1).status ≠ .pending := by
  have hfrom : ∀ x ∈ older :: mid, x.1.merchantId = older.1.merchantId →
      0 ≤ x.1.amountUsd.value := by
    intro x hx hid
    rcases List.mem_cons.mp hx with rfl | hx
    · exact hpos.le
    · exact hnonneg x hx hid
  obtain ⟨v, v', hv, hv', hkept⟩ := Sweep.paid_of_later (h.ok hcolumn) h.pending hsteady hfrom
    hmerchant haddress hle h.swept
  rw [h.copies _ hv'] at hpaid
  rw [h.copies _ hv]
  exact hkept hpaid

/-- What satisfies an order is left over after the claims before it. -/
theorem left_over {x : MerchantOrder × Answers}
    (h : SweepOf now (pre ++ x :: post) s₁ pass reads w)
    (hsteady : SteadyAnswers now entries x) (hpaid : (pass.copyOf x.1).PaidOnSolana) :
    ∃ b m, (pass.copyOf x.1).paidAsset = some b ∧ s₁.merchants.find? x.1.merchantId = some m ∧
      LeftOver entries x.1 b (m.consumed b)
        (claimsOf (pre.map fun y => pass.copyOf y.1) (x.1.merchantId, b)) ∧
      ((∀ y ∈ pre ++ x :: post, y.1.merchantId = x.1.merchantId → 0 ≤ y.1.amountUsd.value) →
        0 < x.1.amountUsd.value → 0 ≤ m.consumed b →
        (∀ ui ∈ entries (x.1.solanaAddress.getD "") b, ui.number?.isSome) →
        ExactlyLeftOver entries x.1 b (m.consumed b)
          (claimsOf (pre.map fun y => pass.copyOf y.1) (x.1.merchantId, b)) ∧
        ∀ q ∈ claimsOf (pre.map fun y => pass.copyOf y.1) (x.1.merchantId, b), 0 ≤ q) := by
  have hok := h.ok hcolumn
  obtain ⟨w₁, vs, v, vs', hv, hcovers, hrest⟩ := Sweep.covers_around hok h.pending h.swept
  have hvisits : w.visits = vs ++ (x.1, v) :: vs' := by
    rw [hrest.visits, hcovers.visits, List.nil_append]
  have hcopies : ordersAfter vs = pre.map fun y => pass.copyOf y.1 := by
    have horders := congrArg (List.map pass.copyOf) hcovers.orders
    rw [List.map_map, List.map_map] at horders
    apply Eq.trans _ horders
    refine List.map_congr_left fun y hy => ?_
    exact (h.copies y (by rw [hvisits]; exact List.mem_append_left _ hy)).symm
  rw [h.copies (x.1, v) (by simp [hvisits])] at hpaid ⊢
  obtain ⟨hsome, b, hasset, hleft⟩ := Sweep.left_over_of_paid hcovers (h.pending x (by simp))
    hsteady hv hpaid
  obtain ⟨m, hm⟩ := Option.isSome_iff_exists.mp hsome
  have hstored := h.stored _ m hm
  have hcol := hcolumn m (Table.find?_eq_some.mp hstored).1
  have hmark : Sweep.mark ⟨reads, []⟩ (x.1.merchantId, b) = m.consumed b :=
    Sweep.mark_of_merchants hm b
  refine ⟨b, m, hasset, hstored, ?_, fun hnonneg hpos h0 hnumbers => ?_⟩
  · rw [← hmark, ← hcopies]
    exact hleft
  · rw [← hmark] at h0
    rw [← hmark, ← hcopies]
    refine ⟨Sweep.exactly_left_over hok hcovers hrest hnonneg hpos (hmark ▸ hcol.scaled b) h0
      ((h.range _).trans (by norm_num)) hnumbers hleft, fun q hq => ?_⟩
    obtain ⟨y, hy, hid, rfl⟩ := hcovers.claims _ q hq
    exact hnonneg y (List.mem_append_left _ hy) hid

end SweepOf

/-- What is left over after more claims is left over after fewer. -/
theorem ExactlyLeftOver.mono {o : MerchantOrder} {b : Asset} {consumed : ℚ} {claims claims' : List ℚ}
    (h : ExactlyLeftOver entries o b consumed claims) (hsub : claims'.Sublist claims)
    (hnonneg : ∀ q ∈ claims, 0 ≤ q) : ExactlyLeftOver entries o b consumed claims' := by
  obtain ⟨ui, hui, balance, hb, hle⟩ := h
  have hsum := hsub.sum_le_sum hnonneg
  exact ⟨ui, hui, balance, hb, by linarith⟩

/-- **First come, first served.** In a pass that completes, with every Solana query answered and
steady balances, an order that is paid on Solana leaves no earlier order of the merchant pending
that has the same address and a positive amount that is not larger, as long as no order of the
merchant between them is negative. What satisfies an order is left over after the watermark and the
claims made on it before in the pass; exactly so, when the merchant's orders are not negative; and
then, as long as no order of another merchant with the same address has been paid before in the
pass, after the claims of all the orders that have been paid behind the address. -/
theorem fifo_without_inversion (h : Completes p now pending es₁ es₂ s s₁ s₂ pass)
    (hcolumn : ∀ m ∈ s₁.merchants.rows, m.MarksInColumn)
    (hsteady : ∀ x ∈ pending.zip (answersOf p es₂), SteadyAnswers now entries x) :
    (∀ pre older mid newer post, pending = pre ++ older :: (mid ++ newer :: post) →
      older.merchantId = newer.merchantId → older.solanaAddress = newer.solanaAddress →
      0 < older.amountUsd.value → older.amountUsd.value ≤ newer.amountUsd.value →
      (∀ o ∈ mid, o.merchantId = older.merchantId → 0 ≤ o.amountUsd.value) →
      (pass.copyOf newer).PaidOnSolana → (pass.copyOf older).status ≠ .pending) ∧
    (∀ pre o post, pending = pre ++ o :: post → (pass.copyOf o).PaidOnSolana →
      ∃ b m, (pass.copyOf o).paidAsset = some b ∧ s₁.merchants.find? o.merchantId = some m ∧
        LeftOver entries o b (m.consumed b)
          (claimsOf (pre.map pass.copyOf) (o.merchantId, b)) ∧
        ((∀ o' ∈ pending, o'.merchantId = o.merchantId → 0 ≤ o'.amountUsd.value) →
          0 < o.amountUsd.value → 0 ≤ m.consumed b →
          (∀ ui ∈ entries (o.solanaAddress.getD "") b, ui.number?.isSome) →
          ExactlyLeftOver entries o b (m.consumed b)
            (claimsOf (pre.map pass.copyOf) (o.merchantId, b)) ∧
          ((∀ o' ∈ pre.map pass.copyOf, o'.PaidOnSolana → o'.solanaAddress = o.solanaAddress →
              o'.merchantId = o.merchantId) →
            ExactlyLeftOver entries o b (m.consumed b)
              (claimsAt (pre.map pass.copyOf) o.solanaAddress b)))) := by
  obtain ⟨hfst, reads, w, hsweep⟩ := sweepOf_of_completes h hcolumn
  constructor
  · intro pre older mid newer post hsplit hmerchant haddress hpos hle hnonneg hpaid
    obtain ⟨xs, _, hxs, -, holder⟩ := List.map_eq_append_iff.mp (hfst.trans hsplit)
    obtain ⟨x, _, rfl, rfl, hrest⟩ := List.map_eq_cons_iff.mp holder
    obtain ⟨ys, _, rfl, rfl, hnewer⟩ := List.map_eq_append_iff.mp hrest
    obtain ⟨y, zs, rfl, rfl, -⟩ := List.map_eq_cons_iff.mp hnewer
    rw [hxs] at hsteady hsweep
    apply hsweep.older_not_pending hcolumn hsteady hmerchant haddress hpos hle _ hpaid
    intro z hz hid
    exact hnonneg z.1 (List.mem_map_of_mem hz) hid
  · intro pre o post hsplit hpaid
    obtain ⟨xs, _, hxs, rfl, ho⟩ := List.map_eq_append_iff.mp (hfst.trans hsplit)
    obtain ⟨x, zs, rfl, rfl, -⟩ := List.map_eq_cons_iff.mp ho
    rw [hxs] at hsteady hsweep hfst
    obtain ⟨b, m, hasset, hstored, hleft, hexact⟩ :=
      hsweep.left_over hcolumn (hsteady x (by simp)) hpaid
    rw [List.map_map]
    refine ⟨b, m, hasset, hstored, hleft, fun hnonneg hpos h0 hnumbers => ?_⟩
    have hmem : ∀ y ∈ xs ++ x :: zs, y.1 ∈ pending := by
      intro y hy
      rw [← hfst]
      exact List.mem_map_of_mem hy
    obtain ⟨hleft, hclaims⟩ :=
      hexact (fun y hy hid => hnonneg y.1 (hmem y hy) hid) hpos h0 hnumbers
    exact ⟨hleft, fun hown => hleft.mono (claimsAt_sublist hown b) hclaims⟩

end Completes

/-! ### Passes without another session -/

/-- What a pass has made of an order. -/
structure PassResult where
  status : Status
  paidChain : Option PaidChain
  claimed : List ((MerchantId × Asset) × ℚ)
  deriving DecidableEq

/-- What a pass has made of the order. -/
def MerchantOrder.passResult (o : MerchantOrder) : PassResult := ⟨o.status, o.paidChain, o.claimed⟩

/-- Two merchants with one Solana address, and these orders. -/
def sharedAddress (orders : List MerchantOrder) (h : (orders.map MerchantOrder.id).Nodup) :
    System where
  orders := ⟨orders, h⟩
  merchants := ⟨[sampleMerchant, { sampleMerchant with id := 2 }], by simp [sampleMerchant]⟩
  passes := fun _ => none
  confirmed := []
  ledger := []

/-- A pass over these orders up to its commit, and what it has made of them. -/
def loneSweep (orders : List MerchantOrder) (h : (orders.map MerchantOrder.id).Nodup)
    (es : List Event) : Option (List PassResult) :=
  (exec System.step (sharedAddress orders h) (.begin 0 10 orders :: .loadMerchants 0 :: es)).bind
    fun s => (s.passes 0).bind fun pass =>
      if pass.stage = .looping ∧ pass.todo = [] ∧ s.canSave pass then
        some (orders.map fun o => (pass.copyOf o).passResult)
      else none

theorem completes_of_loneSweep {orders : List MerchantOrder}
    {h : (orders.map MerchantOrder.id).Nodup} {es : List Event}
    (honce : ∀ e ∈ es, ∀ now' pending', e ≠ .begin 0 now' pending')
    {r : List PassResult} (hr : loneSweep orders h es = some r) :
    ∃ s₁ s₂ pass, Completes 0 10 orders [] es (sharedAddress orders h) s₁ s₂ pass ∧
      (∀ m ∈ s₁.merchants.rows, m.MarksInColumn ∧ ∀ b, m.consumed b = 0) ∧
      (orders.map fun o => (pass.copyOf o).passResult) = r := by
  unfold loneSweep at hr
  obtain ⟨s₂, hexec, hr⟩ := Option.bind_eq_some_iff.mp hr
  obtain ⟨pass, hp, hr⟩ := Option.bind_eq_some_iff.mp hr
  split_ifs at hr with hfin
  obtain ⟨s₁, hbegin, hloops⟩ := Option.bind_eq_some_iff.mp hexec
  have hmerchants : s₁.merchants = (sharedAddress orders h).merchants := by
    cases Move.of_step hbegin <;> rfl
  refine ⟨s₁, s₂, pass, ⟨?_, hloops, honce, hp, ⟨hfin.1, hfin.2.1⟩, hfin.2.2⟩, ?_,
    Option.some.inj hr⟩
  · rw [exec_cons, hbegin]
    rfl
  · intro m hm
    have hzero : ∀ b, m.consumed b = 0 := by
      intro b
      simp only [hmerchants, sharedAddress, List.mem_cons, List.not_mem_nil, or_false] at hm
      rcases hm with rfl | rfl <;> cases b <;> rfl
    exact ⟨fun b => ⟨⟨0, by norm_num⟩, by simp [hzero b, Numeric.value]⟩, hzero⟩

/-- One token account of USDC behind every address. -/
def usdcEntry (usdc : ℤ) (_ : String) : Asset → List Json
  | .usdc => [.int usdc]
  | .usdt => []

theorem steadyAnswers_sample (now : Timestamp) (usdc : ℤ) (o : MerchantOrder) :
    SteadyAnswers now (usdcEntry usdc) (o, sampleAnswers usdc) := by
  intro _ _ _
  refine ⟨usdcEntry usdc "", fun _ => .refl _, fun y hy => ?_⟩
  simp only [solanaStablecoinMints, List.mem_cons, List.not_mem_nil, or_false] at hy
  rcases hy with rfl | rfl <;> rfl

/-- Two orders and enough for both: the older one is paid too, and the younger one by what it has
left over. -/
theorem fifo_without_inversion_two : ∃ s₁ s₂ pass,
    Completes 0 10 [sampleOrder 1, sampleOrder 2] []
      [.visit 0 (sampleAnswers 40), .push 0 .quiet, .visit 0 (sampleAnswers 40), .push 0 .quiet]
      (sharedAddress [sampleOrder 1, sampleOrder 2] (by decide)) s₁ s₂ pass ∧
    (pass.copyOf (sampleOrder 1)).status ≠ .pending ∧
    ∃ b, ExactlyLeftOver (usdcEntry 40) (sampleOrder 2) b 0
      (claimsOf [pass.copyOf (sampleOrder 1)] (1, b)) := by
  have hrun : loneSweep [sampleOrder 1, sampleOrder 2] (by decide)
      [.visit 0 (sampleAnswers 40), .push 0 .quiet, .visit 0 (sampleAnswers 40),
        .push 0 .quiet] = some [⟨.paid, some .solana, [((1, .usdc), 20)]⟩,
          ⟨.paid, some .solana, [((1, .usdc), 20)]⟩] := by decide +kernel
  obtain ⟨s₁, s₂, pass, hcompletes, hmerchants, hcopies⟩ := completes_of_loneSweep (by simp) hrun
  simp only [List.map_cons, List.map_nil, List.cons.injEq, MerchantOrder.passResult,
    PassResult.mk.injEq, and_true] at hcopies
  have hpaid : (pass.copyOf (sampleOrder 2)).PaidOnSolana := ⟨hcopies.2.1, hcopies.2.2.1⟩
  have hamount : (0 : ℚ) < (sampleOrder 1).amountUsd.value := by
    norm_num [sampleOrder, Numeric.value]
  have hsteady : ∀ x ∈ [sampleOrder 1, sampleOrder 2].zip (answersOf 0
      [.visit 0 (sampleAnswers 40), .push 0 .quiet, .visit 0 (sampleAnswers 40),
        .push 0 .quiet]), SteadyAnswers 10 (usdcEntry 40) x := by
    intro x hx
    have hx : x ∈ [(sampleOrder 1, sampleAnswers 40), (sampleOrder 2, sampleAnswers 40)] := hx
    simp only [List.mem_cons, List.not_mem_nil, or_false] at hx
    rcases hx with rfl | rfl <;> exact steadyAnswers_sample _ _ _
  obtain ⟨hkept, hleft⟩ := fifo_without_inversion hcompletes (fun m hm => (hmerchants m hm).1)
    hsteady
  refine ⟨s₁, s₂, pass, hcompletes,
    hkept [] (sampleOrder 1) [] (sampleOrder 2) [] rfl rfl rfl hamount le_rfl (by simp) hpaid, ?_⟩
  obtain ⟨b, m, -, hm, -, hexact⟩ := hleft [sampleOrder 1] (sampleOrder 2) [] rfl hpaid
  have hzero := (hmerchants m (Table.find?_eq_some.mp hm).1).2 b
  rw [hzero] at hexact
  refine ⟨b, (hexact ?_ hamount le_rfl ?_).1⟩
  · intro o ho _
    simp only [List.mem_cons, List.not_mem_nil, or_false] at ho
    rcases ho with rfl | rfl <;> exact hamount.le
  · cases b <;> simp [usdcEntry, Json.number?]

/-- An order of -$100. -/
def refundOrder : MerchantOrder := { sampleOrder 2 with amountUsd := ⟨-10000, by norm_num⟩ }

/-- An order of another merchant with the same address. -/
def neighbourOrder : MerchantOrder := { sampleOrder 2 with merchantId := 2 }

/-- An order that gives back $100 is paid by an empty account, and then so is a younger order of
$20, while an older one is left pending. Two orders of two merchants with one address are both paid
by the same $20. -/
theorem fifo_inverted :
    (∃ s₁ s₂ pass,
      Completes 0 10 [sampleOrder 1, refundOrder, sampleOrder 3] []
        [.visit 0 (sampleAnswers 0), .visit 0 (sampleAnswers 0), .push 0 .quiet,
          .visit 0 (sampleAnswers 0), .push 0 .quiet]
        (sharedAddress [sampleOrder 1, refundOrder, sampleOrder 3] (by decide)) s₁ s₂ pass ∧
      (∀ m ∈ s₁.merchants.rows, m.MarksInColumn) ∧
      (∀ o, SteadyAnswers 10 (usdcEntry 0) (o, sampleAnswers 0)) ∧
      (sampleOrder 1).merchantId = (sampleOrder 3).merchantId ∧
      (sampleOrder 1).solanaAddress = (sampleOrder 3).solanaAddress ∧
      10 < (sampleOrder 1).expiresAt ∧ 10 < (sampleOrder 3).expiresAt ∧
      0 < (sampleOrder 1).amountUsd.value ∧
      (sampleOrder 1).amountUsd.value ≤ (sampleOrder 3).amountUsd.value ∧
      (pass.copyOf (sampleOrder 3)).PaidOnSolana ∧
      (pass.copyOf (sampleOrder 1)).status = .pending) ∧
    (∃ s₁ s₂ pass,
      Completes 0 10 [sampleOrder 1, neighbourOrder] []
        [.visit 0 (sampleAnswers 20), .push 0 .quiet, .visit 0 (sampleAnswers 20), .push 0 .quiet]
        (sharedAddress [sampleOrder 1, neighbourOrder] (by decide)) s₁ s₂ pass ∧
      (∀ m ∈ s₁.merchants.rows, m.MarksInColumn) ∧
      (∀ o, SteadyAnswers 10 (usdcEntry 20) (o, sampleAnswers 20)) ∧
      (pass.copyOf neighbourOrder).PaidOnSolana ∧
      ∀ b, ∀ ui ∈ usdcEntry 20 (neighbourOrder.solanaAddress.getD "") b, ∀ q ∈ ui.number?,
        q < (((pass.copyOf (sampleOrder 1)).claimed.map Prod.snd).sum +
          neighbourOrder.amountUsd.value * minPaymentFraction)) := by
  constructor
  · have hrun : loneSweep [sampleOrder 1, refundOrder, sampleOrder 3] (by decide)
        [.visit 0 (sampleAnswers 0), .visit 0 (sampleAnswers 0), .push 0 .quiet,
          .visit 0 (sampleAnswers 0), .push 0 .quiet] = some [⟨.pending, none, []⟩,
            ⟨.paid, some .solana, [((1, .usdc), -100)]⟩,
            ⟨.paid, some .solana, [((1, .usdc), 20)]⟩] := by decide +kernel
    obtain ⟨s₁, s₂, pass, hcompletes, hmerchants, hcopies⟩ :=
      completes_of_loneSweep (by simp) hrun
    simp only [List.map_cons, List.map_nil, List.cons.injEq, MerchantOrder.passResult,
    PassResult.mk.injEq, and_true] at hcopies
    obtain ⟨⟨holder, -⟩, -, hnewer, hchain, -⟩ := hcopies
    exact ⟨s₁, s₂, pass, hcompletes, fun m hm => (hmerchants m hm).1,
      steadyAnswers_sample 10 0, rfl, rfl, by decide, by decide,
      by norm_num [sampleOrder, Numeric.value], le_rfl, ⟨hnewer, hchain⟩, holder⟩
  · have hrun : loneSweep [sampleOrder 1, neighbourOrder] (by decide)
        [.visit 0 (sampleAnswers 20), .push 0 .quiet, .visit 0 (sampleAnswers 20),
          .push 0 .quiet] = some [⟨.paid, some .solana, [((1, .usdc), 20)]⟩,
            ⟨.paid, some .solana, [((2, .usdc), 20)]⟩] := by decide +kernel
    obtain ⟨s₁, s₂, pass, hcompletes, hmerchants, hcopies⟩ :=
      completes_of_loneSweep (by simp) hrun
    simp only [List.map_cons, List.map_nil, List.cons.injEq, MerchantOrder.passResult,
    PassResult.mk.injEq, and_true] at hcopies
    obtain ⟨⟨-, -, hclaimed⟩, hpaid, hchain, -⟩ := hcopies
    refine ⟨s₁, s₂, pass, hcompletes, fun m hm => (hmerchants m hm).1,
      steadyAnswers_sample 10 20, ⟨hpaid, hchain⟩, fun b ui hui q hq => ?_⟩
    rw [hclaimed]
    cases b with
    | usdt => cases hui
    | usdc =>
      obtain rfl := List.mem_singleton.mp hui
      cases hq
      norm_num [neighbourOrder, sampleOrder, Numeric.value, minPaymentFraction]

end Gateway
