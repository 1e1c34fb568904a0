import Gateway.Poll.Sequential

/-!
# Confirmations that are told

A pass tells the merchant of a confirmed order inside its loop, and commits after it. What is told
is durable, and told once, as long as no pass that has told something ends without a commit
(`Lossless`): `Told` says that a confirmation that was told is either stored, as a paid order, or
still in the session of the pass that gave it, and that no order is told twice. Which confirmations
count as told is the parameter `told`: those that a webhook accepted, or all of them.

A pass does end without a commit when the payment check of a later order raises, or when the commit
itself fails; `deliveries_durable` is about the runs in which that happens to no pass with a
delivered confirmation, and `deliveries_not_durable` is a run in which it does.
-/

namespace Gateway

open Foundations

/-! ## Passes that end without a commit -/

/-- The pass that the event ends without a commit. -/
def System.dropped (s : System) : Event → Option Pass
  | .visit p a => (s.passes p).filter fun pass => (pass.nextVisit a).any fun v => v.2.2.isNone
  | .finish p => (s.passes p).filter fun pass => !s.canSave pass
  | .abort p => s.passes p
  | _ => none

/-- The event ends no pass without a commit in which something has been told. -/
def Lossless (told : Confirmation → Bool) (s : System) (e : Event) : Prop :=
  ∀ pass ∈ s.dropped e, ∀ c ∈ pass.unsaved, told c = false

/-- Every confirmation that was told is stored or in the session of a running pass, and no order
was told twice. -/
structure Told (told : Confirmation → Bool) (s : System) : Prop where
  kept : ∀ c ∈ s.confirmed, told c →
    (∃ o, s.orders.find? c.order = some o ∧ o.status = .paid) ∨
      ∃ p pass, s.passes p = some pass ∧ c ∈ pass.unsaved
  once : ((s.confirmed.filter told).map Confirmation.order).Nodup

namespace Told

variable {told : Confirmation → Bool} {s s' : System} {p : PassId} {pass pass' : Pass}

/-- A pass goes on with its unsaved confirmations. -/
theorem setPass (h : Told told s) (hp : ∀ pass, s.passes p = some pass →
    ∀ c ∈ pass.unsaved, c ∈ pass'.unsaved) : Told told (s.setPass p pass') where
  kept := by
    intro c hc ht
    rcases h.kept c hc ht with hpaid | ⟨q, other, hq, hmem⟩
    · exact .inl hpaid
    · right
      by_cases hqp : q = p
      · subst hqp
        exact ⟨q, pass', Function.update_self .., hp other hq c hmem⟩
      · exact ⟨q, other, (Function.update_of_ne hqp ..).trans hq, hmem⟩
  once := h.once

/-- A pass in which nothing was told ends. -/
theorem endPass (h : Told told s)
    (hp : ∀ pass, s.passes p = some pass → ∀ c ∈ pass.unsaved, told c = false) :
    Told told (s.endPass p) where
  kept := by
    intro c hc ht
    rcases h.kept c hc ht with hpaid | ⟨q, other, hq, hmem⟩
    · exact .inl hpaid
    · right
      by_cases hqp : q = p
      · subst hqp
        rw [hp other hq c hmem] at ht
        cases ht
      · exact ⟨q, other, (Function.update_of_ne hqp ..).trans hq, hmem⟩
  once := h.once

/-- What a pass has told is stored by its commit. -/
theorem save (h : Told told s) (hs : SessionsHold s) (hp : s.passes p = some pass)
    (stage : Stage) : Told told ((s.save pass).setPass p { pass.synced with stage := stage }) where
  kept := by
    intro c hc ht
    have hok := hs.ok p pass hp
    rcases h.kept c hc ht with ⟨o, hf, hpaid⟩ | ⟨q, other, hq, hmem⟩
    · left
      obtain ⟨o', hf', -, -, -, ⟨-, rfl⟩ | ⟨-, -, -, hpend, -⟩⟩ := hok.find?_saved hf
      · exact ⟨o', hf', hpaid⟩
      · rw [hpaid] at hpend
        cases hpend
    · by_cases hqp : q = p
      · subst hqp
        obtain rfl : pass = other := Option.some.inj (hp.symm.trans hq)
        left
        obtain ⟨⟨t, ht⟩, -⟩ := hok.unsaved c hmem
        obtain ⟨o, hf, hcopy⟩ := hok.orders _ t ht
        obtain ⟨hne, hpaid⟩ := hcopy.unsaved c hmem rfl
        obtain ⟨o', hf', -, -, -, ⟨hnot, -⟩ | ⟨t', ht', -, -, hst, -⟩⟩ := hok.find?_saved hf
        · exact absurd ⟨t, ht, hne⟩ hnot
        · obtain rfl : t = t' := Option.some.inj (ht.symm.trans ht')
          exact ⟨o', hf', hst.trans hpaid⟩
      · exact .inr ⟨q, other, (Function.update_of_ne hqp ..).trans hq, hmem⟩
  once := h.once

/-- An undecided order has not been told. -/
theorem not_told (h : Told told s) (hs : SessionsHold s) {id : OrderId}
    (hp : s.passes p = some pass) (hid : id ∈ pass.todo) (hund : s.Undecided p id) :
    ∀ c ∈ s.confirmed, told c → c.order ≠ id := by
  rintro c hc ht rfl
  obtain ⟨⟨o, hf, hpend⟩, hother⟩ := hund
  rcases h.kept c hc ht with ⟨o', hf', hpaid⟩ | ⟨q, other, hq, hmem⟩
  · obtain rfl : o = o' := Option.some.inj (hf.symm.trans hf')
    rw [hpend] at hpaid
    cases hpaid
  · by_cases hqp : q = p
    · subst hqp
      obtain rfl : pass = other := Option.some.inj (hp.symm.trans hq)
      exact (hs.ok q pass hp).not_unsaved_of_todo hid c hmem rfl
    · obtain ⟨⟨t, ht⟩, -⟩ := (hs.ok q other hq).unsaved c hmem
      obtain ⟨o', -, hcopy⟩ := (hs.ok q other hq).orders _ t ht
      exact hother q other hqp hq ⟨t, ht, (hcopy.unsaved c hmem rfl).1⟩

/-- A pass visits its next order, which nobody has decided if the visit decides it. -/
theorem visit (h : Told told s) (hs : SessionsHold s) {id : OrderId} {rest : List OrderId}
    {t : Tracked MerchantOrder} {v : Visit} {a : Answers} (hp : s.passes p = some pass)
    (htodo : pass.todo = id :: rest) (ht : pass.orders id = some t)
    (hv : visitOrder pass.now a t.cur ((pass.merchants t.cur.merchantId).map Tracked.cur) = some v)
    (hfresh : s.DecidesUndecided p pass id v) : Told told (s.visited p pass id rest v) := by
  have hset : Told told (s.setPass p (pass.afterVisit id rest v)) := by
    refine h.setPass fun pass₀ hp₀ c hc => ?_
    obtain rfl : pass = pass₀ := Option.some.inj (hp.symm.trans hp₀)
    cases v with
    | paid o m c' => exact List.mem_append_left _ hc
    | _ => exact hc
  cases v with
  | paid o m c =>
    obtain ⟨r, -, hcopy⟩ := (hs.ok p pass hp).orders id t ht
    have horder : c.order = id := by
      rcases visitOrder_cases hv with hv | hv | ⟨o', m', c', hv, hc⟩
      · cases hv
      · cases hv
      · cases hv
        exact hc.order_eq.trans hcopy.cur_id
    refine ⟨?_, ?_⟩
    · intro c' hc' ht'
      rcases List.mem_append.mp hc' with hc' | hc'
      · exact hset.kept c' hc' ht'
      · right
        refine ⟨p, pass.afterVisit id rest (.paid o m c), Function.update_self .., ?_⟩
        exact List.mem_append_right _ hc'
    · show (((s.confirmed ++ [c]).filter told).map Confirmation.order).Nodup
      rw [List.filter_append, List.map_append, List.nodup_append]
      refine ⟨h.once, ?_, ?_⟩
      · by_cases htold : told c <;> simp [htold]
      · intro i hi j hj hij
        obtain ⟨c₁, hc₁, rfl⟩ := List.mem_map.mp hi
        obtain ⟨c₂, hc₂, rfl⟩ := List.mem_map.mp hj
        obtain ⟨hc₁, ht₁⟩ := List.mem_filter.mp hc₁
        obtain ⟨hc₂, -⟩ := List.mem_filter.mp hc₂
        obtain rfl := List.mem_singleton.mp hc₂
        exact h.not_told hs hp (by simp [htodo]) hfresh c₁ hc₁ ht₁ (hij.trans horder)
  | _ => exact hset

/-- **What is told stays told**, as long as the visits decide undecided orders and no pass that has
told something ends without a commit. -/
theorem step (h : Told told s) (hs : SessionsHold s) {e : Event} (hf : s.FreshOrders e)
    (hl : Lossless told s e) (hstep : s.step e = some s') : Told told s' := by
  have hend : ∀ {p pass}, s.passes p = some pass → pass ∈ s.dropped e →
      Told told (s.endPass p) := by
    intro p pass hp hd
    refine h.endPass fun pass₀ hp₀ c hc => ?_
    obtain rfl : pass = pass₀ := Option.some.inj (hp.symm.trans hp₀)
    exact hl pass hd c hc
  have hsame : ∀ {p pass pass'}, s.passes p = some pass → pass'.unsaved = pass.unsaved →
      Told told (s.setPass p pass') := by
    intro p pass pass' hp hun
    refine h.setPass fun pass₀ hp₀ c hc => ?_
    obtain rfl : pass = pass₀ := Option.some.inj (hp.symm.trans hp₀)
    rwa [hun]
  cases Move.of_step hstep with
  | none hp => exact h
  | begin hp _ =>
    refine h.setPass fun pass₀ hp₀ => ?_
    rw [hp] at hp₀
    cases hp₀
  | load hp _ => exact hsame hp rfl
  | @visit p a pass id rest t v hp hst htodo ht hv =>
    refine h.visit hs hp htodo ht hv (hf pass id rest v hp ?_)
    simp [Pass.nextVisit, htodo, ht, hv]
  | raise hp hv => exact hend hp (by simp [System.dropped, hp, hv])
  | mark hp _ _ => exact hsame hp rfl
  | pushSave hp _ _ => exact h.save hs hp _
  | @finishSave p pass hp _ =>
    rw [← System.endPass_setPass]
    refine (h.save hs hp .looping).endPass fun pass₀ hp₀ c hc => ?_
    rcases System.passes_setPass hp₀ with ⟨-, rfl⟩ | ⟨hne, -⟩
    · cases hc
    · exact absurd rfl hne
  | finishLost hp hsave => exact hend hp (by simp [System.dropped, hp, hsave])
  | abort hp => exact hend hp hp
  | other hother =>
    have hfind : ∀ {id o}, s.orders.find? id = some o → s'.orders.find? id = some o :=
      System.find?_other hother
    obtain ⟨-, orders, rfl, -⟩ := System.other_eq_some hother
    refine ⟨fun c hc ht => ?_, h.once⟩
    rcases h.kept c hc ht with ⟨o, hf, hpaid⟩ | hrun
    · exact .inl ⟨o, hfind hf, hpaid⟩
    · exact .inr hrun

end Told

theorem Start.told {s : System} (h : Start s) (told : Confirmation → Bool) : Told told s where
  kept := by simp [h.confirmed]
  once := by simp [h.confirmed]

instance (told : Confirmation → Bool) (s : System) (e : Event) : Decidable (Lossless told s e) :=
  inferInstanceAs (Decidable (∀ pass ∈ s.dropped e, ∀ c ∈ pass.unsaved, told c = false))

/-! ## Deliveries by passes one after another -/

/-- The orders whose webhooks have been delivered, in the order of delivery. -/
def System.deliveries (s : System) : List OrderId :=
  (s.confirmed.filter Confirmation.delivered).map Confirmation.order

/-- While a confirmation is unsaved, its order is still stored as pending: it is lost when the pass
ends without a commit. -/
theorem SessionsHold.pending_of_unsaved {s : System} {p : PassId} {pass : Pass}
    (h : SessionsHold s) (hp : s.passes p = some pass) {c : Confirmation} (hc : c ∈ pass.unsaved) :
    ∃ o, s.orders.find? c.order = some o ∧ o.status = .pending := by
  obtain ⟨⟨t, ht⟩, -⟩ := (h.ok p pass hp).unsaved c hc
  obtain ⟨o, hf, hcopy⟩ := (h.ok p pass hp).orders _ t ht
  obtain ⟨-, hpend, -⟩ := hcopy.changed (hcopy.unsaved c hc rfl).1
  exact ⟨o, hf, hpend⟩

/-- A pass that is dropped is over after the event, and nothing else has changed. -/
theorem System.step_of_dropped {s s' : System} {e : Event} {pass : Pass} (hd : pass ∈ s.dropped e)
    (hs : s.step e = some s') : ∃ p, s.passes p = some pass ∧ s' = s.endPass p := by
  cases e with
  | visit p a =>
    obtain ⟨hp, hraise⟩ := Option.mem_filter_iff.mp hd
    cases Move.of_step hs with
    | visit hp' _ htodo ht hv =>
      obtain rfl := Option.some.inj (hp.symm.trans hp')
      simp [Pass.nextVisit, htodo, ht, hv] at hraise
    | raise hp' _ => exact ⟨p, hp, rfl⟩
  | finish p =>
    obtain ⟨hp, hlost⟩ := Option.mem_filter_iff.mp hd
    cases Move.of_step hs with
    | finishSave hp' hsave =>
      obtain rfl := Option.some.inj (hp.symm.trans hp')
      simp [hsave] at hlost
    | finishLost hp' _ => exact ⟨p, hp, rfl⟩
  | abort p =>
    cases Move.of_step hs with
    | abort hp' => exact ⟨p, hd, rfl⟩
  | _ => cases hd

/-- **What is dropped is lost**: after an event that is not lossless, an order that was told is
stored as pending, and the pass that told it is over. -/
theorem SessionsHold.lost {s s' : System} (h : SessionsHold s) {told : Confirmation → Bool}
    {e : Event} (hl : ¬ Lossless told s e) (hs : s.step e = some s') :
    ∃ p pass c, s.passes p = some pass ∧ c ∈ pass.unsaved ∧ told c ∧ s'.passes p = none ∧
      ∃ o, s'.orders.find? c.order = some o ∧ o.status = .pending := by
  simp only [Lossless, not_forall, Bool.not_eq_false] at hl
  obtain ⟨pass, hd, c, hc, htold⟩ := hl
  obtain ⟨p, hp, rfl⟩ := System.step_of_dropped hd hs
  exact ⟨p, pass, c, hp, hc, htold, Function.update_self .., h.pending_of_unsaved hp hc⟩

/-- **Deliveries are durable and unique** along every run of passes one after another in which no
pass with a delivered confirmation ends without a commit: the order of a delivered confirmation is
stored as paid unless the pass that delivered it is still running, no order is delivered twice, and
an order that has been stored as paid or expired stays so. -/
theorem deliveries_durable {s₀ s : System} {es : List Event} (h0 : Start s₀)
    (run : Run System.step (fun s e => Serial s e ∧ Lossless Confirmation.delivered s e) s₀ es s) :
    (∀ c ∈ s.confirmed, c.delivered →
      (∃ o, s.orders.find? c.order = some o ∧ o.status = .paid) ∨
        ∃ p pass, s.passes p = some pass ∧ c ∈ pass.unsaved) ∧
    s.deliveries.Nodup ∧
    ∀ es' s',
      Run System.step (fun s e => Serial s e ∧ Lossless Confirmation.delivered s e) s es' s' →
      ∀ o ∈ s.orders.rows, o.status ≠ .pending → o ∈ s'.orders.rows := by
  have hstep : ∀ t e t', SoleHolds t ∧ Told Confirmation.delivered t →
      Serial t e ∧ Lossless Confirmation.delivered t e → t.step e = some t' →
      SoleHolds t' ∧ Told Confirmation.delivered t' := by
    rintro t e t' ⟨hsole, htold⟩ ⟨hser, hloss⟩ hs
    exact ⟨hsole.step hser hs, htold.step hsole.sessions (hsole.freshOrders e) hloss hs⟩
  obtain ⟨hsole, htold⟩ := run.invariant hstep ⟨h0.soleHolds, h0.told _⟩
  refine ⟨htold.kept, htold.once, fun es' s' run' => ?_⟩
  exact settled_of_run hsole.sessions
    (run'.strengthen hstep (fun t e _ ht _ _ => ht.1.freshOrders e) ⟨hsole, htold⟩)

/-- A run in which a pass delivers the webhook of order 1, and commits although order 2 is still
unpaid. -/
def committedDelivery : List Event :=
  [.begin 0 10 [sampleOrder 1, sampleOrder 2], .loadMerchants 0, .visit 0 (sampleAnswers 20),
    .push 0 .quiet, .visit 0 (sampleAnswers 20), .finish 0]

theorem deliveries_durable_committed :
    ∃ s, exec System.step (sampleSystem [1, 2] (by decide)) committedDelivery = some s ∧
      s.deliveries = [1] ∧ s.deliveries.Nodup := by
  have hrun : ((exec (restrict (fun s e => Lossless Confirmation.delivered s e) System.step)
      (sampleSystem [1, 2] (by decide)) committedDelivery).map System.deliveries) =
      some [1] := by
    decide +kernel
  obtain ⟨s, hs, hdel⟩ := Option.map_eq_some_iff.mp hrun
  have hloss := Run.of_exec_restrict hs
  refine ⟨s, hloss.exec_eq, hdel, ?_⟩
  have hser := serial_of_exec (p := 0) (by simp [sampleSystem])
    (by simp [committedDelivery, Event.pass?]) hloss.exec_eq
  simp only [decide_eq_true_eq] at hloss
  exact (deliveries_durable (start_sampleSystem _ _) (hser.inter hloss)).2.1

/-- No EVM payment, and replies that list a text where a token account belongs. -/
def strayAnswers : Answers where
  evm := some none
  solana := fun _ => some (.obj [("result", .obj [("value", .arr [.str "x"])])])
  clock := 10
  webhook := some 200

/-- The same, but the check of order 2 raises on its reply. -/
def lostDelivery : List Event :=
  [.begin 0 10 [sampleOrder 1, sampleOrder 2], .loadMerchants 0, .visit 0 (sampleAnswers 20),
    .push 0 .quiet, .visit 0 strayAnswers]

/-- A pass after both orders have expired. -/
def expiringPass : List Event :=
  [.begin 0 100 [sampleOrder 1, sampleOrder 2], .loadMerchants 0, .visit 0 (sampleAnswers 20),
    .visit 0 (sampleAnswers 20), .finish 0]

/-- **A delivery may be lost**: after the pass that delivered it, order 1 is stored as pending; the
next pass delivers it again, or expires it. -/
theorem deliveries_not_durable :
    ∃ s, Run System.step Serial (sampleSystem [1, 2] (by decide)) lostDelivery s ∧
      s.deliveries = [1] ∧ (∀ p, s.passes p = none) ∧
      s.orders.rows.map MerchantOrder.status = [.pending, .pending] ∧
      (∃ s', Run System.step Serial s committedDelivery s' ∧ s'.deliveries = [1, 1]) ∧
      ∃ s', Run System.step Serial s expiringPass s' ∧
        s'.orders.rows.map MerchantOrder.status = [.expired, .expired] := by
  have hlost : ((exec System.step (sampleSystem [1, 2] (by decide)) lostDelivery).map fun s =>
      (s.deliveries, (s.passes 0).isNone, s.orders.rows.map MerchantOrder.status)) =
      some ([1], true, [.pending, .pending]) := by
    decide +kernel
  have hagain : (exec System.step (sampleSystem [1, 2] (by decide))
      (lostDelivery ++ committedDelivery)).map System.deliveries = some [1, 1] := by
    decide +kernel
  have hexpired : ((exec System.step (sampleSystem [1, 2] (by decide))
      (lostDelivery ++ expiringPass)).map fun s => s.orders.rows.map MerchantOrder.status) =
      some [.expired, .expired] := by
    decide +kernel
  obtain ⟨s, hs, hall⟩ := Option.map_eq_some_iff.mp hlost
  rw [exec_append, hs, Option.bind_some] at hagain hexpired
  simp only [Prod.mk.injEq, Option.isNone_iff_eq_none] at hall
  obtain ⟨hdel, hnone, hst⟩ := hall
  have hstart : ∀ q, q ≠ 0 → (sampleSystem [1, 2] (by decide)).passes q = none := fun _ _ => rfl
  have hpass : ∀ e ∈ lostDelivery, ∀ q ∈ e.pass?, q = 0 := by simp [lostDelivery, Event.pass?]
  have hidle := idle_of_exec hstart hpass hs
  refine ⟨s, serial_of_exec hstart hpass hs, hdel, ?_, hst, ?_, ?_⟩
  · intro q
    by_cases hq : q = 0
    · rw [hq, hnone]
    · exact hidle q hq
  · obtain ⟨s', hs', hdel'⟩ := Option.map_eq_some_iff.mp hagain
    exact ⟨s', serial_of_exec hidle (by simp [committedDelivery, Event.pass?]) hs', hdel'⟩
  · obtain ⟨s', hs', hst'⟩ := Option.map_eq_some_iff.mp hexpired
    exact ⟨s', serial_of_exec hidle (by simp [expiringPass, Event.pass?]) hs', hst'⟩

end Gateway
