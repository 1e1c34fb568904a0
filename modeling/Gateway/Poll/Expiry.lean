import Gateway.Poll.Sequential

/-!
# Orders that are paid in time

A visit expires an order before it looks for a payment, when the pass began at or after
`expires_at`. Here the gateway runs over time, over EVM addresses whose balances change in any way.
An order whose address holds an accepted token is confirmed by a visit in which a quorum reports
that token if and only if the pass began before `expires_at`; an order that is only visited by such
passes never expires (`paid_in_time_iff`).
-/

namespace Gateway

open Foundations Foundations.Decimal

/-! ## What the check finds -/

section Found

variable {settings : Settings} {reads : ConsensusReads} {evmAddress : String}
  {balance : EvmToken → Option ℤ} {x : Numeric 10 2}

/-- The threshold of an amount of whole cents is exact. -/
theorem threshold_representable (x : Numeric 10 2) :
    Context.default.Representable (x.value * minPaymentFraction) ∧
      Context.default.mul x.value minPaymentFraction = some (x.value * minPaymentFraction) := by
  have hscaled : Scaled 4 (x.value * minPaymentFraction) := by
    refine ⟨x.unscaled * 99, ?_⟩
    rw [Numeric.value, minPaymentFraction]
    push_cast
    ring
  have hbound : |x.value * minPaymentFraction| < 10 ^ 8 := by
    obtain ⟨hlow, hhigh⟩ := abs_lt.mp (x.abs_value_lt (by norm_num))
    rw [minPaymentFraction, abs_lt]
    norm_num at hlow hhigh
    constructor <;> linarith
  have hrep : Context.default.Representable (x.value * minPaymentFraction) :=
    representable_of_scaled (by norm_num) hscaled (hbound.trans (by norm_num))
  exact ⟨hrep, Context.finish_of_representable hrep
    (hbound.trans_le (pow_le_pow_right₀ (by norm_num) (by decide)))⟩

/-- The check of a token does not raise. -/
theorem checkToken_isSome (h : ReadsBalances settings reads evmAddress balance) {t : EvmToken}
    (ht : t ∈ evmTokens) : (checkToken settings reads evmAddress x.value t).isSome := by
  obtain ⟨v, hv⟩ := evmValidator_ok settings t.chain t.rpcUrl
  obtain ⟨consensus, hreads, hbalance⟩ := h t ht v hv
  simp only [checkToken, hv, checkContract, hreads, Option.bind_some]
  cases hb : balance t with
  | none =>
    simp only [hb] at hbalance
    simp [hbalance]
  | some raw =>
    simp only [hb] at hbalance
    obtain ⟨hreached, hvalue, h0, hlt⟩ := hbalance
    simp only [hreached, if_true, hvalue, Option.bind_some, EvmToken.div_eq h0 hlt,
      (threshold_representable x).2]
    split_ifs <;> rfl

/-- It finds a positive balance that reaches the threshold, whatever the sign of the amount. -/
theorem checkToken_ne_none (h : ReadsBalances settings reads evmAddress balance) {t : EvmToken}
    (ht : t ∈ evmTokens) {raw : ℤ} (hb : balance t = some raw) (hpos : 0 < raw)
    (hcovers : x.value * minPaymentFraction ≤ t.quotient raw) :
    checkToken settings reads evmAddress x.value t ≠ some none := by
  obtain ⟨v, hv⟩ := evmValidator_ok settings t.chain t.rpcUrl
  obtain ⟨consensus, hreads, hbalance⟩ := h t ht v hv
  simp only [hb] at hbalance
  obtain ⟨hreached, hvalue, h0, hlt⟩ := hbalance
  have hround : ¬ Context.default.round (t.quotient raw) < x.value * minPaymentFraction :=
    not_lt.mpr (Context.le_round (threshold_representable x).1 hcovers)
  simp [checkToken, hv, checkContract, hreads, hreached, hvalue, hpos.ne', EvmToken.div_eq h0 hlt,
    (threshold_representable x).2, hround]

/-- The whole check then finds a payment, in this token or an earlier one. -/
theorem checkEvmPayment_eq_match (h : ReadsBalances settings reads evmAddress balance)
    {t : EvmToken} (ht : t ∈ evmTokens) {raw : ℤ} (hb : balance t = some raw) (hpos : 0 < raw)
    (hcovers : x.value * minPaymentFraction ≤ t.quotient raw) :
    ∃ m, checkEvmPayment settings reads evmAddress x.value = some (some m) := by
  rw [checkEvmPayment_eq]
  have hsome : (firstMatch (checkToken settings reads evmAddress x.value) evmTokens).isSome :=
    firstMatch_isSome fun t ht => checkToken_isSome h ht
  obtain ⟨r, hr⟩ := Option.isSome_iff_exists.mp hsome
  cases r with
  | none => exact absurd (firstMatch_eq_none.mp hr t ht) (checkToken_ne_none h ht hb hpos hcovers)
  | some m => exact ⟨m, hr⟩

end Found

/-! ## What a visit does to the order -/

/-- The columns of an order that the payment check reads and nothing writes. -/
def MerchantOrder.terms (o : MerchantOrder) : String × Numeric 10 2 × Timestamp :=
  (o.evmAddress, o.amountUsd, o.expiresAt)

/-- What a visit makes of an order: nothing, an expired order when it is due, or a paid one. -/
def Visited (now : Timestamp) (o o' : MerchantOrder) : Prop :=
  o'.terms = o.terms ∧ (o'.status = o.status ∨ (o'.status = .expired ∧ o.expiresAt ≤ now) ∨
    o'.status = .paid)

/-- The order that a visit leaves in the session. -/
def Visit.order? : Visit → Option MerchantOrder
  | .expired o => some o
  | .unpaid => none
  | .paid o _ _ => some o

theorem visited_of_visitOrder {now : Timestamp} {a : Answers} {o o' : MerchantOrder}
    {m : Option Merchant} {v : Visit} (h : visitOrder now a o m = some v)
    (ho' : v.order? = some o') : Visited now o o' := by
  unfold visitOrder at h
  split_ifs at h with hexpired
  · cases h
    cases ho'
    exact ⟨rfl, .inr (.inl ⟨rfl, hexpired⟩)⟩
  · split at h
    · cases h
    · cases h
      cases ho'
    · rename_i payment _
      cases h
      cases m with
      | none =>
        cases ho'
        exact ⟨rfl, .inr (.inr rfl)⟩
      | some m =>
        simp only [confirm, Visit.order?, Option.some.injEq] at ho'
        subst ho'
        split_ifs <;> exact ⟨rfl, .inr (.inr rfl)⟩

/-- A visit changes the copy of its order at most. -/
theorem copy_of_afterVisit {pass : Pass} {id : OrderId} {rest : List OrderId}
    {t : Tracked MerchantOrder} {a : Answers} {m : Option Merchant} {v : Visit}
    (ht : pass.orders id = some t) (h : visitOrder pass.now a t.cur m = some v) {i : OrderId}
    {c' : Tracked MerchantOrder} (hc' : (pass.afterVisit id rest v).orders i = some c') :
    ∃ c, pass.orders i = some c ∧ (c' = c ∨ i = id ∧ Visited pass.now c.cur c'.cur) := by
  have hupdate : ∀ o', v.order? = some o' →
      Function.update pass.orders id ((pass.orders id).map (·.set o')) i = some c' →
      ∃ c, pass.orders i = some c ∧ (c' = c ∨ i = id ∧ Visited pass.now c.cur c'.cur) := by
    intro o' ho' hc'
    rw [Function.update_apply] at hc'
    split_ifs at hc' with hi
    · subst hi
      rw [ht, Option.map_some, Option.some.injEq] at hc'
      subst hc'
      exact ⟨t, ht, .inr ⟨rfl, visited_of_visitOrder h ho'⟩⟩
    · exact ⟨c', hc', .inl rfl⟩
  cases v with
  | expired o => exact hupdate o rfl hc'
  | unpaid => exact ⟨c', hc', .inl rfl⟩
  | paid o m c => exact hupdate o rfl hc'

/-! ## What an event does to the copies and the rows -/

/-- The visit of an order by a pass, and what it does; `none` when it raises. -/
def System.Visits (s : System) (e : Event) (id : OrderId) (a : Answers) (pass : Pass)
    (r : Option Visit) : Prop :=
  ∃ p rest, e = .visit p a ∧ s.passes p = some pass ∧ pass.nextVisit a = some (id, rest, r)

/-- The copies of a pass before and after an event: only a visit of the order changes its copy. -/
def System.Continues (s : System) (e : Event) (pass pass' : Pass) : Prop :=
  pass'.now = pass.now ∧ ∀ id c', pass'.orders id = some c' → ∃ c, pass.orders id = some c ∧
    (c'.cur = c.cur ∨ (∃ a r, s.Visits e id a pass r) ∧ Visited pass.now c.cur c'.cur)

theorem System.Continues.of_cur {s : System} {e : Event} {pass pass' : Pass}
    (hnow : pass'.now = pass.now)
    (horders : ∀ id, (pass'.orders id).map Tracked.cur = (pass.orders id).map Tracked.cur) :
    s.Continues e pass pass' := by
  refine ⟨hnow, fun id c' hc' => ?_⟩
  have hcur := horders id
  rw [hc', Option.map_some] at hcur
  obtain ⟨c, hc, heq⟩ := Option.map_eq_some_iff.mp hcur.symm
  exact ⟨c, hc, .inl heq.symm⟩

/-- A running pass began with the event, or continues one that was running. -/
theorem Move.pass {s s' : System} {e : Event} (h : Move s e s') {q : PassId} {pass' : Pass}
    (hq : s'.passes q = some pass') :
    (∃ now pending, e = .begin q now pending ∧ s.isPendingList pending ∧
      pass' = System.openPass now pending) ∨
      ∃ pass, s.passes q = some pass ∧ s.Continues e pass pass' := by
  have hsame : ∀ {pass}, s.passes q = some pass → ∃ pass₀, s.passes q = some pass₀ ∧
      s.Continues e pass₀ pass :=
    fun {pass} hp => ⟨pass, hp, .of_cur rfl fun _ => rfl⟩
  have hnext : ∀ {t : System} {p : PassId} {pass next : Pass},
      (t.setPass p next).passes q = some pass' → t.passes = s.passes → s.passes p = some pass →
        s.Continues e pass next → ∃ pass, s.passes q = some pass ∧ s.Continues e pass pass' := by
    intro t p pass next hset ht hp hnext
    rcases System.passes_setPass hset with ⟨rfl, rfl⟩ | ⟨-, hold⟩
    · exact ⟨pass, hp, hnext⟩
    · exact hsame (ht ▸ hold)
  cases h with
  | none _ => exact .inr (hsame hq)
  | @begin p now pending hp hpending =>
    rcases System.passes_setPass hq with ⟨rfl, rfl⟩ | ⟨-, hold⟩
    · exact .inl ⟨now, pending, rfl, hpending, rfl⟩
    · exact .inr (hsame hold)
  | load hp _ => exact .inr (hnext hq rfl hp (.of_cur rfl fun _ => rfl))
  | @visit p a pass id rest t v hp hstage htodo ht hvisit =>
    have hcontinues : s.Continues (.visit p a) pass (pass.afterVisit id rest v) := by
      refine ⟨?_, fun i c' hc' => ?_⟩
      · cases v <;> rfl
      · obtain ⟨c, hc, hsame | ⟨rfl, hvisited⟩⟩ := copy_of_afterVisit ht hvisit hc'
        · exact ⟨c, hc, .inl (congrArg Tracked.cur hsame)⟩
        · refine ⟨c, hc, .inr ⟨⟨a, some v, p, rest, rfl, hp, ?_⟩, hvisited⟩⟩
          simp only [Pass.nextVisit, htodo, ht, Option.map_some, hvisit]
    refine .inr (hnext (t := s) ?_ rfl hp hcontinues)
    cases v <;> exact hq
  | raise hp _ => exact .inr (hsame (System.passes_endPass hq).2)
  | mark hp _ _ => exact .inr (hnext hq rfl hp (.of_cur rfl fun _ => rfl))
  | @pushSave p pass hp _ _ =>
    refine .inr (hnext hq rfl hp (.of_cur rfl fun id => ?_))
    show ((pass.orders id).map Tracked.sync).map Tracked.cur = _
    rw [Option.map_map]
    rfl
  | finishSave hp _ => exact .inr (hsame (System.passes_endPass hq).2)
  | finishLost hp _ => exact .inr (hsame (System.passes_endPass hq).2)
  | abort hp => exact .inr (hsame (System.passes_endPass hq).2)
  | other hother =>
    obtain ⟨-, orders, rfl, -⟩ := System.other_eq_some hother
    exact .inr (hsame hq)

/-- A stored order keeps its terms. Its status stays, or is that of the copy of a pass. -/
theorem Move.row {s s' : System} {e : Event} (h : Move s e s') {id : OrderId} {o : MerchantOrder}
    (ho : s.orders.find? id = some o) :
    ∃ o', s'.orders.find? id = some o' ∧ o'.terms = o.terms ∧
      (o'.status = o.status ∨ ∃ p pass c, s.passes p = some pass ∧ pass.orders id = some c ∧
        o'.status = c.cur.status) := by
  have hsave : ∀ {p pass}, s.passes p = some pass →
      ∃ o', (s.save pass).orders.find? id = some o' ∧ o'.terms = o.terms ∧
        (o'.status = o.status ∨ ∃ p pass c, s.passes p = some pass ∧ pass.orders id = some c ∧
          o'.status = c.cur.status) := by
    intro p pass hp
    rw [s.find?_save, ho, Option.map_some]
    cases hc : pass.orders id with
    | none => exact ⟨o, rfl, rfl, .inl rfl⟩
    | some c =>
      refine ⟨_, rfl, rfl, ?_⟩
      by_cases hclean : c.cur.status = c.base.status
      · exact .inl (if_pos hclean)
      · exact .inr ⟨p, pass, c, hp, hc, if_neg hclean⟩
  cases h with
  | finishSave hp _ => exact hsave hp
  | pushSave hp _ _ => exact hsave hp
  | other hother => exact ⟨o, System.find?_other hother ho, rfl, .inl rfl⟩
  | @visit _ _ _ _ _ _ v =>
    cases v <;> exact ⟨o, ho, rfl, .inl rfl⟩
  | _ => exact ⟨o, ho, rfl, .inl rfl⟩

/-! ## The gateway in time -/

/-- The gateway, the clock, and the balances of all addresses in the accepted tokens. -/
structure EvmWorld where
  system : System
  clock : Timestamp
  balances : String → EvmToken → ℕ

/-- What may happen on the EVM chains and in the gateway. -/
inductive EvmEvent
  | gateway (e : Event)
  /-- The balance of an address becomes another one. -/
  | transfer (holder : String) (t : EvmToken) (raw : ℕ)
  | wait (time : Timestamp)

namespace EvmWorld

/-- One event. A pass takes its time from the clock, which does not go back. -/
def step (w : EvmWorld) : EvmEvent → Option EvmWorld
  | .gateway (.begin p now pending) =>
    if now = w.clock then
      (w.system.step (.begin p now pending)).map fun s => { w with system := s }
    else none
  | .gateway e => (w.system.step e).map fun s => { w with system := s }
  | .transfer holder t raw =>
    some { w with
      balances := Function.update w.balances holder (Function.update (w.balances holder) t raw) }
  | .wait time => if w.clock ≤ time then some { w with clock := time } else none

/-- The address of an order holds an accepted token, and at least 99% of the amount. -/
def Holds (w : EvmWorld) (o : MerchantOrder) (t : EvmToken) : Prop :=
  t ∈ evmTokens ∧ 0 < w.balances o.evmAddress t ∧
    o.amountUsd.value * minPaymentFraction ≤ t.quotient (w.balances o.evmAddress t)

/-- The EVM check of a visit, in rounds of which the one for the token reports the balance. -/
def Quorum (w : EvmWorld) (o : MerchantOrder) (t : EvmToken) (a : Answers) : Prop :=
  ∃ settings reads balance, ReadsBalances settings reads o.evmAddress balance ∧
    balance t = some (w.balances o.evmAddress t : ℤ) ∧
    a.evm = checkEvmPayment settings reads o.evmAddress o.amountUsd.value

/-- A condition on the visits of an order. -/
def OnVisit (w : EvmWorld) (o : MerchantOrder) (P : Answers → Pass → Option Visit → Prop) :
    EvmEvent → Prop
  | .gateway e => ∀ a pass r, w.system.Visits e o.id a pass r → P a pass r
  | _ => True

/-- The visits of the order that reach a quorum mark it as paid. -/
def QuorumPays (w : EvmWorld) (o : MerchantOrder) (t : EvmToken) : EvmEvent → Prop :=
  w.OnVisit o fun a _ r => w.Quorum o t a → ∃ o' m c, r = some (.paid o' m c)

/-- They are made by passes that began before the order expires. -/
def QuorumInTime (w : EvmWorld) (o : MerchantOrder) (t : EvmToken) : EvmEvent → Prop :=
  w.OnVisit o fun a pass _ => w.Quorum o t a → pass.now < o.expiresAt

/-- All visits of the order are made by such passes. -/
def VisitedInTime (w : EvmWorld) (o : MerchantOrder) : EvmEvent → Prop :=
  w.OnVisit o fun _ pass _ => pass.now < o.expiresAt

/-- What an event does to the system and the clock. -/
theorem step_cases {w w' : EvmWorld} {e : EvmEvent} (h : w.step e = some w') :
    (w'.system = w.system ∧ w.clock ≤ w'.clock) ∨
      ∃ e', e = .gateway e' ∧ Move w.system e' w'.system ∧ w'.clock = w.clock ∧
        ∀ p now pending, e' = .begin p now pending → now = w.clock := by
  have hgateway : ∀ {e'}, (w.system.step e').map (fun s => { w with system := s }) = some w' →
      Move w.system e' w'.system ∧ w'.clock = w.clock := by
    intro e' he
    obtain ⟨s, hs, rfl⟩ := Option.map_eq_some_iff.mp he
    exact ⟨.of_step hs, rfl⟩
  cases e with
  | gateway e' =>
    refine .inr ⟨e', rfl, ?_⟩
    cases e' with
    | begin p now pending =>
      simp only [step] at h
      split_ifs at h with hnow
      obtain ⟨hmove, hclock⟩ := hgateway h
      exact ⟨hmove, hclock, fun _ _ _ heq => by cases heq; exact hnow⟩
    | _ =>
      obtain ⟨hmove, hclock⟩ := hgateway h
      exact ⟨hmove, hclock, fun _ _ _ heq => by cases heq⟩
  | transfer holder t raw =>
    cases h
    exact .inl ⟨rfl, le_rfl⟩
  | wait time =>
    simp only [step] at h
    split_ifs at h with hle
    cases h
    exact .inl ⟨rfl, hle⟩

/-! ### The copies of the passes -/

/-- A running pass began in the past, and its copies have the terms of the stored orders; a copy
that has expired was due when the pass began. -/
structure CopiesHold (w : EvmWorld) : Prop where
  begun : ∀ p pass, w.system.passes p = some pass → pass.now ≤ w.clock
  copies : ∀ p pass id c, w.system.passes p = some pass → pass.orders id = some c →
    ∃ o, w.system.orders.find? id = some o ∧ c.cur.terms = o.terms ∧
      (c.cur.status = .expired → o.expiresAt ≤ pass.now)

theorem expiresAt_eq_of_terms {o o' : MerchantOrder} (h : o'.terms = o.terms) :
    o'.expiresAt = o.expiresAt := congrArg (fun x => x.2.2) h

/-- The copy of a pass that has just read its orders. -/
theorem copy_of_openPass {s : System} {now : Timestamp} {pending : List MerchantOrder}
    (hpending : s.isPendingList pending) {id : OrderId} {c : Tracked MerchantOrder}
    (hc : (System.openPass now pending).orders id = some c) :
    s.orders.find? id = some c.cur ∧ c.cur.status = .pending := by
  obtain ⟨o, ho, rfl⟩ := Option.map_eq_some_iff.mp hc
  obtain ⟨hmem, hstatus⟩ := System.mem_of_isPendingList hpending (List.mem_of_find?_eq_some ho)
  have hid : o.id = id := by simpa using List.find?_some ho
  exact ⟨Table.find?_eq_some.mpr ⟨hmem, hid⟩, hstatus⟩

namespace CopiesHold

variable {w w' : EvmWorld}

theorem of_idle (h : ∀ p, w.system.passes p = none) : w.CopiesHold where
  begun := by
    intro p pass hp
    rw [h p] at hp
    cases hp
  copies := by
    intro p pass id c hp
    rw [h p] at hp
    cases hp

theorem step (h : w.CopiesHold) {e : EvmEvent} (hstep : w.step e = some w') : w'.CopiesHold := by
  rcases step_cases hstep with ⟨hsystem, hclock⟩ | ⟨e', -, hmove, hclock, hbegin⟩
  · refine ⟨fun p pass hp => ?_, ?_⟩
    · rw [hsystem] at hp
      exact (h.begun p pass hp).trans hclock
    · rw [hsystem]
      exact h.copies
  · constructor
    · intro p pass' hp
      rw [hclock]
      rcases hmove.pass hp with ⟨now, pending, he, -, rfl⟩ | ⟨pass, hpass, hnow, -⟩
      · exact (hbegin p now pending he).le
      · rw [hnow]
        exact h.begun p pass hpass
    · intro p pass' id c' hp hc'
      rcases hmove.pass hp with ⟨now, pending, rfl, hpending, rfl⟩ | ⟨pass, hpass, hnow, hcopies⟩
      · obtain ⟨ho, hst⟩ := copy_of_openPass hpending hc'
        obtain ⟨o', ho', hterms, -⟩ := hmove.row ho
        refine ⟨o', ho', hterms.symm, fun hexp => ?_⟩
        rw [hst] at hexp
        cases hexp
      · obtain ⟨c, hc, hvisit⟩ := hcopies id c' hc'
        obtain ⟨o, ho, hterms, hdue⟩ := h.copies p pass id c hpass hc
        obtain ⟨o', ho', hterms', -⟩ := hmove.row ho
        rw [hnow]
        rcases hvisit with hcur | ⟨-, hvisited⟩
        · rw [hcur]
          refine ⟨o', ho', hterms.trans hterms'.symm, ?_⟩
          rwa [expiresAt_eq_of_terms hterms']
        · refine ⟨o', ho', hvisited.1.trans (hterms.trans hterms'.symm), fun hexp => ?_⟩
          rw [expiresAt_eq_of_terms hterms']
          rcases hvisited.2 with hsame | ⟨-, hlate⟩ | hpaid
          · exact hdue (hsame.symm.trans hexp)
          · rwa [expiresAt_eq_of_terms hterms] at hlate
          · rw [hpaid] at hexp
            cases hexp

end CopiesHold

/-! ### Visits with a quorum -/

section Visits

variable {w w' : EvmWorld} {o : MerchantOrder} {t : EvmToken}

/-- A visit with a quorum pays an order that is not due, and expires one that is. -/
theorem visit_pays_iff {now : Timestamp} {a : Answers} {c : MerchantOrder} {m : Option Merchant}
    (hterms : c.terms = o.terms) (hholds : w.Holds o t) (hquorum : w.Quorum o t a) :
    (∃ o' m' x, visitOrder now a c m = some (.paid o' m' x)) ↔ now < o.expiresAt := by
  obtain ⟨ht, hpos, hcovers⟩ := hholds
  obtain ⟨settings, reads, balance, hreads, hbalance, hevm⟩ := hquorum
  obtain ⟨found, hmatch⟩ := checkEvmPayment_eq_match hreads ht hbalance (by exact_mod_cast hpos)
    (by exact_mod_cast hcovers)
  have hfind : findPayment a c m = some (some (.evm found)) := by
    simp only [findPayment, hevm.trans hmatch]
  unfold visitOrder
  rw [expiresAt_eq_of_terms hterms]
  constructor
  · rintro ⟨o', m', x, hpaid⟩
    by_contra hlate
    rw [if_pos (not_lt.mp hlate)] at hpaid
    cases hpaid
  · intro hearly
    rw [if_neg (not_le.mpr hearly), hfind]
    cases m with
    | none => exact ⟨_, _, _, rfl⟩
    | some m => exact ⟨_, _, _, rfl⟩

/-- The copy that is visited has the terms of the stored order. -/
theorem CopiesHold.visited (h : w.CopiesHold) (ho : ∃ o', w.system.orders.find? o.id = some o' ∧
    o'.terms = o.terms) {e : Event} {a : Answers} {pass : Pass} {r : Option Visit}
    (hvisit : w.system.Visits e o.id a pass r) : ∃ c m, c.terms = o.terms ∧
      r = visitOrder pass.now a c m := by
  obtain ⟨p, rest, rfl, hp, hnext⟩ := hvisit
  obtain ⟨-, c, hc, rfl⟩ := Pass.nextVisit_eq_some hnext
  obtain ⟨o₁, ho₁, hterms, -⟩ := h.copies p pass o.id c hp hc
  obtain ⟨o₂, ho₂, hterms₂⟩ := ho
  obtain rfl := Option.some.inj (ho₁.symm.trans ho₂)
  exact ⟨c.cur, _, hterms.trans hterms₂, rfl⟩

/-- What holds once the address of the order holds enough: the order is stored, and the copies are
as above. -/
def Stored (o : MerchantOrder) (w : EvmWorld) : Prop :=
  w.CopiesHold ∧ ∃ o', w.system.orders.find? o.id = some o' ∧ o'.terms = o.terms

theorem Stored.step (h : w.Stored o) {e : EvmEvent} (hstep : w.step e = some w') :
    w'.Stored o := by
  obtain ⟨hcopies, o', ho', hterms⟩ := h
  refine ⟨hcopies.step hstep, ?_⟩
  rcases step_cases hstep with ⟨hsystem, -⟩ | ⟨e', -, hmove, -, -⟩
  · rw [hsystem]
    exact ⟨o', ho', hterms⟩
  · obtain ⟨o₁, ho₁, hterms₁, -⟩ := hmove.row ho'
    exact ⟨o₁, ho₁, hterms₁.trans hterms⟩

theorem Stored.quorumPays_iff (h : w.Stored o) (hholds : w.Holds o t) (e : EvmEvent) :
    w.QuorumPays o t e ↔ w.QuorumInTime o t e := by
  cases e with
  | gateway e =>
    refine forall₃_congr fun a pass r => ⟨fun hpays hvisit hquorum => ?_,
      fun htime hvisit hquorum => ?_⟩
    · obtain ⟨c, m, hterms, rfl⟩ := h.1.visited h.2 hvisit
      exact (visit_pays_iff hterms hholds hquorum).mp (hpays hvisit hquorum)
    · obtain ⟨c, m, hterms, rfl⟩ := h.1.visited h.2 hvisit
      exact (visit_pays_iff hterms hholds hquorum).mpr (htime hvisit hquorum)
  | _ => exact Iff.rfl

/-- Neither the stored order nor a copy of it has expired. -/
structure Unexpired (o : MerchantOrder) (w : EvmWorld) : Prop where
  stored : w.Stored o
  row : ∀ o', w.system.orders.find? o.id = some o' → o'.status ≠ .expired
  copies : ∀ p pass c, w.system.passes p = some pass → pass.orders o.id = some c →
    c.cur.status ≠ .expired

theorem Unexpired.step (h : w.Unexpired o) {e : EvmEvent} (htime : w.VisitedInTime o e)
    (hstep : w.step e = some w') : w'.Unexpired o := by
  refine ⟨h.stored.step hstep, ?_, ?_⟩ <;>
    rcases step_cases hstep with ⟨hsystem, -⟩ | ⟨e', rfl, hmove, -, -⟩
  · rw [hsystem]
    exact h.row
  · intro o' ho'
    obtain ⟨-, o₁, ho₁, -⟩ := h.stored
    obtain ⟨o₂, ho₂, -, hst⟩ := hmove.row ho₁
    obtain rfl := Option.some.inj (ho₂.symm.trans ho')
    rcases hst with hst | ⟨p, pass, c, hp, hc, hst⟩
    · rw [hst]
      exact h.row o₁ ho₁
    · rw [hst]
      exact h.copies p pass c hp hc
  · rw [hsystem]
    exact h.copies
  · intro p pass' c' hp hc'
    rcases hmove.pass hp with ⟨now, pending, rfl, hpending, rfl⟩ | ⟨pass, hpass, -, hcopies⟩
    · rw [(copy_of_openPass hpending hc').2]
      decide
    · obtain ⟨c, hc, hcur | ⟨⟨a, r, hvisit⟩, hvisited⟩⟩ := hcopies o.id c' hc'
      · rw [hcur]
        exact h.copies p pass c hpass hc
      · obtain ⟨o₁, ho₁, hterms₁⟩ := h.stored.2
        obtain ⟨o₂, ho₂, hterms₂, -⟩ := h.stored.1.copies p pass o.id c hpass hc
        obtain rfl := Option.some.inj (ho₁.symm.trans ho₂)
        rcases hvisited.2 with hsame | ⟨-, hlate⟩ | hpaid
        · rw [hsame]
          exact h.copies p pass c hpass hc
        · -- the visit is in time
          rw [expiresAt_eq_of_terms (hterms₂.trans hterms₁)] at hlate
          exact absurd (htime a pass r hvisit) (not_lt.mpr hlate)
        · rw [hpaid]
          decide

end Visits

end EvmWorld

open EvmWorld in
/-- **Which payments made in time are confirmed.** From some time on, before `expires_at`, the
address of an order holds an accepted token and 99% of the amount. The visits of the order that
reach a quorum all mark it as paid, in whatever way the passes interleave, if and only if they are
made by passes that began before `expires_at`; and if all its visits are, it never expires. -/
theorem paid_in_time_iff {w₀ w₁ w₂ : EvmWorld} {es₁ es₂ : List EvmEvent} {o : MerchantOrder}
    {t : EvmToken} (h0 : ∀ p, w₀.system.passes p = none)
    (h₁ : exec EvmWorld.step w₀ es₁ = some w₁) (ho : w₁.system.orders.find? o.id = some o)
    (hopen : o.status ≠ .expired) (hearly : w₁.clock < o.expiresAt)
    (run : Run EvmWorld.step (fun w _ => w.Holds o t) w₁ es₂ w₂) :
    (Run EvmWorld.step (fun w e => w.QuorumPays o t e) w₁ es₂ w₂ ↔
      Run EvmWorld.step (fun w e => w.QuorumInTime o t e) w₁ es₂ w₂) ∧
    (Run EvmWorld.step (fun w e => w.VisitedInTime o e) w₁ es₂ w₂ →
      ∃ o', w₂.system.orders.find? o.id = some o' ∧ o'.status ≠ .expired) := by
  have hcopies : w₁.CopiesHold :=
    exec_invariant (fun _ _ _ h hstep => h.step hstep) h₁ (.of_idle h0)
  have hstored : w₁.Stored o := ⟨hcopies, o, ho, rfl⟩
  refine ⟨⟨fun hpays => ?_, fun htime => ?_⟩, fun htime => ?_⟩
  · exact ((run.inter hpays).strengthen (fun _ _ _ h _ hstep => h.step hstep)
      (fun w e _ h hok _ => (h.quorumPays_iff hok.1 e).mp hok.2) hstored)
  · exact ((run.inter htime).strengthen (fun _ _ _ h _ hstep => h.step hstep)
      (fun w e _ h hok _ => (h.quorumPays_iff hok.1 e).mpr hok.2) hstored)
  · have hunexpired : w₁.Unexpired o := by
      refine ⟨hstored, fun o' ho' => ?_, fun p pass c hp hc hexp => ?_⟩
      · obtain rfl := Option.some.inj (ho.symm.trans ho')
        exact hopen
      · obtain ⟨o', ho', -, hdue⟩ := hcopies.copies p pass o.id c hp hc
        obtain rfl := Option.some.inj (ho.symm.trans ho')
        exact absurd (hdue hexp) (not_le.mpr ((hcopies.begun p pass hp).trans_lt hearly))
    have hend := htime.invariant (fun _ _ _ h htime hstep => h.step htime hstep) hunexpired
    obtain ⟨-, o', ho', -⟩ := hend.stored
    exact ⟨o', ho', hend.row o' ho'⟩

/-! ### Passes before and after the expiry -/

instance (w : EvmWorld) (o : MerchantOrder) (t : EvmToken) : Decidable (w.Holds o t) :=
  inferInstanceAs (Decidable (_ ∧ _ ∧ _))

/-- USDT on Ethereum. -/
def ethereumUsdt : EvmToken where
  chain := .ethereum
  rpcUrl := "https://ethereum-rpc.publicnode.com"
  contract := "0xdac17f958d2ee523a2206206994597c13d831ec7"
  asset := .usdt

/-- An order of $5 that expires at time 100. -/
def fiveOrder : MerchantOrder :=
  { sampleOrder 1 with evmAddress := "0x44", amountUsd := ⟨500, by norm_num⟩ }

/-- The order is created, and five USDT arrive at its address. -/
def fiveDeposited : List EvmEvent :=
  [.gateway (.other sampleMerchant (some fiveOrder)), .transfer "0x44" ethereumUsdt 5000000]

/-- The answers to a visit whose rounds agree on the five USDT. -/
def fiveAnswers : Answers :=
  { sampleAnswers 0 with
    evm := checkEvmPayment {} sampleReads fiveOrder.evmAddress fiveOrder.amountUsd.value }

/-- A pass that begins at this time. -/
def fivePass (now : Timestamp) (push : Option PushOutcome) : List EvmEvent :=
  [.wait now, .gateway (.begin 0 now [fiveOrder]), .gateway (.loadMerchants 0),
    .gateway (.visit 0 fiveAnswers)] ++ push.toList.map (.gateway ∘ .push 0) ++
    [.gateway (.finish 0)]

/-- A gateway without orders at time 0, and empty addresses. -/
def evmStart : EvmWorld where
  system := sampleSystem [] (by decide)
  clock := 0
  balances := fun _ _ => 0

/-- Is the event no visit, or one of a pass that began in time? -/
def EvmWorld.inTime (w : EvmWorld) (o : MerchantOrder) : EvmEvent → Bool
  | .gateway (.visit p _) => (w.system.passes p).all fun pass => pass.now < o.expiresAt
  | _ => true

theorem EvmWorld.visitedInTime_of_check {w : EvmWorld} {o : MerchantOrder} {e : EvmEvent}
    (h : w.inTime o e) : w.VisitedInTime o e := by
  cases e with
  | gateway e =>
    rintro a pass r ⟨p, rest, rfl, hp, -⟩
    simpa [inTime, hp] using h
  | _ => trivial

/-- A pass that begins at time 99 confirms the payment. -/
theorem paid_in_time_iff_before : ∃ w₁ w₂,
    exec EvmWorld.step evmStart fiveDeposited = some w₁ ∧
    Run EvmWorld.step (fun w e => w.QuorumPays fiveOrder ethereumUsdt e) w₁
      (fivePass 99 (some .quiet)) w₂ ∧
    ∃ o', w₂.system.orders.find? 1 = some o' ∧ o'.status ≠ .expired := by
  have hopening : ((exec EvmWorld.step evmStart fiveDeposited).map fun w₁ =>
      (w₁.system.orders.find? 1, w₁.clock)) = some (some fiveOrder, 0) := by
    decide +kernel
  obtain ⟨w₁, h₁, hdata⟩ := Option.map_eq_some_iff.mp hopening
  obtain ⟨hrow, hclock⟩ := Prod.mk.inj hdata
  have hpass : ((exec EvmWorld.step evmStart fiveDeposited).bind fun w₁ =>
      exec (restrict (fun w e => w.Holds fiveOrder ethereumUsdt && w.inTime fiveOrder e)
        EvmWorld.step) w₁ (fivePass 99 (some .quiet))).isSome := by
    decide +kernel
  obtain ⟨w₂, h₂⟩ := Option.isSome_iff_exists.mp hpass
  rw [h₁, Option.bind_some] at h₂
  have run := (Run.of_exec_restrict h₂).mono fun _ _ hok => Bool.and_eq_true_iff.mp hok
  have htime := run.mono fun _ _ hok => EvmWorld.visitedInTime_of_check hok.2
  obtain ⟨hpays, hend⟩ := paid_in_time_iff (fun _ => rfl) h₁ hrow (by decide)
    (by rw [hclock]; decide) (run.mono fun _ _ hok => of_decide_eq_true hok.1)
  refine ⟨w₁, w₂, h₁, hpays.mpr (htime.mono fun w e hok => ?_), hend htime⟩
  cases e with
  | gateway e => exact fun a pass r hvisit _ => hok a pass r hvisit
  | _ => trivial

/-- Is the order paid by the visit? -/
def Visit.isPaid : Visit → Bool
  | .paid _ _ _ => true
  | _ => false

/-- **A payment made in time is expired away**: the tokens arrive at time 0, and the order expires
at time 100 in a pass that begins at that time and in which the rounds agree on them. -/
theorem late_pass_expires : ∃ w₁ w₂,
    exec EvmWorld.step evmStart fiveDeposited = some w₁ ∧
    w₁.system.orders.find? 1 = some fiveOrder ∧ fiveOrder.status = .pending ∧
    w₁.clock < fiveOrder.expiresAt ∧
    Run EvmWorld.step (fun w _ => w.Holds fiveOrder ethereumUsdt) w₁ (fivePass 100 none) w₂ ∧
    (w₂.system.orders.find? 1).map MerchantOrder.status = some .expired ∧
    ¬ Run EvmWorld.step (fun w e => w.QuorumPays fiveOrder ethereumUsdt e) w₁
      (fivePass 100 none) w₂ := by
  -- the state before the visit
  have hbefore : (((exec EvmWorld.step evmStart fiveDeposited).bind fun w₁ =>
      exec EvmWorld.step w₁ ((fivePass 100 none).take 3)).bind fun w =>
        (w.system.passes 0).bind fun pass =>
          (pass.nextVisit fiveAnswers).map fun x =>
            (x.1, x.2.2.map Visit.isPaid, w.balances "0x44" ethereumUsdt)) =
      some (1, some false, 5000000) := by
    decide +kernel
  have hpass : (((exec EvmWorld.step evmStart fiveDeposited).bind fun w₁ =>
      exec (restrict (fun w _ => w.Holds fiveOrder ethereumUsdt) EvmWorld.step) w₁
        (fivePass 100 none)).map fun w => (w.system.orders.find? 1).map MerchantOrder.status) =
      some (some .expired) := by
    decide +kernel
  have hopening : ((exec EvmWorld.step evmStart fiveDeposited).map fun w₁ =>
      (w₁.system.orders.find? 1, w₁.clock)) = some (some fiveOrder, 0) := by
    decide +kernel
  obtain ⟨w₁, h₁, hdata⟩ := Option.map_eq_some_iff.mp hopening
  obtain ⟨hrow, hclock⟩ := Prod.mk.inj hdata
  rw [h₁, Option.bind_some] at hbefore hpass
  obtain ⟨w₂, h₂, hexpired⟩ := Option.map_eq_some_iff.mp hpass
  have run := (Run.of_exec_restrict h₂).mono fun _ _ hok => of_decide_eq_true hok
  refine ⟨w₁, w₂, h₁, hrow, rfl, by rw [hclock]; decide, run, hexpired, fun hpays => ?_⟩
  obtain ⟨w, hw, hvisit⟩ := Option.bind_eq_some_iff.mp hbefore
  obtain ⟨pass, hp, hvisit⟩ := Option.bind_eq_some_iff.mp hvisit
  obtain ⟨⟨id, rest, r⟩, hnext, hdata⟩ := Option.map_eq_some_iff.mp hvisit
  simp only [Prod.mk.injEq] at hdata
  obtain ⟨rfl, hr, hbalance⟩ := hdata
  rw [← List.take_append_drop 3 (fivePass 100 none)] at hpays
  obtain ⟨w', hhead, hrest⟩ := hpays.of_append
  obtain rfl : w' = w := Option.some.inj (hhead.exec_eq.symm.trans hw)
  cases hrest with
  | cons hvisited _ _ =>
    have hquorum : w'.Quorum fiveOrder ethereumUsdt fiveAnswers := by
      refine ⟨{}, sampleReads, _, sampleReads_balances "0x44", ?_, rfl⟩
      show some (5000000 : ℤ) = some (w'.balances "0x44" ethereumUsdt : ℤ)
      rw [hbalance]
      rfl
    obtain ⟨o', m, c, rfl⟩ := hvisited fiveAnswers pass r ⟨0, rest, rfl, hp, hnext⟩ hquorum
    cases hr

end Gateway
