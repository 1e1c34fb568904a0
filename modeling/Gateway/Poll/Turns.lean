import Gateway.Poll.Custody

/-!
# What becomes of an order

Passes run one after another, every query is answered with the balances of the address, and no EVM
payment is found. A visit then pays its order exactly when some token account holds all that the
merchant's orders have come to so far in its asset, plus 99% of the amount
(`WorldHolds.visit_answered`); and the payment is stored by the next commit of the pass, if that
goes through. `World.standing` follows an order through these events, and `paid_iff_of_run` says
that it is stored as paid exactly when it stands as paid.
-/

namespace Gateway

open Foundations

/-! ## Visits -/

namespace World

/-- Does the pass visit this order next, before it expires, and does some token account of its
merchant's address hold all that the merchant's orders have come to so far, plus 99% of the
amount? -/
def coversVisit (w : World) (id : OrderId) (p : PassId) : Bool :=
  (w.system.passes p).any fun pass => pass.todo.head? = some id &&
    (pass.orders id).any fun t =>
      pass.now < t.cur.expiresAt && t.cur.solanaAddress.getD "" ≠ "" &&
        (pass.merchants t.cur.merchantId).isSome &&
        [Asset.usdc, .usdt].any fun b => (w.balances (t.cur.merchantId, b)).any fun x =>
          w.paidSoFar pass (t.cur.merchantId, b) + t.cur.amountUsd.value * minPaymentFraction ≤ x

/-- A visit finds no EVM payment, and is told the balances of its merchant's address. -/
def AnsweredVisit (w : World) : Event → Prop
  | .visit p a => a.evm = some none ∧ ∀ pass id rest v t, w.system.passes p = some pass →
      pass.nextVisit a = some (id, rest, v) → pass.orders id = some t →
      w.Answering a t.cur.merchantId
  | _ => True

/-- Passes one after another, over orders of positive amounts, with every query answered and no EVM
payment. -/
def AnsweredRun (w : World) : WorldEvent → Prop
  | .gateway e => (Serial w.system e ∧ PositiveOrders w.system e) ∧ w.AnsweredVisit e
  | _ => True

theorem AnsweredRun.honestRun {w : World} {e : WorldEvent} (h : w.AnsweredRun e) :
    w.HonestRun e := by
  cases e with
  | gateway e =>
    refine ⟨h.1, ?_⟩
    cases e with
    | visit p a =>
      intro pass id rest v t hp hv ht x hx
      exact .inr (h.2.2 pass id rest v t hp hv ht x hx)
    | _ => trivial
  | _ => trivial

end World

namespace WorldHolds

variable {w : World} {p : PassId} {pass : Pass} {a : Answers} {id : OrderId}
  {rest : List OrderId} {t : Tracked MerchantOrder}

/-- The watermarks in a session show what has been paid so far, and are in their range. -/
theorem consumed_session (h : WorldHolds w) (hp : w.system.passes p = some pass) {k : MerchantId}
    {tm : Tracked Merchant} (hm : pass.merchants k = some tm) (b : Asset) :
    tm.cur.consumed b = w.paidSoFar pass (k, b) ∧ tm.cur.consumed b < 10 ^ 20 := by
  obtain ⟨-, m, hf⟩ := (h.serial.sessions.ok p pass hp).merchants k tm hm
  have hmarks := (h.serial.ledger.passes p pass hp).resolve_left (h.inRange p pass hp)
  have hlt := (abs_lt.mp (hmarks.copy k tm m hm hf b).cur_lt).2
  exact ⟨by rw [h.consumed_eq hp hm, h.paidSoFar_eq hp hm], hlt.trans (by norm_num)⟩

/-- **What an answered visit does**: it does not raise, and pays its order exactly when a token
account covers it. -/
theorem visit_answered (h : WorldHolds w) (hp : w.system.passes p = some pass)
    (htodo : pass.todo = id :: rest) (ht : pass.orders id = some t)
    (hans : w.AnsweredVisit (.visit p a)) :
    ∃ v, visitOrder pass.now a t.cur ((pass.merchants t.cur.merchantId).map Tracked.cur) = some v ∧
      ((∃ o' m' c, v = .paid o' m' c) ↔ w.coversVisit id p) := by
  obtain ⟨hevm, hans⟩ := hans
  have hnext : pass.nextVisit a = some (id, rest,
      visitOrder pass.now a t.cur ((pass.merchants t.cur.merchantId).map Tracked.cur)) := by
    simp [Pass.nextVisit, htodo, ht]
  have hbal := hans pass id rest _ t hp hnext ht
  have hcovers : w.coversVisit id p ↔ pass.now < t.cur.expiresAt ∧
      t.cur.solanaAddress.getD "" ≠ "" ∧ (pass.merchants t.cur.merchantId).isSome ∧
      ∃ b, ∃ x ∈ w.balances (t.cur.merchantId, b), w.paidSoFar pass (t.cur.merchantId, b) +
        t.cur.amountUsd.value * minPaymentFraction ≤ x := by
    have hasset : ∀ P : Asset → Prop, (∃ b, P b) ↔ P .usdc ∨ P .usdt := by
      intro P
      constructor
      · rintro ⟨b, hb⟩
        cases b with
        | usdc => exact .inl hb
        | usdt => exact .inr hb
      · rintro (hb | hb)
        · exact ⟨_, hb⟩
        · exact ⟨_, hb⟩
    simp [World.coversVisit, hp, htodo, ht, hasset, and_assoc]
  rw [hcovers, visitOrder]
  by_cases hexp : t.cur.expiresAt ≤ pass.now
  · refine ⟨_, if_pos hexp, iff_of_false (by simp) fun hc => absurd hexp (not_le.mpr hc.1)⟩
  rw [if_neg hexp]
  cases hm : pass.merchants t.cur.merchantId with
  | none =>
    refine ⟨.unpaid, by simp [findPayment, hevm], iff_of_false (by simp) fun hc => ?_⟩
    simp at hc
  | some tm =>
    by_cases hadr : t.cur.solanaAddress.getD "" = ""
    · refine ⟨.unpaid, ?_, iff_of_false (by simp) fun hc => hc.2.1 hadr⟩
      simp [findPayment, hevm, checkSolanaPayment, hadr]
    obtain ⟨o, hf, hcopy⟩ := (h.serial.sessions.ok p pass hp).orders id t ht
    have hamount : IsAmount t.cur.amountUsd.value :=
      .of_column (hcopy.amountUsd_eq ▸ h.serial.positive o (Table.find?_eq_some.mp hf).1)
    have hmark := h.consumed_session hp hm
    obtain ⟨r, hr, hj⟩ := @checkSolanaPayment_of_reports _ _ _ _
      (fun b => w.balances (t.cur.merchantId, b)) hadr hamount (fun b => h.isWatermark hp hm b)
      (fun b => (hmark b).2) hbal (fun b => h.balance_bounds)
    have hfind : findPayment a t.cur (some tm.cur) = some (r.map .solana) := by
      simp [findPayment, hevm, hr]
    rw [Option.map_some, hfind]
    cases r with
    | none =>
      refine ⟨.unpaid, rfl, iff_of_false (by simp) ?_⟩
      rintro ⟨-, -, -, b, x, hx, hle⟩
      rw [← (hmark b).1] at hle
      exact absurd (hj b x hx) (not_lt.mpr hle)
    | some sm =>
      obtain ⟨-, -, -, x, hx, -, hle⟩ := hj
      obtain ⟨o', c, hconf, -⟩ := confirm_some pass.now a (.solana sm) t.cur tm.cur
      refine ⟨_, rfl, iff_of_true ⟨_, _, _, hconf⟩ ⟨not_le.mp hexp, hadr, rfl, sm.asset, x, hx, ?_⟩⟩
      rwa [← (hmark sm.asset).1]

end WorldHolds

/-! ## What an order stands as -/

/-- How far an order has come: `covered` is one that a running pass has found covered and not yet
stored. -/
inductive Standing
  | waiting
  | covered
  | paid
  deriving DecidableEq

/-- What an event makes of it. -/
def Standing.note (id : OrderId) (w : World) (e : WorldEvent) (x : Standing) : Standing :=
  match e, x with
  | .gateway (.visit p _), .waiting => if w.coversVisit id p then .covered else .waiting
  | .gateway e, .covered =>
    if (w.system.committing e).isSome then .paid
    else if (w.system.dropped e).isSome then .waiting
    else .covered
  | _, x => x

/-- How far an order has come after some events. -/
def World.standing (w : World) (id : OrderId) (es : List WorldEvent) : Standing :=
  history World.step (Standing.note id) w .waiting es

/-- Has a running pass marked the order as paid, and not stored it? -/
def System.Marked (s : System) (id : OrderId) : Prop :=
  ∃ p pass t, s.passes p = some pass ∧ pass.orders id = some t ∧ t.cur ≠ t.base ∧
    t.cur.status = .paid

/-- The order is stored, or marked, as it stands. -/
structure StandsFor (s : System) (id : OrderId) (x : Standing) : Prop where
  paid : s.Paid id ↔ x = .paid
  covered : s.Marked id ↔ x = .covered

section Marked

variable {s : System} {id : OrderId} {p : PassId} {pass pass' : Pass}
  (hone : ∀ q other, s.passes q = some other → q = p)

include hone

theorem marked_setPass : (s.setPass p pass').Marked id ↔
    ∃ t, pass'.orders id = some t ∧ t.cur ≠ t.base ∧ t.cur.status = .paid := by
  constructor
  · rintro ⟨q, other, t, hq, ht⟩
    rcases System.passes_setPass hq with ⟨-, rfl⟩ | ⟨hqp, hold⟩
    · exact ⟨t, ht⟩
    · exact absurd (hone q other hold) hqp
  · rintro ⟨t, ht⟩
    exact ⟨p, pass', t, System.passes_setPass_self .., ht⟩

theorem marked_visited {i : OrderId} {rest : List OrderId} {v : Visit} :
    (s.visited p pass i rest v).Marked id ↔
      ∃ t, (pass.afterVisit i rest v).orders id = some t ∧ t.cur ≠ t.base ∧
        t.cur.status = .paid := by
  rw [← marked_setPass hone]
  cases v <;> exact Iff.rfl

theorem not_marked_endPass : ¬ (s.endPass p).Marked id := by
  rintro ⟨q, other, t, hq, -⟩
  obtain ⟨hqp, hold⟩ := System.passes_endPass hq
  exact hqp (hone q other hold)

theorem marked_iff (hp : s.passes p = some pass) : s.Marked id ↔
    ∃ t, pass.orders id = some t ∧ t.cur ≠ t.base ∧ t.cur.status = .paid := by
  constructor
  · rintro ⟨q, other, t, hq, ht⟩
    obtain rfl := hone q other hq
    obtain rfl := Option.some.inj (hp.symm.trans hq)
    exact ⟨t, ht⟩
  · rintro ⟨t, ht⟩
    exact ⟨p, pass, t, hp, ht⟩

/-- A visit marks its order exactly when it pays it. -/
theorem marked_visited_iff (hok : SessionOk s.orders s.merchants pass) {rest : List OrderId}
    {t : Tracked MerchantOrder} {a : Answers} {v : Visit} (htodo : pass.todo = id :: rest)
    (ht : pass.orders id = some t)
    (hv : visitOrder pass.now a t.cur ((pass.merchants t.cur.merchantId).map Tracked.cur) = some v) :
    (s.visited p pass id rest v).Marked id ↔ ∃ o m c, v = .paid o m c := by
  obtain ⟨_, ht', hclean, hpend⟩ := hok.todo_clean id (by simp [htodo])
  obtain rfl := Option.some.inj (ht.symm.trans ht')
  obtain ⟨_, -, hcopy⟩ := hok.orders id t ht
  rw [marked_visited hone]
  rcases unpaid_or_decides rest hcopy.cur_id ht hv with
    rfl | ⟨o, new, hd, ⟨rfl, -⟩ | ⟨m, c, rfl, -, hc⟩⟩
  · refine iff_of_false ?_ (by simp)
    rintro ⟨t', ht', hne, -⟩
    obtain rfl := Option.some.inj (ht.symm.trans ht')
    exact hne hclean
  · refine iff_of_false ?_ (by simp)
    rintro ⟨t', ht', -, hst⟩
    rw [hd.orders_eq, Function.update_self] at ht'
    cases ht'
    rcases visitOrder_cases hv with he | he | ⟨_, _, _, he, -⟩ <;> cases he
    cases hst
  · refine iff_of_true ⟨t.set o, by rw [hd.orders_eq, Function.update_self], ?_, hc.paid⟩
      ⟨_, _, _, rfl⟩
    rintro he
    rw [Tracked.set_cur, Tracked.set_base] at he
    exact hd.decided (he ▸ hpend)

/-- A visit leaves the marks of the other orders. -/
theorem marked_visited_of_ne (hok : SessionOk s.orders s.merchants pass)
    (hp : s.passes p = some pass) {i : OrderId} {rest : List OrderId} {t : Tracked MerchantOrder}
    {a : Answers} {v : Visit} (ht : pass.orders i = some t)
    (hv : visitOrder pass.now a t.cur ((pass.merchants t.cur.merchantId).map Tracked.cur) = some v)
    (hid : id ≠ i) : (s.visited p pass i rest v).Marked id ↔ s.Marked id := by
  have horders : (pass.afterVisit i rest v).orders id = pass.orders id := by
    obtain ⟨_, -, hcopy⟩ := hok.orders i t ht
    rcases unpaid_or_decides rest hcopy.cur_id ht hv with rfl | ⟨o, new, hd, -⟩
    · rfl
    · rw [hd.orders_eq, Function.update_of_ne hid]
  rw [marked_visited hone, marked_iff hone hp, horders]

end Marked

/-- A commit stores what the pass has marked. -/
theorem paid_save {s : System} (h : SoleHolds s) {p : PassId} {pass : Pass}
    (hp : s.passes p = some pass) (id : OrderId) :
    (s.save pass).Paid id ↔ s.Paid id ∨ s.Marked id := by
  have hok := h.sessions.ok p pass hp
  rw [marked_iff (fun q other hq => h.one q p other pass hq hp) hp]
  constructor
  · rintro ⟨o', ho', hpaid⟩
    cases hf : s.orders.find? id with
    | none =>
      rw [s.find?_save, hf] at ho'
      cases ho'
    | some o =>
      obtain ⟨o₁, hf₁, -, -, -, hcase⟩ := hok.find?_saved hf
      obtain rfl : o₁ = o' := Option.some.inj (hf₁.symm.trans ho')
      rcases hcase with ⟨-, rfl⟩ | ⟨t, ht, hne, -, hst, -⟩
      · exact .inl ⟨o₁, hf, hpaid⟩
      · exact .inr ⟨t, ht, hne, hst ▸ hpaid⟩
  · rintro (⟨o, hf, hpaid⟩ | ⟨t, ht, hne, hpaid⟩)
    · obtain ⟨o', hf', -, -, -, ⟨-, rfl⟩ | ⟨-, -, -, hpend, -⟩⟩ := hok.find?_saved hf
      · exact ⟨o', hf', hpaid⟩
      · rw [hpaid] at hpend
        cases hpend
    · obtain ⟨o, hf, -⟩ := hok.orders id t ht
      obtain ⟨o', hf', -, -, -, ⟨hnot, -⟩ | ⟨t', ht', -, -, hst, -⟩⟩ := hok.find?_saved hf
      · exact absurd ⟨t, ht, hne⟩ hnot
      · obtain rfl : t = t' := Option.some.inj (ht.symm.trans ht')
        exact ⟨o', hf', hst.trans hpaid⟩

/-- What an event other than a visit makes of an order. -/
theorem note_eq {id : OrderId} {w : World} {e : Event} (he : ∀ p a, e ≠ .visit p a)
    (x : Standing) : Standing.note id w (.gateway e) x =
      if x = .covered then
        if (w.system.committing e).isSome then .paid
        else if (w.system.dropped e).isSome then .waiting else .covered
      else x := by
  cases x with
  | waiting =>
    cases e with
    | visit p a => exact absurd rfl (he p a)
    | _ => rfl
  | covered => cases e <;> rfl
  | paid => cases e <;> rfl

namespace StandsFor

variable {w : World} {s : System} {id : OrderId} {x : Standing} {e : Event}

/-- The event leaves the order alone. -/
theorem same (h : StandsFor w.system id x) (he : ∀ p a, e ≠ .visit p a)
    (hcommit : w.system.committing e = none) (hdrop : w.system.dropped e = none)
    (hpaid : s.Paid id ↔ w.system.Paid id) (hmarked : s.Marked id ↔ w.system.Marked id) :
    StandsFor s id (Standing.note id w (.gateway e) x) := by
  have hnote : Standing.note id w (.gateway e) x = x := by
    rw [note_eq he, hcommit, hdrop]
    cases x <;> rfl
  rw [hnote]
  exact ⟨hpaid.trans h.paid, hmarked.trans h.covered⟩

/-- The event ends the pass without a commit. -/
theorem drop (h : StandsFor w.system id x) (he : ∀ p a, e ≠ .visit p a)
    (hcommit : w.system.committing e = none) {pass : Pass}
    (hdrop : w.system.dropped e = some pass) (hpaid : s.Paid id ↔ w.system.Paid id)
    (hmarked : ¬ s.Marked id) : StandsFor s id (Standing.note id w (.gateway e) x) := by
  rw [note_eq he, hcommit, hdrop]
  refine ⟨hpaid.trans (h.paid.trans ?_), iff_of_false hmarked ?_⟩ <;> cases x <;> simp

/-- The event commits the pass. -/
theorem commit (h : StandsFor w.system id x) (he : ∀ p a, e ≠ .visit p a) {pass : Pass}
    (hcommit : w.system.committing e = some pass)
    (hpaid : s.Paid id ↔ w.system.Paid id ∨ w.system.Marked id) (hmarked : ¬ s.Marked id) :
    StandsFor s id (Standing.note id w (.gateway e) x) := by
  rw [h.paid, h.covered] at hpaid
  rw [note_eq he, hcommit]
  refine ⟨hpaid.trans ?_, iff_of_false hmarked ?_⟩ <;> cases x <;> simp

/-- An order that a pass still has to visit is neither marked nor stored as paid. -/
theorem waiting_of_todo (h : StandsFor w.system id x) (hw : WorldHolds w) {p : PassId}
    {pass : Pass} (hp : w.system.passes p = some pass) (hid : id ∈ pass.todo) : x = .waiting := by
  cases x with
  | waiting => rfl
  | covered =>
    obtain ⟨t, ht, hclean, -⟩ := (hw.serial.sessions.ok p pass hp).todo_clean id hid
    have hone : ∀ q other, w.system.passes q = some other → q = p :=
      fun q other hq => hw.serial.one q p other pass hq hp
    obtain ⟨t', ht', hne, -⟩ := (marked_iff hone hp).mp (h.covered.mpr rfl)
    obtain rfl := Option.some.inj (ht.symm.trans ht')
    exact absurd hclean hne
  | paid =>
    obtain ⟨o, ho, hst⟩ := h.paid.mpr rfl
    obtain ⟨o', ho', hpend⟩ := hw.serial.todo p pass hp id hid
    obtain rfl := Option.some.inj (ho.symm.trans ho')
    rw [hst] at hpend
    cases hpend

/-- **An answered visit** marks its order exactly when a token account covers it. -/
theorem visit (h : StandsFor w.system id x) (hw : WorldHolds w) {p : PassId} {pass : Pass}
    {a : Answers} {i : OrderId} {rest : List OrderId} {t : Tracked MerchantOrder} {v : Visit}
    (hp : w.system.passes p = some pass) (htodo : pass.todo = i :: rest)
    (ht : pass.orders i = some t)
    (hv : visitOrder pass.now a t.cur ((pass.merchants t.cur.merchantId).map Tracked.cur) = some v)
    (hans : w.AnsweredVisit (.visit p a)) :
    StandsFor (w.system.visited p pass i rest v) id
      (Standing.note id w (.gateway (.visit p a)) x) := by
  have hok := hw.serial.sessions.ok p pass hp
  have hone : ∀ q other, w.system.passes q = some other → q = p :=
    fun q other hq => hw.serial.one q p other pass hq hp
  have hpaid : (w.system.visited p pass i rest v).Paid id ↔ w.system.Paid id := by
    cases v <;> exact Iff.rfl
  by_cases hid : id = i
  · subst hid
    obtain rfl := h.waiting_of_todo hw hp (by simp [htodo])
    obtain ⟨v', hv', hcovers⟩ := hw.visit_answered hp htodo ht hans
    obtain rfl : v = v' := Option.some.inj (hv.symm.trans hv')
    have hmarked : (w.system.visited p pass id rest v).Marked id ↔ w.coversVisit id p :=
      (marked_visited_iff hone hok htodo ht hv).trans hcovers
    have hnot : ¬ (w.system.visited p pass id rest v).Paid id := by
      rw [hpaid, h.paid]
      simp
    simp only [Standing.note]
    split_ifs with hcov
    · exact ⟨iff_of_false hnot (by simp), iff_of_true (hmarked.mpr hcov) rfl⟩
    · exact ⟨iff_of_false hnot (by simp), iff_of_false (mt hmarked.mp hcov) (by simp)⟩
  · have hnote : Standing.note id w (.gateway (.visit p a)) x = x := by
      have hcov : w.coversVisit id p = false := by
        simp [World.coversVisit, hp, htodo, Ne.symm hid]
      have hdrop : w.system.dropped (.visit p a) = none := by
        simp [System.dropped, hp, Pass.nextVisit, htodo, ht, hv, Option.filter_some]
      cases x with
      | waiting => simp [Standing.note, hcov]
      | covered => simp [Standing.note, System.committing, hdrop]
      | paid => rfl
    rw [hnote]
    exact ⟨hpaid.trans h.paid, (marked_visited_of_ne hone hok hp ht hv hid).trans h.covered⟩

/-- What an event of the gateway makes of an order. -/
theorem step (h : StandsFor w.system id x) (hw : WorldHolds w)
    (hok : w.AnsweredRun (.gateway e)) (hs : w.system.step e = some s) :
    StandsFor s id (Standing.note id w (.gateway e) x) := by
  have hone : ∀ {p pass}, w.system.passes p = some pass →
      ∀ q other, w.system.passes q = some other → q = p :=
    fun hp q other hq => hw.serial.one q _ other _ hq hp
  -- a pass goes on with the copies of orders that it has
  have hgo : ∀ {p pass pass'}, w.system.passes p = some pass → pass'.orders = pass.orders →
      ((w.system.setPass p pass').Marked id ↔ w.system.Marked id) := by
    intro p pass pass' hp ho
    rw [marked_setPass (hone hp), marked_iff (hone hp) hp, ho]
  cases Move.of_step hs with
  | none hp => exact h.same (by simp) rfl rfl Iff.rfl Iff.rfl
  | @begin p now pending hp _ =>
    refine h.same (by simp) rfl rfl Iff.rfl (iff_of_false ?_ ?_)
    · rintro ⟨q, other, t, hq, ht, hne, -⟩
      rcases System.passes_setPass hq with ⟨-, rfl⟩ | ⟨-, hold⟩
      · obtain ⟨o, -, rfl⟩ := Option.map_eq_some_iff.mp ht
        exact hne rfl
      · rw [hok.1.1 q] at hold
        cases hold
    · rintro ⟨q, other, t, hq, -⟩
      rw [hok.1.1 q] at hq
      cases hq
  | load hp _ => exact h.same (by simp) rfl rfl Iff.rfl (hgo hp rfl)
  | visit hp _ htodo ht hv => exact h.visit hw hp htodo ht hv hok.2
  | @raise p a pass id' rest hp hv =>
    obtain ⟨htodo, t, ht, hnone⟩ := Pass.nextVisit_eq_some hv
    obtain ⟨v, hv', -⟩ := hw.visit_answered hp htodo ht hok.2
    rw [hv'] at hnone
    cases hnone
  | @mark p o pass broken hp _ hlost =>
    refine h.same (by simp) ?_ rfl Iff.rfl (hgo hp rfl)
    cases o with
    | commits => simp [System.committing, hp, Option.filter_some, hlost.2 rfl]
    | _ => rfl
  | @pushSave p pass hp _ hsave =>
    have hcommit : w.system.committing (.push p .commits) = some pass := by
      simp [System.committing, hp, Option.filter_some, hsave]
    refine h.commit (by simp) hcommit (paid_save hw.serial.toSoleHolds hp id) ?_
    have hsaved : ∀ q other, (w.system.save pass).passes q = some other → q = p := hone hp
    rw [marked_setPass hsaved]
    rintro ⟨t, ht, hne, -⟩
    obtain ⟨t₀, -, rfl⟩ := Option.map_eq_some_iff.mp ht
    exact hne rfl
  | @finishSave p pass hp hsave =>
    have hcommit : w.system.committing (.finish p) = some pass := by
      simp [System.committing, hp, Option.filter_some, hsave]
    exact h.commit (by simp) hcommit (paid_save hw.serial.toSoleHolds hp id)
      (not_marked_endPass (hone hp))
  | @finishLost p pass hp hlost =>
    have hcommit : w.system.committing (.finish p) = none := by
      simp [System.committing, hp, Option.filter_some, hlost]
    have hdrop : w.system.dropped (.finish p) = some pass := by
      simp [System.dropped, hp, Option.filter_some, hlost]
    exact h.drop (by simp) hcommit hdrop Iff.rfl (not_marked_endPass (hone hp))
  | @abort p pass hp =>
    have hdrop : w.system.dropped (.abort p) = some pass := hp
    exact h.drop (by simp) rfl hdrop Iff.rfl (not_marked_endPass (hone hp))
  | @other m order s' hother =>
    refine h.same (by simp) rfl rfl ?_ ?_
    · constructor
      · rintro ⟨o, ho, hpaid⟩
        obtain ⟨hmem, hid⟩ := Table.find?_eq_some.mp ho
        rcases System.mem_other hother hmem with hmem | ⟨-, hmay⟩
        · exact ⟨o, Table.find?_eq_some.mpr ⟨hmem, hid⟩, hpaid⟩
        · simp only [System.mayAdd, Bool.and_eq_true, decide_eq_true_eq] at hmay
          rw [hpaid] at hmay
          cases hmay.1
      · rintro ⟨o, ho, hpaid⟩
        exact ⟨o, System.find?_other hother ho, hpaid⟩
    · obtain ⟨-, orders, rfl, -⟩ := System.other_eq_some hother
      exact Iff.rfl

end StandsFor

/-- **An order is stored as paid exactly when it stands as paid**, after every run of passes one
after another, deposits, withdrawals and other transactions in which every query is answered. -/
theorem paid_iff_of_run {w₀ w : World} {es : List WorldEvent} {id : OrderId} (h0 : w₀.Start)
    (hunpaid : ¬ w₀.system.Paid id) (run : Run World.step World.AnsweredRun w₀ es w) :
    w.system.Paid id ↔ w₀.standing id es = .paid := by
  have hstart : StandsFor w₀.system id .waiting := by
    refine ⟨iff_of_false hunpaid (by simp), iff_of_false ?_ (by simp)⟩
    rintro ⟨p, pass, _, hp, -⟩
    rw [h0.system.idle p] at hp
    cases hp
  have hstep : ∀ v e v' x, WorldHolds v ∧ StandsFor v.system id x → v.AnsweredRun e →
      v.step e = some v' →
      WorldHolds v' ∧ StandsFor v'.system id (Standing.note id v e x) := by
    rintro v e v' x ⟨hv, hx⟩ hok hs
    refine ⟨hv.step hok.honestRun hs, ?_⟩
    cases e with
    | deposit k i units =>
      obtain ⟨l, -, hs⟩ := Option.bind_eq_some_iff.mp hs
      split_ifs at hs
      cases hs
      cases x <;> exact hx
    | withdraw k i units =>
      obtain ⟨l, -, rfl⟩ := Option.map_eq_some_iff.mp hs
      cases x <;> exact hx
    | gateway e =>
      obtain ⟨s, hs', rfl⟩ := Option.map_eq_some_iff.mp hs
      exact hx.step hv hok hs'
  exact (run.history hstep ⟨h0.holds, hstart⟩).2.paid

/-! ## Checking a run -/

/-- Are the amounts positive, the queries answered, and no EVM payments found? -/
def World.answeredEvent (w : World) : WorldEvent → Bool
  | .gateway (.other _ order) => order.all fun o => 0 < o.amountUsd.value
  | .gateway (.visit p a) => a.evm = some none &&
    (w.system.passes p).all fun pass => (pass.nextVisit a).all fun next =>
      (pass.orders next.1).all fun t => w.Answering a t.cur.merchantId
  | _ => true

theorem World.answeredEvent_sound {w : World} {e : Event} (h : w.answeredEvent (.gateway e)) :
    PositiveOrders w.system e ∧ w.AnsweredVisit e := by
  cases e with
  | other m order =>
    refine ⟨fun o ho => ?_, trivial⟩
    obtain rfl := ho
    simpa [answeredEvent] using h
  | visit p a =>
    simp only [answeredEvent, Bool.and_eq_true, decide_eq_true_eq] at h
    refine ⟨trivial, h.1, fun pass id rest v t hp hv ht => ?_⟩
    simpa [hp, hv, ht] using h.2
  | _ => exact ⟨trivial, trivial⟩

/-- Performing answered events, with passes under one name, is an answered run. -/
theorem answeredRun_of_exec {w w' : World} {es : List WorldEvent} {p : PassId}
    (hidle : ∀ q, q ≠ p → w.system.passes q = none)
    (hes : ∀ e, .gateway e ∈ es → ∀ q ∈ e.pass?, q = p)
    (h : exec (restrict World.answeredEvent World.step) w es = some w') :
    Run World.step World.AnsweredRun w es w' := by
  have hanswered := Run.of_exec_restrict h
  refine ((serialWorld_of_exec hidle hes hanswered.exec_eq).inter hanswered).mono ?_
  rintro t e ⟨hserial, hok⟩
  cases e with
  | gateway e =>
    obtain ⟨hpos, hvisit⟩ := World.answeredEvent_sound hok
    exact ⟨⟨hserial e rfl, hpos⟩, hvisit⟩
  | _ => trivial

end Gateway
