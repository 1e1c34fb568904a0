import Mathlib.Data.List.GetD
import Gateway.Poll.Turns

/-!
# Shortfalls add up

An order is satisfied by 99% of its amount, but claims all of it. When the customers of a merchant
each pay a little less than invoiced, the watermark runs ahead of the balance, and what was
tolerated of one customer is charged to the next: `paid_in_turn_iff` says in which runs every order
is paid by the pass it is due in, and `shortfall_charged` is the second of two customers who both
pay 99%. When the customers pay strictly one after another, the condition is one on their deposits
alone (`sales_paid_iff`).
-/

namespace Gateway

open Foundations

/-- What happens up to a pass and the pass, with the order that is due in it. -/
structure Turn where
  order : OrderId
  /-- The deposits and other transactions since the last pass. -/
  before : List WorldEvent
  pass : List Event

/-- The events of a turn. -/
def Turn.events (x : Turn) : List WorldEvent := x.before ++ x.pass.map .gateway

/-- Every order is stored as paid after the pass that it is due in. -/
def PaidInTurn (w : World) (xs : List Turn) : Prop :=
  ∀ pre x post w', xs = pre ++ x :: post →
    exec World.step w ((pre ++ [x]).flatMap Turn.events) = some w' → w'.system.Paid x.order

/-! ## Sales -/

/-- An order is created, a deposit for it arrives, and a pass runs. -/
structure Sale where
  order : MerchantOrder
  /-- The merchant as the transaction that adds the order stores it. -/
  merchant : Merchant
  asset : Asset
  /-- The token account that the deposit goes to. -/
  account : ℕ
  units : ℕ
  pass : List Event

namespace Sale

/-- The order is created and the deposit arrives. -/
def opening (x : Sale) : List WorldEvent :=
  [.gateway (.other x.merchant (some x.order)),
    .deposit (x.order.merchantId, x.asset) x.account x.units]

/-- The sale as a turn. -/
def turn (x : Sale) : Turn where
  order := x.order.id
  before := x.opening
  pass := x.pass

/-- A sale of the merchant whose deposit falls short by 1% at most, with a whole pass before the
order expires. -/
structure Tolerated (k : MerchantId) (x : Sale) : Prop where
  order : x.order.merchantId = k
  merchant : x.merchant.id = k
  address : x.order.solanaAddress.getD "" ≠ ""
  enough : x.order.amountUsd.value * minPaymentFraction ≤ toUiAmount x.units
  notMore : toUiAmount x.units ≤ x.order.amountUsd.value
  whole : ∃ p now, WholePass p now x.pass ∧ now < x.order.expiresAt

end Sale

/-- The amounts of the orders whose deposits are of the asset. -/
def invoiced (xs : List Sale) (b : Asset) : ℚ :=
  (xs.map fun x => if x.asset = b then x.order.amountUsd.value else 0).sum

/-- The units that the deposits bring into a token account. -/
def deposited (xs : List Sale) (b : Asset) (j : ℕ) : ℕ :=
  (xs.map fun x => if x.asset = b ∧ x.account = j then x.units else 0).sum

/-- After the earlier sales, does the deposit lift its token account to all that was invoiced before
plus 99% of the amount, and does the monthly volume fit? -/
def Afforded (earlier : List Sale) (x : Sale) : Prop :=
  invoiced earlier x.asset + x.order.amountUsd.value * minPaymentFraction ≤
    toUiAmount (deposited (earlier ++ [x]) x.asset x.account) ∧
  ∀ p a, .visit p a ∈ x.pass → x.merchant.volumeFits a.clock x.order.amountUsd.value

/-! ## The deposits -/

theorem invoiced_append (xs ys : List Sale) (b : Asset) :
    invoiced (xs ++ ys) b = invoiced xs b + invoiced ys b := by
  simp [invoiced]

theorem deposited_append (xs ys : List Sale) (b : Asset) (j : ℕ) :
    deposited (xs ++ ys) b j = deposited xs b j + deposited ys b j := by
  simp [deposited]

/-- No token account ever holds more than what was invoiced. -/
theorem deposited_le_invoiced {k : MerchantId} {xs : List Sale} (h : ∀ x ∈ xs, x.Tolerated k)
    (b : Asset) (j : ℕ) : toUiAmount (deposited xs b j) ≤ invoiced xs b := by
  induction xs with
  | nil => simp [deposited, invoiced, toUiAmount]
  | cons x xs ih =>
    have ih := ih fun y hy => h y (by simp [hy])
    have hx : toUiAmount (if x.asset = b ∧ x.account = j then x.units else 0) ≤
        if x.asset = b then x.order.amountUsd.value else 0 := by
      have hle := (h x (by simp)).notMore
      have hpos : 0 ≤ toUiAmount x.units := by
        unfold toUiAmount
        positivity
      by_cases hb : x.asset = b
      · by_cases hj : x.account = j
        · simpa [hb, hj] using hle
        · simpa [hb, hj, toUiAmount] using hpos.trans hle
      · simp [hb, toUiAmount]
    calc toUiAmount (deposited (x :: xs) b j)
        = toUiAmount (if x.asset = b ∧ x.account = j then x.units else 0) +
            toUiAmount (deposited xs b j) := by
          rw [← toUiAmount_add]
          rfl
      _ ≤ (if x.asset = b then x.order.amountUsd.value else 0) + invoiced xs b :=
          add_le_add hx ih
      _ = invoiced (x :: xs) b := by simp [invoiced]

section Covers

variable {w : World} {k : MerchantId} {earlier : List Sale} {x : Sale}

/-- Only the token account of the deposit can cover the order. -/
theorem covers_iff (hearlier : ∀ y ∈ earlier, y.Tolerated k) (hpos : 0 < x.order.amountUsd.value)
    (htotal : ∀ b, w.system.paidTotal k b = invoiced earlier b)
    (hheld : ∀ b j, (w.accounts (k, b)).getD j 0 = deposited (earlier ++ [x]) b j) (b : Asset) :
    w.Covers k x.order.amountUsd.value b ↔ b = x.asset ∧
      invoiced earlier b + x.order.amountUsd.value * minPaymentFraction ≤
        toUiAmount (deposited (earlier ++ [x]) b x.account) := by
  have hthreshold : 0 < x.order.amountUsd.value * minPaymentFraction :=
    mul_pos hpos (by norm_num [minPaymentFraction])
  constructor
  · rintro ⟨_, hq, hle⟩
    obtain ⟨units, hunits, rfl⟩ := List.mem_map.mp hq
    obtain ⟨j, hj, rfl⟩ := List.getElem_of_mem hunits
    rw [← List.getD_eq_getElem _ 0 hj, hheld, htotal] at hle
    by_cases hx : x.asset = b ∧ x.account = j
    · obtain ⟨rfl, rfl⟩ := hx
      exact ⟨rfl, hle⟩
    · -- no deposit of this sale: the account holds at most what was invoiced before
      have hold := deposited_le_invoiced hearlier b j
      rw [deposited_append, show deposited [x] b j = 0 by simp [deposited, hx], add_zero] at hle
      linarith
  · rintro ⟨rfl, hle⟩
    have hj : x.account < (w.accounts (k, x.asset)).length := by
      by_contra hj
      rw [← hheld, List.getD_eq_default _ _ (not_lt.mp hj)] at hle
      have hinv := deposited_le_invoiced hearlier x.asset x.account
      have : 0 ≤ toUiAmount (deposited earlier x.asset x.account) := by
        unfold toUiAmount
        positivity
      rw [show toUiAmount 0 = 0 by simp [toUiAmount]] at hle
      linarith
    refine ⟨_, List.mem_map_of_mem (List.getElem_mem hj), ?_⟩
    rw [htotal, ← List.getD_eq_getElem _ 0 hj, hheld]
    exact hle

end Covers

/-! ## One sale -/

/-- What holds between two sales of the merchant, as long as all orders have been paid. -/
structure SalesHold (k : MerchantId) (earlier : List Sale) (w : World) : Prop where
  world : WorldHolds w
  settled : ∀ id o, w.system.orders.find? id = some o → o.status ≠ .pending
  claimed : ∀ b, Ledger.total w.system.ledger (k, b) = invoiced earlier b
  held : ∀ b j, (w.accounts (k, b)).getD j 0 = deposited earlier b j
  tolerated : ∀ x ∈ earlier, x.Tolerated k

/-- The replies of a pass over one order are about the balances before it: its own steps leave them
alone. -/
theorem answering_of_lone {w w' : World} {o : MerchantOrder} {m : Merchant} {p : PassId}
    {now : Timestamp} {a : Answers} {push : Option PushOutcome}
    (hm : w.system.merchants.find? o.merchantId = some m)
    (run : Run World.step World.AnsweredRun w ((lonePass p now o a push).map .gateway) w') :
    a.evm = some none ∧ w.Answering a o.merchantId := by
  have hsplit : (lonePass p now o a push).map WorldEvent.gateway =
      [Event.begin p now [o], .loadMerchants p].map .gateway ++
        (.gateway (.visit p a) ::
          (push.toList.map (Event.push p) ++ [Event.finish p]).map .gateway) := rfl
  rw [hsplit] at run
  obtain ⟨w₂, hopen, hrest⟩ := run.of_append
  have hexec : exec World.step w ([Event.begin p now [o], .loadMerchants p].map .gateway) =
      some w₂ := hopen.exec_eq
  rw [World.exec_gateway] at hexec
  obtain ⟨s₂, hs₂, rfl⟩ := Option.map_eq_some_iff.mp hexec
  obtain ⟨-, hs₂⟩ := exec_opening_lone hm hs₂
  obtain rfl := Option.some.inj hs₂
  cases hrest with
  | cons hok _ _ =>
    obtain ⟨hevm, hans⟩ := hok.2
    exact ⟨hevm, hans _ o.id [] _ (Tracked.load o) (System.passes_setPass_self ..)
      (nextVisit_loneSession hm a) (by simp [loneSession])⟩

section SaleStep

variable {k : MerchantId} {earlier : List Sale} {w w' : World} {x : Sale}

/-- The world in which the pass of a sale starts. -/
structure Offered (k : MerchantId) (earlier : List Sale) (x : Sale) (w : World) : Prop where
  world : WorldHolds w
  pending : w.system.orders.rows.filter (fun o => o.status = .pending) = [x.order]
  settled : ∀ id o, id ≠ x.order.id → w.system.orders.find? id = some o → o.status ≠ .pending
  merchant : w.system.merchants.find? k = some x.merchant
  claimed : ∀ b, Ledger.total w.system.ledger (k, b) = invoiced earlier b
  held : ∀ b j, (w.accounts (k, b)).getD j 0 = deposited (earlier ++ [x]) b j

/-- An order is created and its deposit arrives. -/
theorem SalesHold.offered (h : SalesHold k earlier w) (hx : x.Tolerated k) {w₂ : World}
    (run : Run World.step World.HonestRun w x.opening w₂) : Offered k earlier x w₂ := by
  have hw₂ : WorldHolds w₂ := run.invariant (fun _ _ _ h hok hs => h.step hok hs) h.world
  obtain ⟨w₁, h₁, hrest⟩ := Option.bind_eq_some_iff.mp run.exec_eq
  obtain ⟨_, h₂, hnil⟩ := Option.bind_eq_some_iff.mp hrest
  obtain rfl := Option.some.inj hnil
  obtain ⟨s, hs, rfl⟩ := Option.map_eq_some_iff.mp h₁
  obtain ⟨hmay, orders, hins, rfl⟩ := System.other_add hs
  obtain ⟨l, hl, h₂⟩ := Option.bind_eq_some_iff.mp h₂
  split_ifs at h₂
  obtain rfl := Option.some.inj h₂
  obtain ⟨hnone, hrows⟩ := Table.insert?_eq_some hins
  have hstatus : x.order.status = .pending := by
    simp only [System.mayAdd, Bool.and_eq_true, decide_eq_true_eq] at hmay
    exact hmay.1
  refine ⟨hw₂, ?_, ?_, ?_, h.claimed, ?_⟩
  · show orders.rows.filter _ = _
    have hold : w.system.orders.rows.filter (fun o => o.status = .pending) = [] := by
      rw [List.filter_eq_nil_iff]
      intro o ho
      simpa using h.settled o.id o (Table.find?_of_mem ho)
    rw [hrows, List.filter_append, hold]
    simp [hstatus]
  · intro id o hne ho
    apply h.settled id o
    rw [← ho]
    show _ = orders.find? id
    rw [Table.find?_insert? hins, if_neg (by simpa using Ne.symm hne)]
  · show (w.system.merchants.put x.merchant).find? k = _
    rw [Table.find?_put, if_pos (by simpa using hx.merchant)]
  · intro b j
    rw [deposited_append]
    show (Function.update w.accounts (x.order.merchantId, x.asset) l (k, b)).getD j 0 = _
    rw [hx.order] at hl ⊢
    by_cases hb : b = x.asset
    · subst hb
      rw [Function.update_self, getD_credit hl, h.held]
      simp [deposited, eq_comm]
    · rw [Function.update_of_ne (by simp [hb]), h.held]
      simp [deposited, Ne.symm hb]

/-- What the watermark of the merchant shows before the pass. -/
theorem Offered.consumed_eq (h : Offered k earlier x w) (b : Asset) :
    x.merchant.consumed b = invoiced earlier b ∧ w.system.paidTotal k b = invoiced earlier b := by
  obtain ⟨hmem, hid⟩ := Table.find?_eq_some.mp h.merchant
  have hconsumed : x.merchant.consumed b = invoiced earlier b := by
    rw [(h.world.serial.ledger.marks _ hmem b).1, ← h.claimed b]
    simpa using congrArg (fun id => Ledger.total w.system.ledger (id, b)) hid
  exact ⟨hconsumed, by rw [← hconsumed, (h.world.stored_mark h.merchant b).1]⟩

/-- The order is afforded when a token account covers it and the monthly volume fits. -/
theorem Offered.afforded_iff (h : Offered k earlier x w) (hearlier : ∀ y ∈ earlier, y.Tolerated k)
    {p : PassId} {now : Timestamp} {a : Answers} {push : Option PushOutcome}
    (hpass : x.pass = lonePass p now x.order a push) :
    Afforded earlier x ↔ (∃ b, w.Covers k x.order.amountUsd.value b) ∧
      x.merchant.volumeFits a.clock x.order.amountUsd.value := by
  have hpos : 0 < x.order.amountUsd.value := by
    have : x.order ∈ w.system.orders.rows.filter fun o => o.status = .pending := by
      simp [h.pending]
    exact h.world.serial.positive _ (List.mem_filter.mp this).1
  have hcovers := covers_iff hearlier hpos (fun b => (h.consumed_eq b).2) h.held
  have hvisit : ∀ q a', .visit q a' ∈ x.pass ↔ q = p ∧ a' = a := by
    intro q a'
    simp [hpass, lonePass]
  simp only [Afforded, hcovers, hvisit]
  constructor
  · rintro ⟨hle, hvol⟩
    exact ⟨⟨_, rfl, hle⟩, hvol p a ⟨rfl, rfl⟩⟩
  · rintro ⟨⟨_, rfl, hle⟩, hvol⟩
    refine ⟨hle, ?_⟩
    rintro _ _ ⟨rfl, rfl⟩
    exact hvol

/-- Once the order is paid and its claim stored, everything is as before the next sale. -/
theorem Offered.salesHold (h : Offered k earlier x w) (hearlier : ∀ y ∈ earlier, y.Tolerated k)
    (hx : x.Tolerated k) {s' : System} {m' : Merchant} (hw' : WorldHolds { w with system := s' })
    (hpaid : s'.Paid x.order.id)
    (hrest : ∀ id, id ≠ x.order.id → s'.orders.find? id = w.system.orders.find? id)
    (hmer : s'.merchants.find? k = some m')
    (hmark : ∀ b, m'.consumed b = invoiced (earlier ++ [x]) b) :
    SalesHold k (earlier ++ [x]) { w with system := s' } where
  world := hw'
  settled := by
    intro id o ho
    by_cases hid : id = x.order.id
    · obtain ⟨o', ho', hst⟩ := hpaid
      rw [hid, show s'.orders.find? x.order.id = _ from ho'] at ho
      cases ho
      rw [hst]
      exact Status.noConfusion
    · exact h.settled id o hid ((hrest id hid).symm.trans ho)
  claimed := by
    intro b
    obtain ⟨hmem, hid⟩ := Table.find?_eq_some.mp hmer
    have htotal := (hw'.serial.ledger.marks _ hmem b).1
    rw [key_merchant] at hid
    rw [hid, hmark] at htotal
    exact htotal.symm
  held := h.held
  tolerated := by
    intro y hy
    rcases List.mem_append.mp hy with hy | hy
    · exact hearlier y hy
    · rwa [List.mem_singleton.mp hy]

/-- **A pass after a sale**: the order is paid exactly when it is afforded, and then everything is
as before the next sale. -/
theorem Offered.pass (h : Offered k earlier x w) (hearlier : ∀ y ∈ earlier, y.Tolerated k)
    (hx : x.Tolerated k)
    (run : Run World.step World.AnsweredRun w (x.pass.map .gateway) w') :
    (w'.system.Paid x.order.id ↔ Afforded earlier x) ∧
      (Afforded earlier x → SalesHold k (earlier ++ [x]) w') := by
  obtain ⟨p, now, hes, hexp⟩ := hx.whole
  have hw' : WorldHolds w' := run.invariant (fun _ _ _ h hok hs => h.step hok.honestRun hs) h.world
  have hexec := run.exec_eq
  rw [World.exec_gateway] at hexec
  obtain ⟨s', hs', rfl⟩ := Option.map_eq_some_iff.mp hexec
  have hm : w.system.merchants.find? x.order.merchantId = some x.merchant := hx.order ▸ h.merchant
  have hlone : w.system.LonePending now x.order := .of_filter h.pending
  obtain ⟨a, push, hpass⟩ := hes.eq_lonePass h.pending hm hs'
  have hvisit : w.system.VisitedWith x.pass p x.order.id a := by
    rw [hpass] at hs' ⊢
    exact visitedWith_lonePass hm hs'
  rw [hpass] at run
  obtain ⟨hevm, hans⟩ := answering_of_lone hm run
  have hafforded := h.afforded_iff hearlier hpass
  have hcase := lone_order_solana h.world hes hlone hm hx.address hexp hs' hvisit hans hevm
  rw [hx.order] at hcase
  rcases hcase with ⟨hvol, sm, hcov, hnew, hpaid, hmer⟩ | ⟨hnot, hrows⟩
  · refine ⟨iff_of_true hpaid (hafforded.mpr ⟨⟨_, hcov⟩, hvol⟩), fun _ => ?_⟩
    have hasset : sm.asset = x.asset :=
      ((covers_iff hearlier (h.world.serial.positive _ hlone.mem)
        (fun b => (h.consumed_eq b).2) h.held sm.asset).mp hcov).1
    have hscaled : Scaled 2 sm.newConsumed := by
      rw [hnew]
      exact (h.world.stored_mark h.merchant sm.asset).2.1.scaled.add (Scaled.numeric _)
    refine h.salesHold hearlier hx hw' hpaid
      (fun id hid => hes.find?_of_not_pending hs' (h.settled id · hid)) hmer fun b => ?_
    rw [consumed_write_claim hnew hscaled, (h.consumed_eq b).1, hasset, invoiced_append]
    simp [invoiced]
  · refine ⟨iff_of_false ?_ fun hf => hnot (hafforded.mp hf),
      fun hf => absurd (hafforded.mp hf) hnot⟩
    rintro ⟨o', ho', hpaid⟩
    rw [hrows.order] at ho'
    cases ho'
    rw [hlone.pending] at hpaid
    cases hpaid

end SaleStep

/-! ## One sale after another -/

theorem forall_split_cons {α : Type*} {P : List α → α → Prop} (y : α) (ys : List α) :
    (∀ pre x post, y :: ys = pre ++ x :: post → P pre x) ↔
      P [] y ∧ ∀ pre x post, ys = pre ++ x :: post → P (y :: pre) x := by
  constructor
  · intro h
    exact ⟨h [] y ys rfl, fun pre x post he => h (y :: pre) x post (by rw [he]; rfl)⟩
  · rintro ⟨hy, hys⟩ pre x post he
    cases pre with
    | nil =>
      obtain ⟨rfl, -⟩ := List.cons.inj he
      exact hy
    | cons z pre =>
      obtain ⟨rfl, htail⟩ := List.cons.inj he
      exact hys pre x post htail

/-- The first order is paid by its pass, and the others after it. -/
theorem paidInTurn_cons {w w₁ : World} {x : Turn} {xs : List Turn}
    (h : exec World.step w x.events = some w₁) :
    PaidInTurn w (x :: xs) ↔ w₁.system.Paid x.order ∧ PaidInTurn w₁ xs := by
  have hlater : ∀ ys : List Turn, exec World.step w ((x :: ys).flatMap Turn.events) =
      exec World.step w₁ (ys.flatMap Turn.events) := by
    intro ys
    rw [List.flatMap_cons, exec_append, h, Option.bind_some]
  constructor
  · intro hall
    constructor
    · refine hall [] x xs w₁ rfl ?_
      rw [List.nil_append, hlater]
      rfl
    · intro pre y post w' hsplit hexec
      refine hall (x :: pre) y post w' (by rw [hsplit]; rfl) ?_
      rw [List.cons_append, hlater, hexec]
  · rintro ⟨hfirst, hrest⟩ pre y post w' hsplit hexec
    cases pre with
    | nil =>
      obtain ⟨rfl, -⟩ := List.cons.inj hsplit
      rw [List.nil_append, hlater] at hexec
      obtain rfl := Option.some.inj hexec
      exact hfirst
    | cons z pre =>
      obtain ⟨rfl, htail⟩ := List.cons.inj hsplit
      rw [List.cons_append, hlater] at hexec
      exact hrest pre y post w' htail hexec

theorem SalesHold.paid_in_turn {k : MerchantId} {xs : List Sale} (hxs : ∀ x ∈ xs, x.Tolerated k)
    {earlier : List Sale} {w w' : World} (h : SalesHold k earlier w)
    (run : Run World.step World.AnsweredRun w ((xs.map Sale.turn).flatMap Turn.events) w') :
    PaidInTurn w (xs.map Sale.turn) ↔
      ∀ pre x post, xs = pre ++ x :: post → Afforded (earlier ++ pre) x := by
  induction xs generalizing earlier w with
  | nil => simp [PaidInTurn]
  | cons x xs ih =>
    have hx := hxs x (by simp)
    have hrest := fun y hy => hxs y (List.mem_cons_of_mem x hy)
    rw [List.map_cons, List.flatMap_cons] at run
    obtain ⟨v, hsale, hlater⟩ := run.of_append
    obtain ⟨w₂, hopen, hpass⟩ := hsale.of_append
    have hoffered : Offered k earlier x w₂ := h.offered hx (hopen.mono fun _ _ hok => hok.honestRun)
    obtain ⟨hpaid, hnext⟩ := hoffered.pass h.tolerated hx hpass
    rw [List.map_cons, paidInTurn_cons hsale.exec_eq, forall_split_cons, List.append_nil]
    have hfirst : v.system.Paid x.turn.order ↔ Afforded earlier x := hpaid
    rw [hfirst]
    refine and_congr_right fun hafforded => ?_
    rw [ih hrest (hnext hafforded) hlater]
    simp only [List.append_assoc, List.singleton_append]

/-- **Which deposits pay every order, one after another.** One customer of a merchant pays after
another, each at least 99% of an amount and not more than all of it, into a token account that was
empty: every order is paid by the pass after it exactly when each deposit lifts its token account to
all that was invoiced before in its asset plus 99% of the amount, and the monthly volume fits its
column. -/
theorem sales_paid_iff {w₀ w : World} {k : MerchantId} {xs : List Sale} (h0 : w₀.Start)
    (hsettled : ∀ o ∈ w₀.system.orders.rows, o.status ≠ .pending)
    (hempty : ∀ b, ∀ units ∈ w₀.accounts (k, b), units = 0) (hxs : ∀ x ∈ xs, x.Tolerated k)
    (run : Run World.step World.AnsweredRun w₀ ((xs.map Sale.turn).flatMap Turn.events) w) :
    PaidInTurn w₀ (xs.map Sale.turn) ↔ ∀ pre x post, xs = pre ++ x :: post → Afforded pre x := by
  have hstart : SalesHold k [] w₀ :=
    { world := h0.holds
      settled := fun id o ho => hsettled o (Table.find?_eq_some.mp ho).1
      claimed := fun b => by simp [h0.system.ledger, invoiced]
      held := by
        intro b j
        rcases Nat.lt_or_ge j (w₀.accounts (k, b)).length with hj | hj
        · rw [List.getD_eq_getElem _ _ hj, hempty b _ (List.getElem_mem hj)]
          simp [deposited]
        · rw [List.getD_eq_default _ _ hj]
          simp [deposited]
      tolerated := by simp }
  simpa using hstart.paid_in_turn hxs run

/-! ## Orders in any turn -/

/-- **When every order is paid in its turn**: orders are created and deposits arrive whenever they
like, several orders may be pending, and a pass pays any of them. The order that is due in a pass is
paid after it exactly when, at some visit of it by then, some token account held all that the
merchant's orders had come to so far plus 99% of its amount, and the commit after it went
through. -/
theorem paid_in_turn_iff {w₀ w : World} {xs : List Turn} (h0 : w₀.Start)
    (hunpaid : ∀ x ∈ xs, ¬ w₀.system.Paid x.order)
    (run : Run World.step World.AnsweredRun w₀ (xs.flatMap Turn.events) w) :
    PaidInTurn w₀ xs ↔ ∀ pre x post, xs = pre ++ x :: post →
      w₀.standing x.order ((pre ++ [x]).flatMap Turn.events) = .paid := by
  refine forall₃_congr fun pre x post => ?_
  constructor
  · rintro hall rfl
    rw [List.append_cons, List.flatMap_append] at run
    obtain ⟨w', run', -⟩ := run.of_append
    exact (paid_iff_of_run h0 (hunpaid x (by simp)) run').mp (hall w' rfl run'.exec_eq)
  · rintro hstands w' rfl hexec
    rw [List.append_cons, List.flatMap_append] at run
    obtain ⟨w₁, run', -⟩ := run.of_append
    obtain rfl := Option.some.inj (run'.exec_eq.symm.trans hexec)
    exact (paid_iff_of_run h0 (hunpaid x (by simp)) run').mpr (hstands rfl)

/-! ### Runs of it -/

/-- A sale of an order of $20 to the sample merchant, whose watermark and balance of USDC are then
these. -/
def sampleSale (id : OrderId) (consumed : ℚ) (units : ℕ) (uiAmount : Json)
    (push : Option PushOutcome) : Sale where
  order := sampleOrder id
  merchant := { sampleMerchant with solanaUsdcConsumed := consumed }
  asset := .usdc
  account := 0
  units
  pass := lonePass 0 10 (sampleOrder id)
    { sampleAnswers 0 with
      solana := fun mint =>
        if mint = "EPjFWdd5AufqSSqeM2qN1xzybapC8G4wEGGkZwyTDt1v" then some (accountReply uiAmount)
        else some (.obj []) } push

theorem tolerated_sampleSale {id : OrderId} {consumed : ℚ} {units : ℕ} {uiAmount : Json}
    {push : Option PushOutcome} (hpush : push ≠ some .fails) (hlow : 19800000 ≤ units)
    (hhigh : units ≤ 20000000) : (sampleSale id consumed units uiAmount push).Tolerated 1 where
  order := rfl
  merchant := rfl
  address := by simp [sampleSale, sampleOrder]
  enough := by
    have : (19800000 : ℚ) ≤ units := by exact_mod_cast hlow
    norm_num [sampleSale, sampleOrder, Numeric.value, minPaymentFraction, toUiAmount]
    linarith
  notMore := by
    have : (units : ℚ) ≤ 20000000 := by exact_mod_cast hhigh
    norm_num [sampleSale, sampleOrder, Numeric.value, toUiAmount]
    linarith
  whole := ⟨0, 10, wholePass_lonePass hpush .., by norm_num [sampleSale, sampleOrder]⟩

/-- A customer who pays in full, and one who pays 99%. -/
def fullThenShort : List Sale :=
  [sampleSale 1 0 20000000 (.int 20) (some .quiet),
    sampleSale 2 20 19800000 (.float (.finite 398 (-1) (by norm_num))) (some .quiet)]

/-- Two customers who both pay 99%. -/
def bothShort : List Sale :=
  [sampleSale 1 0 19800000 (.float (.finite 198 (-1) (by norm_num))) (some .quiet),
    sampleSale 2 20 19800000 (.float (.finite 396 (-1) (by norm_num))) none]

/-- The second customer's 1% is tolerated after a customer who paid in full. -/
theorem paid_in_turn_full :
    PaidInTurn (heldWorld [] [] (by decide)) (fullThenShort.map Sale.turn) := by
  have hexec : (exec (restrict World.answeredEvent World.step) (heldWorld [] [] (by decide))
      ((fullThenShort.map Sale.turn).flatMap Turn.events)).isSome := by
    decide +kernel
  have hstanding : ∀ n ∈ [1, 2], (heldWorld [] [] (by decide)).standing n
      (((fullThenShort.take n).map Sale.turn).flatMap Turn.events) = .paid := by
    decide +kernel
  obtain ⟨w, hw⟩ := Option.isSome_iff_exists.mp hexec
  have run := answeredRun_of_exec (p := 0) (by simp [heldWorld, sampleSystem])
    (by simp [fullThenShort, Turn.events, Sale.turn, Sale.opening, sampleSale, lonePass,
      Event.pass?]) hw
  refine (paid_in_turn_iff (start_heldWorld (by simp) [] (by decide)) ?_ run).mpr ?_
  · rintro x - ⟨o, ho, -⟩
    simp [heldWorld, sampleSystem, Table.find?] at ho
  · rw [fullThenShort, List.map_cons, List.map_cons, forall_split_cons, forall_split_cons]
    exact ⟨hstanding 1 (by simp), hstanding 2 (by simp), by simp⟩

/-- The order of a customer who owes $30. -/
def largerOrder : MerchantOrder := { sampleOrder 2 with amountUsd := ⟨3000, by norm_num⟩ }

/-- 30 USDC and 20 USDT at the address. -/
def bothAssets : Answers :=
  { sampleAnswers 0 with
    solana := fun mint =>
      if mint = "EPjFWdd5AufqSSqeM2qN1xzybapC8G4wEGGkZwyTDt1v" then some (accountReply (.int 30))
      else some (accountReply (.int 20)) }

/-- Orders of $20 and $30 are created, 20 USDT arrive for the one and 30 USDC for the other, and two
passes run. -/
def crossedTurns : List Turn :=
  [{ order := 1
     before := [.gateway (.other sampleMerchant (some (sampleOrder 1))),
       .gateway (.other sampleMerchant (some largerOrder)),
       .deposit (1, .usdt) 0 20000000, .deposit (1, .usdc) 0 30000000]
     pass := [.begin 0 10 [sampleOrder 1, largerOrder], .loadMerchants 0, .visit 0 bothAssets,
       .push 0 .quiet, .visit 0 bothAssets, .finish 0] },
    { order := 2, before := [], pass := lonePass 0 20 largerOrder bothAssets none }]

/-- **What one customer pays is charged to the next**: of two customers who both pay 99%, the second
one's order stays pending; and so does an order that is paid in full in USDC, when an older one that
was paid in USDT has claimed the USDC. -/
theorem shortfall_charged :
    (∃ w, (∀ x ∈ bothShort, x.Tolerated 1) ∧
      Run World.step World.AnsweredRun (heldWorld [] [] (by decide))
        ((bothShort.map Sale.turn).flatMap Turn.events) w ∧
      w.system.orders.rows.map MerchantOrder.status = [.paid, .pending] ∧
      ¬ PaidInTurn (heldWorld [] [] (by decide)) (bothShort.map Sale.turn)) ∧
    ∃ w, Run World.step World.AnsweredRun (heldWorld [] [] (by decide))
        (crossedTurns.flatMap Turn.events) w ∧
      w.system.orders.rows.map MerchantOrder.status = [.paid, .pending] ∧
      ¬ PaidInTurn (heldWorld [] [] (by decide)) crossedTurns := by
  have hunpaid : ∀ {w : World} {x y : Turn},
      exec World.step (heldWorld [] [] (by decide)) ([x, y].flatMap Turn.events) = some w →
      (w.system.orders.find? y.order).map MerchantOrder.status = some .pending →
      ¬ PaidInTurn (heldWorld [] [] (by decide)) [x, y] := by
    intro w x y hexec hpending hturn
    obtain ⟨o, ho, hpaid⟩ := hturn [x] y [] w rfl hexec
    rw [ho, Option.map_some, hpaid] at hpending
    cases hpending
  constructor
  · have hexec : ((exec (restrict World.answeredEvent World.step) (heldWorld [] [] (by decide))
        ((bothShort.map Sale.turn).flatMap Turn.events)).map fun w =>
          (w.system.orders.rows.map MerchantOrder.status,
            (w.system.orders.find? 2).map MerchantOrder.status)) =
          some ([.paid, .pending], some .pending) := by
      decide +kernel
    obtain ⟨w, hw, hall⟩ := Option.map_eq_some_iff.mp hexec
    obtain ⟨hst, hsecond⟩ := Prod.mk.inj hall
    have run := answeredRun_of_exec (p := 0) (by simp [heldWorld, sampleSystem])
      (by simp [bothShort, Turn.events, Sale.turn, Sale.opening, sampleSale, lonePass,
        Event.pass?]) hw
    refine ⟨w, ?_, run, hst, hunpaid run.exec_eq hsecond⟩
    simp only [bothShort, List.mem_cons, List.not_mem_nil, or_false]
    rintro x (rfl | rfl)
    · exact tolerated_sampleSale (by simp) (by norm_num) (by norm_num)
    · exact tolerated_sampleSale (by simp) (by norm_num) (by norm_num)
  · have hexec : ((exec (restrict World.answeredEvent World.step) (heldWorld [] [] (by decide))
        (crossedTurns.flatMap Turn.events)).map fun w =>
          (w.system.orders.rows.map MerchantOrder.status,
            (w.system.orders.find? 2).map MerchantOrder.status)) =
          some ([.paid, .pending], some .pending) := by
      decide +kernel
    obtain ⟨w, hw, hall⟩ := Option.map_eq_some_iff.mp hexec
    obtain ⟨hst, hsecond⟩ := Prod.mk.inj hall
    have run := answeredRun_of_exec (p := 0) (by simp [heldWorld, sampleSystem])
      (by simp [crossedTurns, Turn.events, lonePass, Event.pass?]) hw
    exact ⟨w, run, hst, hunpaid run.exec_eq hsecond⟩

end Gateway
