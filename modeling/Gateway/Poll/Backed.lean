import Gateway.Poll.Rows
import Gateway.Settlement.Backing

/-!
# EVM payments are backed

The gateway over time, with the providers below it. Whatever passes interleave, and whatever the
balances of the addresses do in between, an order is recorded as paid on an EVM chain only if at
some moment of the run its address held at least 99% of its amount in an accepted token of that
chain, and the amount recorded is what it held then (`evm_payments_backed`). What this rests on is
the quorum: in each round of a check fewer providers are faulty than the quorum has members, and the
others report the balance of some moment, if they vote, each of a moment of its own.
-/

namespace Gateway

open Foundations

namespace EvmWorld

/-- The balance of an address in a token. -/
def held (w : EvmWorld) (evmAddress : String) (t : EvmToken) : Option ℤ :=
  some (w.balances evmAddress t : ℤ)

/-- The balances that an address has had in the worlds that have been seen. -/
def heldIn (seen : EvmWorld → Prop) (evmAddress : String) (t : EvmToken) : Set ℕ :=
  {raw | ∃ w, seen w ∧ w.balances evmAddress t = raw}

/-- The verdict of `check_evm_payment` about an order, by rounds with fewer faulty providers than
the quorum, in which each of the others reports a balance of a world that has been seen. -/
def HonestCheck (seen : EvmWorld → Prop) (o : MerchantOrder) (evm : Option (Option EvmMatch)) :
    Prop :=
  ∃ es s settings reads, exec Rounds.step Rounds.initial es = some s ∧
    WhileAsked settings reads o.evmAddress o.amountUsd.value
      (HonestRead es s settings reads o.evmAddress (heldIn seen o.evmAddress)) ∧
    evm = checkEvmPayment settings reads o.evmAddress o.amountUsd.value

/-- The visits of orders that are not due check them so, and their amounts are positive. -/
def ChecksHonestly (seen : EvmWorld → Prop) (w : EvmWorld) : EvmEvent → Prop
  | .gateway (.visit p a) => ∀ pass id rest r t, w.system.passes p = some pass →
      pass.nextVisit a = some (id, rest, r) → pass.orders id = some t →
      pass.now < t.cur.expiresAt → 0 < t.cur.amountUsd.unscaled ∧ HonestCheck seen t.cur a.evm
  | .gateway e => AddsBlank e
  | _ => True

/-- The world has been in this state by the end of the events. -/
def Passed (w₀ : EvmWorld) (es : List EvmEvent) (w : EvmWorld) : Prop :=
  ∃ es₁, es₁ <+: es ∧ exec EvmWorld.step w₀ es₁ = some w

/-- A receipt for what an address with these terms held in a world that has been seen, if it is one
of an EVM chain. -/
def backedReceipt (seen : EvmWorld → Prop) : Goodness := fun terms r =>
  ∀ chain, r.chain = .evm chain → ∃ w, seen w ∧ ∃ t ∈ evmTokens, t.chain = chain ∧
    r.asset = t.asset ∧ 0 < w.balances terms.1 t ∧
    terms.2.1.value * minPaymentFraction ≤ t.quotient (w.balances terms.1 t) ∧
    r.amount = storeNumeric 10 (t.payment (w.held terms.1)).amount

/-- No row is half paid, and the receipts are such. -/
def Backed (w₀ : EvmWorld) (es : List EvmEvent) (w : EvmWorld) : Prop :=
  RowsHold (backedReceipt (Passed w₀ es)) w.system

variable {w : EvmWorld} {seen : EvmWorld → Prop}

/-- An honest check reports what the address has held. -/
theorem HonestCheck.payment {o : MerchantOrder} {m : EvmMatch} (hx : 0 < o.amountUsd.unscaled)
    (h : HonestCheck seen o (some (some m))) : ∃ w, seen w ∧ ∃ t ∈ evmTokens,
      0 < w.balances o.evmAddress t ∧
      o.amountUsd.value * minPaymentFraction ≤ t.quotient (w.balances o.evmAddress t) ∧
      m = t.payment (w.held o.evmAddress) := by
  obtain ⟨es, s, settings, reads, hs, hreads, hevm⟩ := h
  obtain ⟨verdict, hverdict, hmatch⟩ := returns_firstMatch_iff.mpr
    (hreads.imp fun t ht hread => checkToken_of_honestRead hs hx ht hread)
  rw [checkEvmPayment_eq, hverdict] at hevm
  obtain rfl : some m = verdict := Option.some.inj hevm
  obtain ⟨t, ht, n, ⟨w, hw, rfl⟩, hcovers, rfl⟩ := hmatch m rfl
  simp only [EvmToken.covers, trueBalance, Option.any_some, Bool.and_eq_true,
    decide_eq_true_eq] at hcovers
  have hquotient := EvmToken.threshold_le_iff.mpr hcovers.2
  exact ⟨w, hw, t, ht, by exact_mod_cast hcovers.1, by exact_mod_cast hquotient, rfl⟩

theorem receipt_of_honestCheck {now : Timestamp} {a : Answers} {o : MerchantOrder}
    {m : Option Merchant} {payment : Payment} (hx : 0 < o.amountUsd.unscaled)
    (hcheck : HonestCheck seen o a.evm) (hfound : findPayment a o m = some (some payment)) :
    backedReceipt seen o.terms (payment.receipt now).stored := by
  intro chain hchain
  cases payment with
  | solana found => cases hchain
  | evm found =>
    cases hchain
    rw [evm_of_findPayment hfound] at hcheck
    obtain ⟨w, hw, t, ht, hpos, hcovers, hfound⟩ := hcheck.payment hx
    have hchain : found.chain = t.chain := by rw [hfound]; rfl
    have hasset : found.asset = t.asset := by rw [hfound]; rfl
    exact ⟨w, hw, t, ht, hchain.symm, hasset, hpos, hcovers,
      congrArg (fun m => storeNumeric 10 (EvmMatch.amount m)) hfound⟩

/-- Honest checks write receipts that are backed. -/
theorem goodReceipts_of_honest {e : Event} (h : w.ChecksHonestly seen (.gateway e)) :
    w.system.GoodReceipts (backedReceipt seen) e := by
  constructor
  · cases e with
    | visit p a =>
      intro pass id rest v hp hnext o m c hv r hcarries
      subst hv
      obtain ⟨-, t, ht, hvisit⟩ := Pass.nextVisit_eq_some hnext
      obtain ⟨hearly, -, payment, hfound, hcarries'⟩ := receipt_of_visit hvisit.symm
      obtain ⟨hx, hcheck⟩ := h pass id rest _ t hp hnext ht hearly
      obtain rfl := hcarries.unique hcarries'
      rw [(visited_of_visitOrder hvisit.symm (v := .paid o m c) rfl).1]
      exact receipt_of_honestCheck hx hcheck hfound
    | _ => trivial
  · rintro m o rfl
    exact h

end EvmWorld

open EvmWorld in
/-- **Every EVM payment on record is backed.** From a database without payments, in every
interleaving of passes with transfers and other transactions, and with fewer faulty providers in
every round than the quorum: an order that is recorded as paid on an EVM chain had an address that,
at some moment of the run, held at least 99% of its amount in an accepted token of that chain, and
the recorded asset and amount are what it held. The providers that are not faulty may each read a
moment of its own. -/
theorem evm_payments_backed {w₀ w : EvmWorld} {es : List EvmEvent}
    (h0 : ∀ p, w₀.system.passes p = none)
    (hrows : ∀ o ∈ w₀.system.orders.rows, o.Blank ∧ o.status ≠ .paid)
    (run : Run EvmWorld.step (ChecksHonestly (Passed w₀ es)) w₀ es w) {o : MerchantOrder}
    (ho : o ∈ w.system.orders.rows) {chain : EvmChain} (hpaid : o.paidChain = some (.evm chain)) :
    ∃ w₁, Passed w₀ es w₁ ∧ ∃ t ∈ evmTokens, t.chain = chain ∧ o.paidAsset = some t.asset ∧
      w₁.Holds o t ∧
      o.paidAmount = some (storeNumeric 10 (t.payment (w₁.held o.evmAddress)).amount) := by
  have hstart : Backed w₀ es w₀ := by
    refine ⟨fun o ho => .inl (hrows o ho), fun p pass hp => ?_⟩
    rw [h0 p] at hp
    cases hp
  have hstep : ∀ w₁ e w₂, Backed w₀ es w₁ → ChecksHonestly (Passed w₀ es) w₁ e →
      w₁.step e = some w₂ → Backed w₀ es w₂ := by
    intro w₁ e w₂ hw hhonest hstep
    rcases step_cases hstep with ⟨hsystem, -⟩ | ⟨e', rfl, hmove, -, -⟩
    · rw [Backed, hsystem]
      exact hw
    · exact RowsHold.step hw (goodReceipts_of_honest hhonest) hmove
  have hend : Backed w₀ es w := run.invariant hstep hstart
  rcases RowsHold.rows hend o ho with ⟨⟨hblank, -⟩, -⟩ | ⟨-, r, ⟨hchain, hasset, hamount, -⟩, hgood⟩
  · rw [hblank] at hpaid
    cases hpaid
  · rw [hchain] at hpaid
    obtain ⟨w₁, hpassed, t, ht, htchain, htasset, hpos, hcovers, htamount⟩ :=
      hgood chain (Option.some.inj hpaid)
    exact ⟨w₁, hpassed, t, ht, htchain, by rw [hasset, htasset], ⟨ht, hpos, hcovers⟩,
      by rw [hamount, htamount]; rfl⟩

/-! ### A payment that one provider denies -/

/-- The first token of the tables. -/
def bscUsdt : EvmToken where
  chain := .bsc
  rpcUrl := "https://bsc-rpc.publicnode.com"
  contract := "0x55d398326f99059ff775485246999027b3197955"
  asset := .usdt

/-- An order of $5. -/
def deniedOrder : MerchantOrder := { fiveOrder with evmAddress := "0xab" }

/-- The answers to a visit in whose round one provider reports an empty address. -/
def deniedAnswers : Answers :=
  { sampleAnswers 0 with
    evm := checkEvmPayment keyedSettings lyingReads deniedOrder.evmAddress
      deniedOrder.amountUsd.value }

/-- The order is created and paid, and a pass confirms it. -/
def deniedRun : List EvmEvent :=
  [.gateway (.other sampleMerchant (some deniedOrder)),
    .transfer "0xab" bscUsdt 5000000000000000000, .gateway (.begin 0 0 [deniedOrder]),
    .gateway (.loadMerchants 0), .gateway (.visit 0 deniedAnswers), .gateway (.push 0 .quiet),
    .gateway (.finish 0)]

/-- Does a visit find the order at an address that holds five tokens of the first kind only? -/
def EvmWorld.seesFive (w : EvmWorld) : EvmEvent → Bool
  | .gateway (.visit p _) => (w.system.passes p).all fun pass => pass.todo.all fun id =>
      (pass.orders id).all fun t => t.cur.evmAddress = "0xab" && t.cur.amountUsd.unscaled = 500 &&
        evmTokens.all fun k =>
          w.balances "0xab" k =
            if k.contract = bscUsdt.contract then 5000000000000000000 else 0
  | _ => true

/-- The events of the sample are honest where they see the five tokens. -/
theorem checksHonestly_denied {w : EvmWorld} {seen : EvmWorld → Prop} {e : EvmEvent}
    (he : e ∈ deniedRun) (hsees : w.seesFive e) (hw : seen w) : w.ChecksHonestly seen e := by
  simp only [deniedRun, List.mem_cons, List.not_mem_nil, or_false] at he
  rcases he with rfl | rfl | rfl | rfl | rfl | rfl | rfl
  · exact ⟨rfl, rfl, rfl, rfl, rfl⟩
  · trivial
  · trivial
  · trivial
  · intro pass id rest r t hp hnext ht _
    obtain ⟨htodo, -⟩ := Pass.nextVisit_eq_some hnext
    simp only [EvmWorld.seesFive, hp, Option.all_some, htodo, List.all_cons, ht,
      Bool.and_eq_true, decide_eq_true_eq, List.all_eq_true] at hsees
    obtain ⟨⟨⟨haddress, hamount⟩, hbalances⟩, -⟩ := hsees
    have hvalue : t.cur.amountUsd.value = fiveDollars.value := by
      rw [Numeric.value, hamount]
      rfl
    refine ⟨by rw [hamount]; norm_num, ?_⟩
    obtain ⟨s, hs, hread⟩ := quorumRead_lying
    refine ⟨lyingRound, s, keyedSettings, lyingReads, hs, ?_, ?_⟩
    · rw [haddress, hvalue]
      exact whileAsked_lying fun k hk hchain hurl htoken =>
        (hread (w.balances "0xab") k hchain hurl htoken
          ((hbalances k hk).trans (if_pos htoken))).honestRead ⟨w, hw, rfl⟩
    · rw [haddress, hvalue]
      rfl
  · trivial
  · trivial

theorem evm_payments_backed_denied : ∃ w o, exec EvmWorld.step evmStart deniedRun = some w ∧
    o ∈ w.system.orders.rows ∧ o.status = .paid ∧ ∃ w₁, EvmWorld.Passed evmStart deniedRun w₁ ∧
      ∃ t ∈ evmTokens, t.chain = .bsc ∧ o.paidAsset = some t.asset ∧ w₁.Holds o t ∧
        o.paidAmount = some (storeNumeric 10 (t.payment (w₁.held o.evmAddress)).amount) := by
  have hrun : ((exec (restrict EvmWorld.seesFive EvmWorld.step) evmStart deniedRun).bind fun w =>
      (w.system.orders.find? 1).map fun o => (o.status, o.paidChain)) =
      some (.paid, some (.evm .bsc)) := by
    decide +kernel
  obtain ⟨w, hw, hrow⟩ := Option.bind_eq_some_iff.mp hrun
  obtain ⟨o, ho, hdata⟩ := Option.map_eq_some_iff.mp hrow
  obtain ⟨hst, hchain⟩ := Prod.mk.inj hdata
  have hmem := (Table.find?_eq_some.mp ho).1
  have hsees := Run.of_exec_restrict hw
  have hevents : Run EvmWorld.step (fun _ e => e ∈ deniedRun) evmStart deniedRun w :=
    .of_exec_of_forall (fun _ he _ => he) hsees.exec_eq
  have run : Run EvmWorld.step (EvmWorld.ChecksHonestly (EvmWorld.Passed evmStart deniedRun))
      evmStart deniedRun w :=
    ((hevents.inter hsees).reached (exec_nil evmStart)).mono fun _ _ hok =>
      checksHonestly_denied hok.1.1 hok.1.2 hok.2
  exact ⟨w, o, run.exec_eq, hmem, hst, evm_payments_backed (fun _ => rfl) (by simp [evmStart,
    sampleSystem]) run hmem hchain⟩

end Gateway
