import Gateway.Foundations.Deposits
import Gateway.Poll.Backed
import Gateway.Service.Addresses

/-!
# Deposits and what they pay

The whole service over EVM chains on which the balances of all addresses change in any way. Every
order recorded as paid on an EVM chain was confirmed on a balance that its address has held, and no
other order has that address. So no deposit pays twice: what the orders paid in a token were
confirmed on is, in total, at most what their addresses held at first and what has been deposited in
the token (`evm_deposits_cover`), whatever checkouts, passes and withdrawals interleave, and
whatever the faulty providers report.
-/

namespace Gateway

open Foundations

/-- The service, the clock, and the balances of all addresses in the accepted tokens. -/
structure LiveService where
  service : Service
  clock : Timestamp
  balances : String × EvmToken → ℕ

/-- What may happen in the service and on the chains. -/
inductive LiveEvent
  | service (e : ServiceEvent)
  /-- The balance of an address becomes another one. -/
  | transfer (holder : String) (t : EvmToken) (raw : ℕ)
  | wait (time : Timestamp)

/-- The balances that an event changes. -/
def LiveEvent.change : LiveEvent → Option ((String × EvmToken) × ℕ)
  | .transfer holder t raw => some ((holder, t), raw)
  | _ => none

/-- What is stored for a balance that pays an order. -/
def EvmToken.booked (t : EvmToken) (raw : ℕ) : ℚ :=
  storeNumeric 10 (t.payment fun _ => some (raw : ℤ)).amount

namespace LiveService

/-- The passes and the balances they are to find. -/
def world (l : LiveService) : EvmWorld where
  system := l.service.system
  clock := l.clock
  balances := fun holder t => l.balances (holder, t)

/-- One event. A pass takes its time from the clock, which does not go back. -/
def step (derive : ℤ → String → Option String) (l : LiveService) : LiveEvent → Option LiveService
  | .service (.poll (.begin p now pending)) =>
    if now = l.clock then
      (l.service.step derive (.poll (.begin p now pending))).map fun service => { l with service }
    else none
  | .service e => (l.service.step derive e).map fun service => { l with service }
  | .transfer holder t raw =>
    some { l with balances := Function.update l.balances (holder, t) raw }
  | .wait time => if l.clock ≤ time then some { l with clock := time } else none

/-- The passes check by rounds with fewer faulty providers than the quorum, in which the others
report balances of worlds that have been seen, and the checkouts load copies with keys that their
merchant has had. -/
def Honest (owns : MerchantId → String → Prop) (seen : EvmWorld → Prop) (l : LiveService) :
    LiveEvent → Prop
  | .service e => l.service.OnPoll (fun _ e => l.world.ChecksHonestly seen (.gateway e)) e ∧
      Service.LoadsOwned owns e
  | _ => True

/-- The world has been so by the end of the events. -/
def Seen (derive : ℤ → String → Option String) (l₀ : LiveService) (es : List LiveEvent)
    (w : EvmWorld) : Prop :=
  ∃ es₁ l₁, es₁ <+: es ∧ exec (step derive) l₀ es₁ = some l₁ ∧ w = l₁.world

/-- What has been deposited in a token by the end of the events. -/
def deposited (l₀ : LiveService) (es : List LiveEvent) (t : EvmToken) : ℕ :=
  received (fun k => k.2 = t) (deposits l₀.balances (es.filterMap LiveEvent.change))

/-- The orders that are recorded as paid in a token. -/
def paidIn (l : LiveService) (t : EvmToken) : List MerchantOrder :=
  l.service.system.orders.rows.filter fun o =>
    o.paidChain = some (.evm t.chain) && o.paidAsset = some t.asset

variable {l l' l₀ : LiveService} {e : LiveEvent} {es : List LiveEvent}
  {derive : ℤ → String → Option String} {owns : MerchantId → String → Prop}

/-- The balances change, or the service goes on. -/
theorem step_cases (h : l.step derive e = some l') :
    l'.balances = settle l.balances e.change.toList ∧ (l'.service = l.service ∨
      ∃ e', e = .service e' ∧ l.service.step derive e' = some l'.service) := by
  have hservice : ∀ {e'}, (l.service.step derive e').map (fun service => { l with service }) =
      some l' → l'.balances = l.balances ∧ l.service.step derive e' = some l'.service := by
    intro e' he
    obtain ⟨service, hs, rfl⟩ := Option.map_eq_some_iff.mp he
    exact ⟨rfl, hs⟩
  cases e with
  | service e =>
    have hstep : (l.service.step derive e).map (fun service => { l with service }) = some l' := by
      cases e with
      | poll e =>
        cases e with
        | begin p now pending =>
          simp only [step] at h
          split_ifs at h
          exact h
        | _ => exact h
      | _ => exact h
    obtain ⟨hbalances, hs⟩ := hservice hstep
    exact ⟨hbalances, .inr ⟨e, rfl, hs⟩⟩
  | transfer holder t raw =>
    cases h
    exact ⟨rfl, .inl rfl⟩
  | wait time =>
    simp only [step] at h
    split_ifs at h
    cases h
    exact ⟨rfl, .inl rfl⟩

theorem balances_of_exec (h : exec (step derive) l es = some l') :
    l'.balances = settle l.balances (es.filterMap LiveEvent.change) := by
  induction es generalizing l with
  | nil =>
    obtain rfl : l = l' := by simpa using h
    rfl
  | cons e es ih =>
    obtain ⟨l₁, h₁, h⟩ := Option.bind_eq_some_iff.mp h
    have hchange : (e :: es).filterMap LiveEvent.change =
        e.change.toList ++ es.filterMap LiveEvent.change := by
      rw [List.filterMap_cons]
      cases e.change <;> rfl
    rw [hchange, settle_append, ← (step_cases h₁).1]
    exact ih h

/-- A balance that has been seen is covered by what was there and what has come in. -/
theorem Seen.balance_le {w : EvmWorld} (h : Seen derive l₀ es w) (holder : String)
    (t : EvmToken) : w.balances holder t ≤ l₀.balances (holder, t) +
      received (fun k => k = (holder, t))
        (deposits l₀.balances (es.filterMap LiveEvent.change)) := by
  obtain ⟨es₁, l₁, hbefore, hexec, rfl⟩ := h
  show l₁.balances (holder, t) ≤ _
  rw [balances_of_exec hexec]
  exact settle_le_of_prefix _ (hbefore.filterMap _) _

/-! ## What the orders are confirmed on -/

/-- The orders and their receipts, and the addresses. -/
structure Holds (derive : ℤ → String → Option String) (owns : MerchantId → String → Prop)
    (seen : EvmWorld → Prop) (l : LiveService) : Prop where
  orders : l.service.OrdersHold (EvmWorld.backedReceipt seen)
  addresses : l.service.AddressesHold derive owns

/-- Honest visits write receipts for what addresses have held. -/
theorem goodReceipts_of_honest {seen : EvmWorld → Prop} {e : ServiceEvent}
    (he : l.Honest owns seen (.service e)) :
    l.service.OnPoll (System.GoodReceipts (EvmWorld.backedReceipt seen)) e := by
  cases e with
  | poll e => exact EvmWorld.goodReceipts_of_honest he.1
  | _ => trivial

theorem Holds.step {seen : EvmWorld → Prop} (h : l.Holds derive owns seen)
    (he : l.Honest owns seen e) (hs : l.step derive e = some l') : l'.Holds derive owns seen := by
  rcases (step_cases hs).2 with hsame | ⟨e', rfl, hs'⟩
  · refine ⟨?_, ?_⟩
    · rw [hsame]
      exact h.orders
    · rw [hsame]
      exact h.addresses
  · exact ⟨h.orders.step (goodReceipts_of_honest he) hs',
      h.addresses.step h.orders he.2 hs'⟩

theorem Holds.start {seen : EvmWorld → Prop} (h0 : l.service.Idle)
    (hpasses : ∀ p, l.service.system.passes p = none)
    (hslots : (l.service.system.orders.rows.map MerchantOrder.slot).Nodup)
    (hbelow : ∀ o ∈ l.service.system.orders.rows, ∃ m,
      l.service.system.merchants.find? o.merchantId = some m ∧ o.evmDerivationIndex < m.nextEvmIndex)
    (hblank : ∀ o ∈ l.service.system.orders.rows, o.Blank ∧ o.status ≠ .paid)
    (hderived : ∀ o ∈ l.service.system.orders.rows, o.DerivedFrom derive (owns o.merchantId)) :
    l.Holds derive owns seen where
  orders := .start h0 hpasses hslots hbelow fun o ho => .inl (hblank o ho)
  addresses := .start h0 hderived

/-- What a row that is paid on an EVM chain was confirmed on. -/
theorem Holds.raw {seen : EvmWorld → Prop} (h : l.Holds derive owns seen) {o : MerchantOrder}
    (ho : o ∈ l.service.system.orders.rows) {chain : EvmChain}
    (hpaid : o.paidChain = some (.evm chain)) : ∃ w, seen w ∧ ∃ t ∈ evmTokens, t.chain = chain ∧
      o.paidAsset = some t.asset ∧
      o.amountUsd.value * minPaymentFraction ≤ t.quotient (w.balances o.evmAddress t) ∧
      o.paidAmount = some (t.booked (w.balances o.evmAddress t)) := by
  rcases h.orders.rows.rows o ho with ⟨⟨hblank, -⟩, -⟩ | ⟨-, r, ⟨hchain, hasset, hamount, -⟩, hgood⟩
  · rw [hblank] at hpaid
    cases hpaid
  · rw [hchain] at hpaid
    obtain ⟨w, hw, t, ht, htchain, htasset, -, hcovers, htamount⟩ :=
      hgood chain (Option.some.inj hpaid)
    exact ⟨w, hw, t, ht, htchain, by rw [hasset, htasset], hcovers, by rw [hamount, htamount]; rfl⟩

end LiveService

/-- The accepted tokens differ in their chain or their asset. -/
theorem evmTokens_inj : ∀ t ∈ evmTokens, ∀ t' ∈ evmTokens, t.chain = t'.chain → t.asset = t'.asset →
    t = t' := by
  decide

/-- Orders at distinct addresses receive at most what comes in. -/
theorem sum_received_addresses {orders : List MerchantOrder}
    (haddresses : (orders.map MerchantOrder.evmAddress).Nodup) (t : EvmToken)
    (l : List ((String × EvmToken) × ℕ)) :
    (orders.map fun o => received (fun k => k = (o.evmAddress, t)) l).sum ≤
      received (fun k => k.2 = t) l := by
  have hkeys : ((orders.map MerchantOrder.evmAddress).map fun address => (address, t)).Nodup :=
    haddresses.map fun a b hab => (Prod.mk.inj hab).1
  have hin : ∀ k ∈ (orders.map MerchantOrder.evmAddress).map fun address => (address, t),
      decide (k.2 = t) := by
    intro k hk
    obtain ⟨address, -, rfl⟩ := List.mem_map.mp hk
    exact decide_eq_true rfl
  have hsum := sum_received_le hkeys hin l
  rw [List.map_map, List.map_map] at hsum
  exact hsum

open LiveService in
/-- **No deposit pays twice.** From a database without payments, in every interleaving of checkouts,
passes, deposits and withdrawals, with fewer faulty providers in every round than the quorum: each
order that is recorded as paid on an EVM chain was confirmed on a balance of at least 99% of its
amount in an accepted token, which is what the record shows; and what the orders paid in one token
were confirmed on is, in total, at most what their addresses held at first and what has been
deposited in that token since. -/
theorem evm_deposits_cover {l₀ l : LiveService} {es : List LiveEvent}
    {derive : ℤ → String → Option String} {owns : MerchantId → String → Prop}
    (h0 : l₀.service.Idle) (hpasses : ∀ p, l₀.service.system.passes p = none)
    (hslots : (l₀.service.system.orders.rows.map MerchantOrder.slot).Nodup)
    (hbelow : ∀ o ∈ l₀.service.system.orders.rows, ∃ m,
      l₀.service.system.merchants.find? o.merchantId = some m ∧
        o.evmDerivationIndex < m.nextEvmIndex)
    (hblank : ∀ o ∈ l₀.service.system.orders.rows, o.Blank ∧ o.status ≠ .paid)
    (hderived : ∀ o ∈ l₀.service.system.orders.rows, o.DerivedFrom derive (owns o.merchantId))
    (hdistinct : Service.DistinctAddresses derive owns)
    (run : Run (LiveService.step derive) (Honest owns (Seen derive l₀ es)) l₀ es l) :
    ∃ raw : MerchantOrder → ℕ,
      (∀ o ∈ l.service.system.orders.rows, ∀ chain, o.paidChain = some (.evm chain) →
        ∃ t ∈ evmTokens, t.chain = chain ∧ o.paidAsset = some t.asset ∧
          o.amountUsd.value * minPaymentFraction ≤ t.quotient (raw o) ∧
          o.paidAmount = some (t.booked (raw o))) ∧
      ∀ t ∈ evmTokens, ((l.paidIn t).map raw).sum ≤
        ((l.paidIn t).map fun o => l₀.balances (o.evmAddress, t)).sum + l₀.deposited es t := by
  have h : l.Holds derive owns (Seen derive l₀ es) :=
    run.invariant (fun _ _ _ h he hs => h.step he hs)
      (.start h0 hpasses hslots hbelow hblank hderived)
  have haddresses := h.addresses.nodup hdistinct h.orders.slots.1
  -- a balance that each order was confirmed on
  have hconfirmed : ∀ o : MerchantOrder, ∃ raw : ℕ, o ∈ l.service.system.orders.rows → ∀ chain,
      o.paidChain = some (.evm chain) → ∃ t ∈ evmTokens, t.chain = chain ∧
        o.paidAsset = some t.asset ∧
        o.amountUsd.value * minPaymentFraction ≤ t.quotient raw ∧
        o.paidAmount = some (t.booked raw) ∧
        raw ≤ l₀.balances (o.evmAddress, t) + received (fun k => k = (o.evmAddress, t))
          (deposits l₀.balances (es.filterMap LiveEvent.change)) := by
    intro o
    by_cases ho : o ∈ l.service.system.orders.rows ∧ ∃ chain, o.paidChain = some (.evm chain)
    · obtain ⟨ho, chain, hpaid⟩ := ho
      obtain ⟨w, hw, t, ht, htchain, htasset, hcovers, hamount⟩ := h.raw ho hpaid
      refine ⟨w.balances o.evmAddress t, fun _ chain' hpaid' => ?_⟩
      rw [hpaid] at hpaid'
      cases hpaid'
      exact ⟨t, ht, htchain, htasset, hcovers, hamount, hw.balance_le _ _⟩
    · exact ⟨0, fun hmem chain hpaid => absurd ⟨hmem, chain, hpaid⟩ ho⟩
  choose raw hraw using hconfirmed
  refine ⟨raw, fun o ho chain hpaid => ?_, fun t ht => ?_⟩
  · obtain ⟨t, ht, htchain, htasset, hcovers, hamount, -⟩ := hraw o ho chain hpaid
    exact ⟨t, ht, htchain, htasset, hcovers, hamount⟩
  · have hle : ∀ o ∈ l.paidIn t, raw o ≤ l₀.balances (o.evmAddress, t) +
        received (fun k => k = (o.evmAddress, t))
          (deposits l₀.balances (es.filterMap LiveEvent.change)) := by
      intro o ho
      obtain ⟨hmem, hpaid⟩ := List.mem_filter.mp ho
      simp only [Bool.and_eq_true, decide_eq_true_eq] at hpaid
      obtain ⟨t', ht', hchain, hasset, -, -, hbound⟩ := hraw o hmem t.chain hpaid.1
      rw [hpaid.2] at hasset
      rwa [evmTokens_inj t' ht' t ht hchain (Option.some.inj hasset).symm] at hbound
    have hnodup : ((l.paidIn t).map MerchantOrder.evmAddress).Nodup :=
      haddresses.sublist (List.filter_sublist.map _)
    calc ((l.paidIn t).map raw).sum
        ≤ ((l.paidIn t).map fun o => l₀.balances (o.evmAddress, t) +
            received (fun k => k = (o.evmAddress, t))
              (deposits l₀.balances (es.filterMap LiveEvent.change))).sum := List.sum_le_sum hle
      _ = ((l.paidIn t).map fun o => l₀.balances (o.evmAddress, t)).sum +
            ((l.paidIn t).map fun o => received (fun k => k = (o.evmAddress, t))
              (deposits l₀.balances (es.filterMap LiveEvent.change))).sum := List.sum_map_add
      _ ≤ _ := Nat.add_le_add_left (sum_received_addresses hnodup t _) _

/-! ### A deposit while a provider lies -/

/-- A service without orders, and empty addresses. -/
def liveStart : LiveService where
  service := idleService
  clock := 0
  balances := fun _ => 0

/-- The order of the first checkout, at the first address. -/
def liveOrder : MerchantOrder := newOrder (fiveRequest 1) sampleMerchant 0 "0xab"

/-- Two checkouts, and a deposit for the first order, which a pass confirms although one provider
reports an empty address. Then the merchant moves the deposit away. -/
def liveRun : List LiveEvent :=
  [.service (.checkout 1 (.load 1 sampleMerchant)),
    .service (.checkout 1 (.check 1 (fiveRequest 1))),
    .service (.checkout 1 (.reserve 1)), .service (.checkout 1 (.commit 1)),
    .transfer "0xab" bscUsdt 5000000000000000000,
    .service (.checkout 1 (.load 2 sampleMerchant)),
    .service (.checkout 1 (.check 2 (fiveRequest 2))),
    .service (.poll (.begin 0 0 [liveOrder])), .service (.poll (.loadMerchants 0)),
    .service (.checkout 1 (.reserve 2)), .service (.poll (.visit 0 deniedAnswers)),
    .service (.poll (.push 0 .quiet)), .service (.checkout 1 (.commit 2)),
    .service (.poll (.finish 0)), .transfer "0xab" bscUsdt 0]

/-- Does a visit find the order at an address that holds five tokens of the first kind only? -/
def LiveService.seesFive (l : LiveService) : LiveEvent → Bool
  | .service (.poll e) => l.world.seesFive (.gateway e)
  | _ => true

theorem honest_live {l : LiveService} {seen : EvmWorld → Prop} {e : LiveEvent} (he : e ∈ liveRun)
    (hsees : l.seesFive e) (hl : seen l.world) : l.Honest sampleKeys seen e := by
  simp only [liveRun, List.mem_cons, List.not_mem_nil, or_false] at he
  rcases he with rfl | rfl | rfl | rfl | rfl | rfl | rfl | rfl | rfl | rfl | rfl | rfl | rfl |
      rfl | rfl
  case inr.inr.inr.inr.inr.inr.inr.inr.inr.inr.inl =>
    exact ⟨checksHonestly_denied (e := .gateway (.visit 0 deniedAnswers)) (by simp [deniedRun]) hsees
      hl, trivial⟩
  all_goals trivial

open LiveService in
/-- The deposit covers what the first order was confirmed on, and the second one is not paid. -/
theorem evm_deposits_cover_live : ∃ l o, ∃ raw : ℕ,
    exec (LiveService.step (twoAddresses "0xab" "0x55")) liveStart liveRun = some l ∧
      l.paidIn bscUsdt = [o] ∧ o.paidAmount = some (bscUsdt.booked raw) ∧
      raw ≤ 5000000000000000000 := by
  have hrun : ((exec (restrict LiveService.seesFive (LiveService.step (twoAddresses "0xab" "0x55")))
      liveStart liveRun).map fun l => (l.paidIn bscUsdt).map MerchantOrder.id) = some [1] := by
    decide +kernel
  obtain ⟨l, hl, hpaid⟩ := Option.map_eq_some_iff.mp hrun
  obtain ⟨o, ho, -⟩ := List.map_eq_singleton_iff.mp hpaid
  have hsees := Run.of_exec_restrict hl
  have hevents : Run (LiveService.step (twoAddresses "0xab" "0x55"))
      (fun _ e => e ∈ liveRun) liveStart
      liveRun l := .of_exec_of_forall (fun _ he _ => he) hsees.exec_eq
  have run : Run (LiveService.step (twoAddresses "0xab" "0x55"))
      (Honest sampleKeys (Seen (twoAddresses "0xab" "0x55") liveStart liveRun))
      liveStart liveRun l := by
    refine ((hevents.inter hsees).reached (exec_nil liveStart)).mono fun l₁ e hok => ?_
    obtain ⟨⟨he, hsee⟩, es₁, hbefore, hexec⟩ := hok
    exact honest_live he hsee ⟨es₁, l₁, hbefore, hexec, rfl⟩
  obtain ⟨raw, hraw, hsum⟩ := evm_deposits_cover (fun _ => ⟨rfl, fun _ => rfl⟩) (fun _ => rfl)
    (by simp [liveStart, idleService, sampleSystem]) (by simp [liveStart, idleService, sampleSystem])
    (by simp [liveStart, idleService, sampleSystem]) (by simp [liveStart, idleService, sampleSystem])
    (distinct_twoAddresses (by decide))
    run
  have hmem : o ∈ l.paidIn bscUsdt := by
    rw [ho]
    exact List.mem_singleton_self o
  obtain ⟨hrow, hin⟩ := List.mem_filter.mp hmem
  simp only [Bool.and_eq_true, decide_eq_true_eq] at hin
  have husdt : bscUsdt ∈ evmTokens := by decide
  refine ⟨l, o, raw o, hsees.exec_eq, ho, ?_, ?_⟩
  · obtain ⟨t, ht, hchain, hasset, -, hamount⟩ := hraw o hrow _ hin.1
    rw [hin.2] at hasset
    rwa [evmTokens_inj t ht bscUsdt husdt hchain (Option.some.inj hasset).symm] at hamount
  · have hle := hsum bscUsdt husdt
    have hdeposited : liveStart.deposited liveRun bscUsdt = 5000000000000000000 := by
      decide +kernel
    rw [ho, hdeposited] at hle
    simpa [liveStart] using hle

end Gateway
