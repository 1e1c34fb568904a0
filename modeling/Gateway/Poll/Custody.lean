import Gateway.Poll.Arrivals
import Gateway.Poll.LonePass

/-!
# Withdrawals

The payout address is the merchant's own wallet, so that tokens which have paid for orders may be
moved out of it, but no watermark is ever lowered. A later order is paid only if some token account
holds all that the merchant's orders have come to, plus 99% of its amount (`World.Covers`), whatever
has been moved out: `lone_order_paid` says so of every pass over one pending order that has not
expired, and `withdrawal_hides_deposit` is an order whose full amount has arrived but that stays
pending.
-/

namespace Gateway

open Foundations

/-- What the merchant's orders that are stored as paid on Solana in an asset come to. -/
def System.paidTotal (s : System) (id : MerchantId) (b : Asset) : ℚ :=
  ((s.solanaPaid id b).map fun o => o.paidAmount.getD 0).sum

namespace World

/-- Both queries for the merchant's address are answered with its balances. -/
def Answering (w : World) (a : Answers) (id : MerchantId) : Prop :=
  ∀ x ∈ solanaStablecoinMints, ReportsBalances (a.solana x.1) (w.balances (id, x.2))

/-- Some token account of the merchant's address holds all that its paid orders come to, plus 99%
of the amount. -/
def Covers (w : World) (id : MerchantId) (amount : ℚ) (b : Asset) : Prop :=
  ∃ x ∈ w.balances (id, b), w.system.paidTotal id b + amount * minPaymentFraction ≤ x

/-- Can a pass with these answers pay the order, and store it? -/
def Payable (w : World) (now : Timestamp) (a : Answers) (o : MerchantOrder) (m : Merchant) : Prop :=
  match a.evm with
  | some (some em) => fitsConfirmed now a.clock (.evm em) o m
  | _ => (∃ b, w.Covers o.merchantId o.amountUsd.value b) ∧ m.volumeFits a.clock o.amountUsd.value

end World

/-! ## The verdict on true balances -/

namespace WorldHolds

variable {w : World}

/-- A stored watermark is what the merchant's paid orders come to. -/
theorem stored_mark (h : WorldHolds w) {id : MerchantId} {m : Merchant}
    (hm : w.system.merchants.find? id = some m) (b : Asset) :
    m.consumed b = w.system.paidTotal id b ∧ IsWatermark (m.consumed b) ∧
      m.consumed b < 10 ^ 14 := by
  obtain ⟨hmem, rfl⟩ := Table.find?_eq_some.mp hm
  obtain ⟨htotal, hlt⟩ := h.serial.ledger.marks m hmem b
  have hpos := h.serial.ledger.claims_positive h.serial.sessions h.serial.positive
  refine ⟨h.serial.ledger.consumed_eq_sum hmem b, ⟨?_, ?_⟩, (abs_lt.mp hlt).2⟩
  · rw [htotal]
    exact scaled_total h.serial.ledger.cents _
  · rw [htotal]
    exact Ledger.total_nonneg hpos _

theorem isAmount (h : WorldHolds w) {o : MerchantOrder} (ho : o ∈ w.system.orders.rows) :
    IsAmount o.amountUsd.value :=
  .of_column (h.serial.positive o ho)

theorem balance_bounds (h : WorldHolds w) {k : MerchantId × Asset} :
    ∀ x ∈ w.balances k, 0 ≤ x ∧ x < 10 ^ 20 := by
  intro x hx
  obtain ⟨units, hunits, rfl⟩ := List.mem_map.mp hx
  have hlt : (units : ℚ) < 2 ^ 64 := by exact_mod_cast h.u64 k units hunits
  unfold toUiAmount
  constructor
  · positivity
  · rw [div_lt_iff₀ (by norm_num)]
    linarith

/-- With true balances the check finds a payment exactly when some token account covers the order,
and the payment it finds is covered. -/
theorem findPayment_answering (h : WorldHolds w) {o : MerchantOrder}
    (ho : o ∈ w.system.orders.rows) {m : Merchant}
    (hm : w.system.merchants.find? o.merchantId = some m) (ha : o.solanaAddress.getD "" ≠ "")
    {a : Answers} (hevm : a.evm = some none) (hans : w.Answering a o.merchantId) :
    ∃ r : Option SolanaMatch, findPayment a o (some m) = some (r.map .solana) ∧
      match r with
      | none => ∀ b, ¬ w.Covers o.merchantId o.amountUsd.value b
      | some sm => sm.amount = o.amountUsd.value ∧
          sm.newConsumed = m.consumed sm.asset + o.amountUsd.value ∧
          w.Covers o.merchantId o.amountUsd.value sm.asset := by
  have hmark := h.stored_mark hm
  obtain ⟨r, hr, hj⟩ := @checkSolanaPayment_of_reports _ _ _ _
    (fun b => w.balances (o.merchantId, b)) ha (h.isAmount ho)
    (fun b => (hmark b).2.1) (fun b => (hmark b).2.2.trans (by norm_num)) hans
    (fun b => h.balance_bounds)
  refine ⟨r, by simp [findPayment, hevm, hr], ?_⟩
  cases r with
  | none =>
    rintro b ⟨x, hx, hle⟩
    rw [← (hmark b).1] at hle
    exact absurd (hj b x hx) (not_lt.mpr hle)
  | some sm =>
    obtain ⟨-, hamt, hnew, x, hx, -, hle⟩ := hj
    exact ⟨hamt, hnew, x, hx, by rwa [← (hmark sm.asset).1]⟩

/-- What such a claim writes fits when the monthly volume does. -/
theorem fitsConfirmed_answering (h : WorldHolds w) {o : MerchantOrder}
    (ho : o ∈ w.system.orders.rows) {m : Merchant}
    (hm : w.system.merchants.find? o.merchantId = some m) {sm : SolanaMatch}
    (hamt : sm.amount = o.amountUsd.value)
    (hnew : sm.newConsumed = m.consumed sm.asset + o.amountUsd.value)
    (hcov : w.Covers o.merchantId o.amountUsd.value sm.asset) (now clock : Timestamp) :
    fitsConfirmed now clock (.solana sm) o m = m.volumeFits clock o.amountUsd.value := by
  obtain ⟨htotal, hmark, -⟩ := h.stored_mark hm sm.asset
  have hamount := h.isAmount ho
  obtain ⟨x, hx, hle⟩ := hcov
  obtain ⟨units, hunits, rfl⟩ := List.mem_map.mp hx
  rw [← htotal] at hle
  have hlt := lt_of_covered hamount.lt (h.u64 _ units hunits) hle
  apply fitsConfirmed_solana hamt
  · rw [hnew]
    exact hmark.scaled.add hamount.scaled
  · rw [hnew, abs_of_nonneg (add_nonneg hmark.nonneg hamount.pos.le)]
    exact hlt

end WorldHolds

/-! ## The only order that can be paid -/

section LoneOrder

variable {w : World} {s' : System} {p : PassId} {now : Timestamp} {o : MerchantOrder}
  {m : Merchant} {a : Answers} {es : List Event} (h : WorldHolds w) (hes : WholePass p now es)
  (hlone : w.system.LonePending now o) (hm : w.system.merchants.find? o.merchantId = some m)
  (ha : o.solanaAddress.getD "" ≠ "") (hexp : now < o.expiresAt)
  (hs : exec System.step w.system es = some s') (hvisit : w.system.VisitedWith es p o.id a)
  (hans : w.Answering a o.merchantId)

include h hes hlone hm ha hexp hs hvisit hans

/-- **A pass over one order that is not paid on an EVM chain**: the order is stored as paid, and the
merchant with the claim, when some token account covers the order and the monthly volume fits;
otherwise both are stored as they were. -/
theorem lone_order_solana (hevm : a.evm = some none) :
    (m.volumeFits a.clock o.amountUsd.value ∧ ∃ sm,
      w.Covers o.merchantId o.amountUsd.value sm.asset ∧
      sm.newConsumed = m.consumed sm.asset + o.amountUsd.value ∧ s'.Paid o.id ∧
      s'.merchants.find? o.merchantId = some (Merchant.write ((Tracked.load m).set
        ((m.claimPayment (.solana sm)).bookVolume a.clock sm.amount)) m)) ∨
    ¬ ((∃ b, w.Covers o.merchantId o.amountUsd.value b) ∧
        m.volumeFits a.clock o.amountUsd.value) ∧ s'.RowsAt o.id o.merchantId o m := by
  obtain ⟨r, hr, hcov⟩ := h.findPayment_answering hlone.mem hm ha hevm hans
  have hrows := lone_order hes hlone hm hexp hs hvisit hr
  cases r with
  | none =>
    rcases hrows with ⟨payment, hpay, -⟩ | ⟨-, hrows⟩
    · cases hpay
    · exact .inr ⟨fun ⟨⟨b, hb⟩, _⟩ => hcov b hb, hrows⟩
  | some sm =>
    obtain ⟨hamt, hnew, hcov⟩ := hcov
    have hfits := h.fitsConfirmed_answering hlone.mem hm hamt hnew hcov now a.clock
    rcases hrows with ⟨payment, hpay, hfit, hrest⟩ | ⟨hnofit, hrows⟩
    · cases hpay
      rw [hfits] at hfit
      exact .inl ⟨hfit, sm, hcov, hnew, hrest⟩
    · refine .inr ⟨fun ⟨_, hvol⟩ => ?_, hrows⟩
      have hfit := hnofit _ rfl
      rw [hfits, hvol] at hfit
      cases hfit

/-- The same with any answer of the EVM check that is not an exception. -/
theorem WorldHolds.lone_order_paid_iff (hevm : a.evm ≠ none) :
    s'.Paid o.id ↔ w.Payable now a o m := by
  have hunpaid : s'.RowsAt o.id o.merchantId o m → ¬ s'.Paid o.id := by
    rintro hrows ⟨o', ho', hpaid⟩
    rw [hrows.order] at ho'
    cases ho'
    rw [hlone.pending] at hpaid
    cases hpaid
  cases he : a.evm with
  | none => exact absurd he hevm
  | some verdict =>
    cases verdict with
    | none =>
      simp only [World.Payable, he]
      obtain ⟨hvol, sm, hcov, -, hpaid, -⟩ | ⟨hnot, hrows⟩ :=
        lone_order_solana h hes hlone hm ha hexp hs hvisit hans he
      · exact iff_of_true hpaid ⟨⟨sm.asset, hcov⟩, hvol⟩
      · exact iff_of_false (hunpaid hrows) hnot
    | some em =>
      simp only [World.Payable, he]
      have hr : findPayment a o (some m) = some (some (.evm em)) := by simp [findPayment, he]
      rcases lone_order hes hlone hm hexp hs hvisit hr with
        ⟨payment, hpay, hfit, hpaid, -⟩ | ⟨hnofit, hrows⟩
      · cases hpay
        exact iff_of_true hpaid hfit
      · exact iff_of_false (hunpaid hrows) (by rw [hnofit _ rfl]; exact Bool.false_ne_true)

end LoneOrder

/-- **When the next pass pays the only pending order that has not expired**, after any run of
passes, deposits and withdrawals: exactly when some token account of the merchant's address holds
all that the merchant's paid orders come to, plus 99% of the amount, and the monthly volume fits its
column. -/
theorem lone_order_paid {w₀ w : World} {before : List WorldEvent} (h0 : w₀.Start)
    (run : Run World.step World.HonestRun w₀ before w) {p : PassId} {now : Timestamp}
    {o : MerchantOrder} {m : Merchant} {a : Answers} {es : List Event} {s' : System}
    (hlone : w.system.LonePending now o)
    (hm : w.system.merchants.find? o.merchantId = some m) (ha : o.solanaAddress.getD "" ≠ "")
    (hexp : now < o.expiresAt) (hes : WholePass p now es)
    (hs : exec System.step w.system es = some s') (hvisit : w.system.VisitedWith es p o.id a)
    (hans : w.Answering a o.merchantId) (hevm : a.evm ≠ none) :
    s'.Paid o.id ↔ w.Payable now a o m :=
  (worldHolds_of_run h0 run).lone_order_paid_iff hes hlone hm ha hexp hs hvisit hans hevm

/-- As long as nothing that has paid for an order is moved out of a token account, the full amount
of an order that arrives there covers it. -/
theorem covers_of_deposit {w w' : World} {id : MerchantId} {b : Asset} {i units : ℕ} {x : ℚ}
    (hheld : w.system.paidTotal id b ≤ toUiAmount ((w.accounts (id, b)).getD i 0))
    (hunits : x * minPaymentFraction ≤ toUiAmount units)
    (hs : w.step (.deposit (id, b) i units) = some w') : w'.Covers id x b := by
  obtain ⟨l, hl, hs⟩ := Option.bind_eq_some_iff.mp hs
  split_ifs at hs
  cases hs
  have hmem : (w.accounts (id, b)).getD i 0 + units ∈
      Function.update w.accounts (id, b) l (id, b) := by
    rw [Function.update_self]
    exact mem_credit hl
  refine ⟨_, List.mem_map_of_mem hmem, ?_⟩
  show w.system.paidTotal id b + x * minPaymentFraction ≤ _
  unfold toUiAmount at *
  push_cast
  linarith

/-! ### Runs of it -/

instance (w : World) (a : Answers) (id : MerchantId) : Decidable (w.Answering a id) :=
  inferInstanceAs (Decidable (∀ x ∈ solanaStablecoinMints,
    ReportsBalances (a.solana x.1) (w.balances (id, x.2))))

/-- A deposit of 20 USDC pays order 1, and order 2 waits. -/
def firstSale : List WorldEvent :=
  .deposit (1, .usdc) 0 (20 * 10 ^ 6) :: committedDelivery.map .gateway

theorem honestRun_firstSale {w : World} {es : List WorldEvent}
    (hes : ∀ e ∈ es, ∀ g, e ≠ .gateway g)
    (h : exec (restrict World.honestEvent World.step) (heldWorld [] [1, 2] (by decide))
      (firstSale ++ es) = some w) :
    Run World.step World.HonestRun (heldWorld [] [1, 2] (by decide)) (firstSale ++ es) w := by
  refine honestRun_of_exec (p := 0) (by simp [heldWorld, sampleSystem]) ?_ h
  intro e he
  rcases List.mem_append.mp he with he | he
  · have hpass : ∀ g ∈ committedDelivery, ∀ q ∈ g.pass?, q = 0 := by
      simp [committedDelivery, Event.pass?]
    exact hpass e (by simpa [firstSale] using he)
  · exact absurd rfl (hes _ he e)

/-- A second deposit on top of the first one pays order 2. -/
theorem lone_order_paid_second : ∃ w s',
    exec World.step (heldWorld [] [1, 2] (by decide))
      (firstSale ++ [.deposit (1, .usdc) 0 (20 * 10 ^ 6)]) = some w ∧
    exec System.step w.system (lonePass 0 10 (sampleOrder 2) (sampleAnswers 40) (some .quiet)) =
      some s' ∧
    s'.Paid 2 ∧ ∃ m, w.system.merchants.find? 1 = some m ∧
      w.Payable 10 (sampleAnswers 40) (sampleOrder 2) m := by
  have hworld : ((exec (restrict World.honestEvent World.step) (heldWorld [] [1, 2] (by decide))
      (firstSale ++ [.deposit (1, .usdc) 0 (20 * 10 ^ 6)])).map fun w =>
        (decide (w.Answering (sampleAnswers 40) 1),
          w.system.orders.rows.filter fun o => o.status = .pending)) =
        some (true, [sampleOrder 2]) := by
    decide +kernel
  have hpaid : ((exec (restrict World.honestEvent World.step) (heldWorld [] [1, 2] (by decide))
      (firstSale ++ [.deposit (1, .usdc) 0 (20 * 10 ^ 6)])).bind fun w =>
        (exec System.step w.system
          (lonePass 0 10 (sampleOrder 2) (sampleAnswers 40) (some .quiet))).map fun s =>
            (w.system.merchants.find? 1).isSome && (s.orders.find? 2).any (·.status = .paid)) =
        some true := by
    decide +kernel
  obtain ⟨w, hw, hall⟩ := Option.map_eq_some_iff.mp hworld
  simp only [Prod.mk.injEq, decide_eq_true_eq] at hall
  rw [hw, Option.bind_some] at hpaid
  obtain ⟨s', hs', hpaid⟩ := Option.map_eq_some_iff.mp hpaid
  simp only [Bool.and_eq_true, Option.isSome_iff_exists, Option.any_eq_true,
    decide_eq_true_eq] at hpaid
  obtain ⟨⟨m, hm⟩, hpaid⟩ := hpaid
  have run := honestRun_firstSale (by simp) hw
  refine ⟨w, s', run.exec_eq, hs', hpaid, m, hm, ?_⟩
  refine (lone_order_paid (start_heldWorld (by simp) [1, 2] (by decide)) run
    (.of_filter hall.2) hm (by decide) (by decide) (wholePass_lonePass (by simp) ..) hs'
    (visitedWith_lonePass hm hs') hall.1 (by simp [sampleAnswers])).mp hpaid

/-- **A withdrawal hides a deposit**: the 20 USDC that have paid for order 1 are moved out, the full
amount of order 2 arrives, and the pass leaves order 2 pending. -/
theorem withdrawal_hides_deposit : ∃ w s',
    Run World.step World.HonestRun (heldWorld [] [1, 2] (by decide)) (firstSale ++
      [.withdraw (1, .usdc) 0 (20 * 10 ^ 6), .deposit (1, .usdc) 0 (20 * 10 ^ 6)]) w ∧
    w.system.orders.rows.map MerchantOrder.status = [.paid, .pending] ∧
    w.Answering (sampleAnswers 20) 1 ∧
    exec System.step w.system (lonePass 0 10 (sampleOrder 2) (sampleAnswers 20) none) = some s' ∧
    s'.orders.rows.map MerchantOrder.status = [.paid, .pending] := by
  have hworld : ((exec (restrict World.honestEvent World.step) (heldWorld [] [1, 2] (by decide))
      (firstSale ++ [.withdraw (1, .usdc) 0 (20 * 10 ^ 6),
        .deposit (1, .usdc) 0 (20 * 10 ^ 6)])).map fun w =>
        (decide (w.Answering (sampleAnswers 20) 1),
          w.system.orders.rows.map MerchantOrder.status)) = some (true, [.paid, .pending]) := by
    decide +kernel
  have hpass : ((exec (restrict World.honestEvent World.step) (heldWorld [] [1, 2] (by decide))
      (firstSale ++ [.withdraw (1, .usdc) 0 (20 * 10 ^ 6),
        .deposit (1, .usdc) 0 (20 * 10 ^ 6)])).bind fun w =>
        (exec System.step w.system (lonePass 0 10 (sampleOrder 2) (sampleAnswers 20) none)).map
          fun s => s.orders.rows.map MerchantOrder.status) = some [.paid, .pending] := by
    decide +kernel
  obtain ⟨w, hw, hall⟩ := Option.map_eq_some_iff.mp hworld
  simp only [Prod.mk.injEq, decide_eq_true_eq] at hall
  rw [hw, Option.bind_some] at hpass
  obtain ⟨s', hs', hst⟩ := Option.map_eq_some_iff.mp hpass
  exact ⟨w, s', honestRun_firstSale (by simp) hw, hall.2, hall.1, hs', hst⟩

end Gateway
