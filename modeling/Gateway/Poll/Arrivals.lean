import Gateway.Poll.Chain

/-!
# What has arrived

The watermarks are meant to let only newly arrived tokens pay an order. They start at 0, and the
checker compares them with what an address holds, so this is so when no token account of the address
holds more than has arrived since the merchant was enrolled (`World.NewTokens`): in particular for
an address that was empty then (`arrivals_back_claims_of_empty`). The gateway accepts any address,
and `old_tokens_pay` is an order that was paid by tokens that the address had held all along.
-/

namespace Gateway

open Foundations

/-- The claim that the next visit makes with these answers. -/
def Pass.nextClaim (pass : Pass) (a : Answers) : Option PaymentClaim :=
  match pass.nextVisit a with
  | some (_, _, some (.paid _ _ c)) => c.claim
  | _ => none

theorem Pass.nextClaim_eq_some {pass : Pass} {a : Answers} {cl : PaymentClaim}
    (h : pass.nextClaim a = some cl) : ∃ id rest o m c,
      pass.nextVisit a = some (id, rest, some (.paid o m c)) ∧ cl ∈ c.claim := by
  unfold nextClaim at h
  split at h
  · exact ⟨_, _, _, _, _, ‹_›, h⟩
  · cases h

namespace World

/-- What the merchant's orders that are paid on Solana in an asset come to: those committed as paid,
and those that the pass has confirmed since its last commit. -/
def paidSoFar (w : World) (pass : Pass) (k : MerchantId × Asset) : ℚ :=
  ((w.system.solanaPaid k.1 k.2).map fun o => o.paidAmount.getD 0).sum +
    Ledger.total pass.claims k

/-- When the event marks an order of the merchant as paid on Solana, at least the amounts of all
orders so far, less 1% of this one, have arrived. -/
def Backed (w : World) (id : MerchantId) : WorldEvent → Prop
  | .gateway (.visit p a) => ∀ pass cl, w.system.passes p = some pass →
      pass.nextClaim a = some cl → cl.account.1 = id →
      w.paidSoFar pass cl.account + cl.amount - cl.amount / 100 ≤ toUiAmount (w.arrived cl.account)
  | _ => True

/-- When an order is visited, no token account of the merchant's address holds more than has
arrived. -/
def NewTokens (w : World) (id : MerchantId) : WorldEvent → Prop
  | .gateway (.visit _ _) => ∀ a, ∀ b ∈ w.accounts (id, a), b ≤ w.arrived (id, a)
  | _ => True

end World

namespace WorldHolds

variable {w : World} {id : MerchantId}

/-- What the session's watermark shows is what has been paid so far. -/
theorem paidSoFar_eq (h : WorldHolds w) {p : PassId} {pass : Pass}
    (hp : w.system.passes p = some pass) {k : MerchantId × Asset} {t : Tracked Merchant}
    (ht : pass.merchants k.1 = some t) :
    w.paidSoFar pass k =
      Ledger.total w.system.ledger k + Ledger.total pass.claims k := by
  obtain ⟨-, m, hf⟩ := (h.serial.sessions.ok p pass hp).merchants k.1 t ht
  obtain ⟨hmem, hid⟩ := Table.find?_eq_some.mp hf
  rw [key_merchant] at hid
  have hsum := h.serial.ledger.consumed_eq_sum hmem k.2
  rw [(h.serial.ledger.marks m hmem k.2).1, hid] at hsum
  rw [World.paidSoFar, ← hsum]

theorem backed (h : WorldHolds w) {e : WorldEvent} (hok : w.HonestRun e)
    (hnew : w.NewTokens id e) : w.Backed id e := by
  cases e with
  | gateway e =>
    cases e with
    | visit p a =>
      intro pass cl hp hclaim hid
      obtain ⟨_, _, _, _, _, hv, hcl⟩ := Pass.nextClaim_eq_some hclaim
      obtain ⟨b, hb, hcov⟩ := h.claim_covered hp hv hok.2 hcl
      obtain ⟨-, t, ht, hvisit⟩ := Pass.nextVisit_eq_some hv
      obtain ⟨m₀, sm, hm₀, -, hacc, -⟩ := claim_of_visit hvisit.symm hcl
      obtain ⟨t₀, ht₀, rfl⟩ := Option.map_eq_some_iff.mp hm₀
      have hle : toUiAmount b ≤ toUiAmount (w.arrived cl.account) := by
        apply toUiAmount_le
        have := hnew cl.account.2 b
        rw [← hid] at this
        exact this hb
      rw [h.paidSoFar_eq hp (by rw [hacc, ht₀])]
      unfold minPaymentFraction at hcov
      linarith
    | _ => trivial
  | _ => trivial

end WorldHolds

/-- **Only newly arrived tokens pay an order** in every run in which, whenever an order is visited,
no token account of the merchant's address holds more than has arrived there. -/
theorem arrivals_back_claims {w₀ w : World} {es : List WorldEvent} {id : MerchantId}
    (h0 : w₀.Start) (run : Run World.step (fun w e => w.HonestRun e ∧ w.NewTokens id e) w₀ es w)
    {e : WorldEvent} (hok : w.HonestRun e ∧ w.NewTokens id e) : w.Backed id e := by
  have h : WorldHolds w := run.invariant (fun _ _ _ h hok hs => h.step hok.1 hs) h0.holds
  exact h.backed hok.1 hok.2

/-! ## Addresses that were empty -/

/-- The accounts of an address hold at most what has arrived there. -/
theorem sum_le_arrived {w w' : World} {e : WorldEvent} {k : MerchantId × Asset}
    (h : (w.accounts k).sum ≤ w.arrived k) (hs : w.step e = some w') :
    (w'.accounts k).sum ≤ w'.arrived k := by
  cases e with
  | deposit k' i units =>
    obtain ⟨l, hl, hs⟩ := Option.bind_eq_some_iff.mp hs
    split_ifs at hs
    cases hs
    by_cases hk : k = k'
    · subst hk
      simp only [Function.update_self, sum_credit hl]
      omega
    · simpa [Function.update_of_ne hk] using h
  | withdraw k' i units =>
    obtain ⟨l, hl, rfl⟩ := Option.map_eq_some_iff.mp hs
    by_cases hk : k = k'
    · subst hk
      have := sum_debit hl
      simp only [Function.update_self]
      omega
    · simpa [Function.update_of_ne hk] using h
  | gateway e =>
    obtain ⟨s', -, rfl⟩ := Option.map_eq_some_iff.mp hs
    exact h

/-- Whatever pays an order of a merchant whose address was empty has arrived since. -/
theorem arrivals_back_claims_of_empty {w₀ w : World} {es : List WorldEvent} {id : MerchantId}
    (h0 : w₀.Start) (hempty : ∀ a, w₀.accounts (id, a) = [])
    (run : Run World.step World.HonestRun w₀ es w) {e : WorldEvent} (hok : w.HonestRun e) :
    w.Backed id e := by
  have harrived : ∀ a, (w.accounts (id, a)).sum ≤ w.arrived (id, a) := fun a =>
    run.invariant (fun _ _ _ h _ hs => sum_le_arrived h hs) (by simp [hempty])
  apply (worldHolds_of_run h0 run).backed hok
  unfold World.NewTokens
  split
  · exact fun a b hb => (List.single_le_sum (by simp) b hb).trans (harrived a)
  · trivial

/-! ### Runs of it -/

/-- A world whose merchants' addresses hold these units of USDC, of which none have arrived. -/
def heldWorld (units : List ℕ) (orders : List OrderId) (h : orders.Nodup) : World where
  system := sampleSystem orders h
  accounts := fun k => if k.2 = .usdc then units else []
  arrived := fun _ => 0

theorem start_heldWorld {units : List ℕ} (hu : ∀ b ∈ units, b < 2 ^ 64) (orders : List OrderId)
    (h : orders.Nodup) : (heldWorld units orders h).Start where
  system := start_sampleSystem orders h
  positive := by
    intro o ho
    obtain ⟨id, -, rfl⟩ := List.mem_map.mp ho
    norm_num [sampleOrder, Numeric.value]
  u64 := by
    intro k b hb
    simp only [heldWorld] at hb
    split_ifs at hb
    · exact hu b hb
    · cases hb

/-- A pass that has read the orders and their merchant. -/
def opening (orders : List OrderId) : List WorldEvent :=
  [.gateway (.begin 0 10 (orders.map sampleOrder)), .gateway (.loadMerchants 0)]

/-- The claim that a visit of the pass would make. -/
def World.nextClaim (w : World) (a : Answers) : Option PaymentClaim :=
  (w.system.passes 0).bind fun pass => pass.nextClaim a

/-- An address that was empty, and a deposit that pays the order. -/
theorem arrivals_back_claims_deposit :
    ∃ w, exec World.step (heldWorld [] [1] (by decide))
        (.deposit (1, .usdc) 0 (20 * 10 ^ 6) :: opening [1]) = some w ∧
      w.nextClaim (sampleAnswers 20) =
        some { owner := 1, account := (1, .usdc), amount := 20, balance := some 20 } ∧
      w.Backed 1 (.gateway (.visit 0 (sampleAnswers 20))) := by
  have hclaim : ((exec (restrict World.honestEvent World.step) (heldWorld [] [1] (by decide))
      (.deposit (1, .usdc) 0 (20 * 10 ^ 6) :: opening [1])).bind fun w =>
        w.nextClaim (sampleAnswers 20)) =
          some { owner := 1, account := (1, .usdc), amount := 20, balance := some 20 } := by
    decide +kernel
  have hvisit : ((exec (restrict World.honestEvent World.step) (heldWorld [] [1] (by decide))
      (.deposit (1, .usdc) 0 (20 * 10 ^ 6) :: opening [1])).map fun w =>
        w.honestEvent (.gateway (.visit 0 (sampleAnswers 20))) && [Asset.usdc, .usdt].all fun a =>
          (w.accounts (1, a)).all fun b => b ≤ w.arrived (1, a)) = some true := by
    decide +kernel
  obtain ⟨w, hw, hclaim⟩ := Option.bind_eq_some_iff.mp hclaim
  rw [hw, Option.map_some, Option.some.injEq, Bool.and_eq_true] at hvisit
  obtain ⟨hhonest, hnew⟩ := hvisit
  have run := honestRun_of_exec (p := 0) (by simp [heldWorld, sampleSystem])
    (by simp [opening, Event.pass?]) hw
  have hrun : Run World.step (fun w e => w.NewTokens 1 e) (heldWorld [] [1] (by decide)) _ w :=
    .of_exec_of_forall (by simp [opening, World.NewTokens]) run.exec_eq
  refine ⟨w, run.exec_eq, hclaim, arrivals_back_claims (start_heldWorld (by simp) [1] (by decide))
    (run.inter hrun) ⟨⟨⟨trivial, trivial⟩, (World.honestEvent_sound hhonest).2⟩, ?_⟩⟩
  intro a b hb
  have := List.all_eq_true.mp hnew a (by cases a <;> simp)
  simpa using List.all_eq_true.mp this b hb

/-- **Old tokens pay an order**: the address of the merchant holds 20 USDC when the merchant is
enrolled and nothing arrives afterwards, but the first order of $20 is paid. -/
theorem old_tokens_pay :
    ∃ w, Run World.step World.HonestRun (heldWorld [20 * 10 ^ 6] [1] (by decide)) (opening [1]) w ∧
      w.HonestRun (.gateway (.visit 0 (sampleAnswers 20))) ∧
      ¬ w.Backed 1 (.gateway (.visit 0 (sampleAnswers 20))) ∧
      (exec System.step w.system [.visit 0 (sampleAnswers 20), .push 0 .quiet, .finish 0]).map
        (fun s => s.orders.rows.map MerchantOrder.status) = some [.paid] := by
  have hclaim : ((exec (restrict World.honestEvent World.step)
      (heldWorld [20 * 10 ^ 6] [1] (by decide)) (opening [1])).bind fun w =>
        w.nextClaim (sampleAnswers 20)) =
          some { owner := 1, account := (1, .usdc), amount := 20, balance := some 20 } := by
    decide +kernel
  have hvisit : ((exec (restrict World.honestEvent World.step)
      (heldWorld [20 * 10 ^ 6] [1] (by decide)) (opening [1])).map fun w =>
        w.honestEvent (.gateway (.visit 0 (sampleAnswers 20))) && w.arrived (1, .usdc) = 0 &&
          (w.system.passes 0).all fun pass => w.paidSoFar pass (1, .usdc) = 0) = some true := by
    decide +kernel
  have hpaid : ((exec (restrict World.honestEvent World.step)
      (heldWorld [20 * 10 ^ 6] [1] (by decide)) (opening [1])).bind fun w =>
        (exec System.step w.system [.visit 0 (sampleAnswers 20), .push 0 .quiet, .finish 0]).map
          fun s => s.orders.rows.map MerchantOrder.status) = some [.paid] := by
    decide +kernel
  obtain ⟨w, hw, hclaim⟩ := Option.bind_eq_some_iff.mp hclaim
  rw [hw, Option.bind_some] at hpaid
  rw [hw, Option.map_some, Option.some.injEq] at hvisit
  simp only [Bool.and_eq_true, decide_eq_true_eq] at hvisit
  obtain ⟨⟨hhonest, harrived⟩, hzero⟩ := hvisit
  refine ⟨w, honestRun_of_exec (p := 0) (by simp [heldWorld, sampleSystem])
    (by simp [opening, Event.pass?]) hw,
    ⟨⟨trivial, trivial⟩, (World.honestEvent_sound hhonest).2⟩, ?_, hpaid⟩
  intro hbacked
  obtain ⟨pass, hp, hclaim⟩ := Option.bind_eq_some_iff.mp hclaim
  have hle := hbacked pass _ hp hclaim rfl
  rw [hp, Option.all_some, decide_eq_true_eq] at hzero
  simp only [hzero, harrived] at hle
  norm_num [toUiAmount] at hle

end Gateway
