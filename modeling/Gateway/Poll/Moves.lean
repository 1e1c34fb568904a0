import Gateway.Poll.System

/-!
# What a visit and an event can do

`visitOrder_cases` lists what a visit can do to an order and its merchant, and `Move` what each
event does to the system. Every invariant of the system is proved by cases on `Move`, and none
unfolds the step function again.
-/

namespace Gateway

open Foundations

/-! ## What a visit does -/

/-- The part of a claim that the row of its order records. -/
def claimEntry (c : PaymentClaim) : (MerchantId × Asset) × ℚ := (c.account, c.amount)

/-- What a visit that finds a payment does to the order and the merchant. -/
structure Confirms (o : MerchantOrder) (m : Option Merchant) (o' : MerchantOrder)
    (m' : Option Merchant) (c : Confirmation) : Prop where
  order_eq : c.order = o.id
  id_eq : o'.id = o.id
  merchantId_eq : o'.merchantId = o.merchantId
  amountUsd_eq : o'.amountUsd = o.amountUsd
  paid : o'.status = .paid
  claimed_eq : o'.claimed = c.claim.toList.map claimEntry
  merchant_eq : m'.map Merchant.id = m.map Merchant.id
  /-- Without a claim on an asset its watermark stays. -/
  unclaimed : ∀ a, (∀ cl ∈ c.claim, cl.account ≠ (o.merchantId, a)) →
    m'.map (Merchant.consumed · a) = m.map (Merchant.consumed · a)
  /-- A claim adds the amount of the order to a watermark that it is covered on. -/
  claim : ∀ cl ∈ c.claim, ∃ a m₀ m₁, m = some m₀ ∧ m' = some m₁ ∧ cl.owner = o.id ∧
    cl.account = (o.merchantId, a) ∧ cl.amount = o.amountUsd.value ∧
    Decimal.Context.default.add (m₀.consumed a) cl.amount = some (m₁.consumed a) ∧
    (IsAmount cl.amount → IsWatermark (m₀.consumed a) → ∀ b ∈ cl.balance,
      m₀.consumed a + cl.amount * minPaymentFraction ≤ b)

@[simp] theorem Merchant.bookVolume_id (clock : Timestamp) (q : ℚ) (m : Merchant) :
    (m.bookVolume clock q).id = m.id := by
  unfold bookVolume
  split_ifs <;> simp

@[simp] theorem Merchant.consumed_bookVolume (clock : Timestamp) (q : ℚ) (m : Merchant)
    (a : Asset) : (m.bookVolume clock q).consumed a = m.consumed a := by
  unfold bookVolume
  split_ifs
  · rw [← consumed_ensureBillingCycleCurrent clock m a]
    cases a <;> rfl
  · rfl

@[simp] theorem Merchant.claimPayment_id (payment : Payment) (m : Merchant) :
    (m.claimPayment payment).id = m.id := by
  cases payment <;> simp [claimPayment]

theorem MerchantOrder.claimed_markPaid (now : Timestamp) (payment : Payment) (o : MerchantOrder) :
    (o.markPaid now payment).claimed = (payment.claim o).toList.map claimEntry := by
  cases payment <;> rfl

/-- A Solana payment is found for a merchant, by the Solana check. -/
theorem findPayment_solana {a : Answers} {o : MerchantOrder} {m : Option Merchant}
    {sm : SolanaMatch}
    (h : findPayment a o m = some (some (.solana sm))) : ∃ m₀, m = some m₀ ∧
      checkSolanaPayment a.solana o.solanaAddress o.amountUsd.value m₀.consumed =
        some (some sm) := by
  unfold findPayment at h
  split at h
  · cases h
  · cases h
  · cases h
  · rename_i m₀ _
    obtain ⟨r, hr, hp⟩ := Option.map_eq_some_iff.mp h
    cases r with
    | none => cases hp
    | some sm' =>
      cases hp
      exact ⟨m₀, rfl, hr⟩

theorem confirms_none (now : Timestamp) (a : Answers) (payment : Payment) (o : MerchantOrder)
    (h : findPayment a o none = some (some payment)) :
    Confirms o none (o.markPaid now payment) none ⟨o.id, false, none, none⟩ where
  order_eq := rfl
  id_eq := rfl
  merchantId_eq := rfl
  amountUsd_eq := rfl
  paid := rfl
  claimed_eq := by
    cases payment with
    | evm m => rfl
    | solana sm =>
      obtain ⟨m₀, hm, -⟩ := findPayment_solana h
      cases hm
  merchant_eq := rfl
  unclaimed := by simp
  claim := by simp

theorem confirms_some (now : Timestamp) (a : Answers) (payment : Payment) (o o' : MerchantOrder)
    (m : Merchant) (delivered : Bool) (h : findPayment a o (some m) = some (some payment))
    (ho' : o' = if delivered then { o.markPaid now payment with webhookDeliveredAt := some now }
      else o.markPaid now payment) :
    Confirms o (some m) o' (some ((m.claimPayment payment).bookVolume a.clock payment.amount))
      ⟨o.id, delivered, payment.claim o, m.contribution a.clock payment.amount⟩ := by
  have hsame : o'.id = o.id ∧ o'.merchantId = o.merchantId ∧ o'.amountUsd = o.amountUsd ∧
      o'.status = .paid ∧ o'.claimed = (o.markPaid now payment).claimed := by
    cases delivered <;> subst ho' <;> exact ⟨rfl, rfl, rfl, rfl, rfl⟩
  obtain ⟨hid, hmer, hamt, hst, hcl⟩ := hsame
  refine ⟨rfl, hid, hmer, hamt, hst, ?_, ?_, ?_, ?_⟩
  · rw [hcl, MerchantOrder.claimed_markPaid]
  · simp
  · intro b hb
    cases payment with
    | evm em => simp [Merchant.claimPayment]
    | solana sm =>
      have hne : b ≠ sm.asset := by
        rintro rfl
        simp [Payment.claim] at hb
      simp [Merchant.claimPayment, Merchant.consumed_setConsumed, hne]
  · intro cl hcl
    cases payment with
    | evm em => simp [Payment.claim] at hcl
    | solana sm =>
      obtain ⟨m₀, hm₀, hcheck⟩ := findPayment_solana h
      cases hm₀
      simp only [Payment.claim, Option.mem_def, Option.some.injEq] at hcl
      subst hcl
      obtain ⟨hamount, hadd, -⟩ := checkSolanaPayment_eq_match hcheck
      refine ⟨sm.asset, m, _, rfl, rfl, rfl, rfl, hamount, ?_, ?_⟩
      · rw [hamount, hadd]
        simp [Merchant.claimPayment, Merchant.consumed_setConsumed]
      · intro he hc b hb
        simp only [hamount] at he ⊢
        exact checkSolanaPayment_covered hcheck he hc hb

/-- What a visit can do. -/
theorem visitOrder_cases {now : Timestamp} {a : Answers} {o : MerchantOrder} {m : Option Merchant}
    {v : Visit} (h : visitOrder now a o m = some v) :
    v = .expired { o with status := .expired } ∨ v = .unpaid ∨
      ∃ o' m' c, v = .paid o' m' c ∧ Confirms o m o' m' c := by
  unfold visitOrder at h
  split_ifs at h with hexp
  · exact .inl (Option.some.inj h).symm
  · split at h
    · cases h
    · exact .inr (.inl (Option.some.inj h).symm)
    · rename_i payment hp
      right; right
      cases m with
      | none => exact ⟨_, _, _, (Option.some.inj h).symm, confirms_none now a payment o hp⟩
      | some m =>
        exact ⟨_, _, _, (Option.some.inj h).symm, confirms_some now a payment o _ m _ hp rfl⟩

/-- A visit that pays confirms a payment that it has found. -/
theorem confirm_of_visit {now : Timestamp} {a : Answers} {o o' : MerchantOrder}
    {m m' : Option Merchant} {c : Confirmation} (h : visitOrder now a o m = some (.paid o' m' c)) :
    ¬ o.expiresAt ≤ now ∧ ∃ payment, findPayment a o m = some (some payment) ∧
      confirm now a payment o m = .paid o' m' c := by
  unfold visitOrder at h
  split_ifs at h with hexp
  · cases h
  · refine ⟨hexp, ?_⟩
    split at h
    · cases h
    · cases h
    · rename_i payment hp
      exact ⟨payment, hp, Option.some.inj h⟩

/-- A contribution is what has been added to the volume of the order's merchant. -/
theorem contribution_of_visit {now : Timestamp} {a : Answers} {o o' : MerchantOrder}
    {m m' : Option Merchant} {c : Confirmation} (h : visitOrder now a o m = some (.paid o' m' c)) :
    (m = none ∧ m' = none ∧ c.contribution = none) ∨ ∃ m₀ payment, m = some m₀ ∧
      m' = some ((m₀.claimPayment payment).bookVolume a.clock payment.amount) ∧
      c.contribution = m₀.contribution a.clock payment.amount := by
  obtain ⟨-, payment, -, hconfirm⟩ := confirm_of_visit h
  cases m with
  | none =>
    cases hconfirm
    exact .inl ⟨rfl, rfl, rfl⟩
  | some m₀ =>
    cases hconfirm
    exact .inr ⟨m₀, payment, rfl, rfl, rfl⟩

/-- A claim comes from a match of the Solana check. -/
theorem claim_of_visit {now : Timestamp} {a : Answers} {o o' : MerchantOrder}
    {m m' : Option Merchant} {c : Confirmation} (h : visitOrder now a o m = some (.paid o' m' c))
    {cl : PaymentClaim} (hcl : cl ∈ c.claim) : ∃ m₀ sm, m = some m₀ ∧
      checkSolanaPayment a.solana o.solanaAddress o.amountUsd.value m₀.consumed = some (some sm) ∧
      cl.account = (o.merchantId, sm.asset) ∧ cl.amount = sm.amount ∧
      cl.balance = sm.uiAmount.number? := by
  obtain ⟨-, payment, hp, hconfirm⟩ := confirm_of_visit h
  cases m with
  | none =>
    cases hconfirm
    cases hcl
  | some m =>
    cases hconfirm
    cases payment with
    | evm em => cases hcl
    | solana sm =>
      cases hcl
      obtain ⟨m₀, hm, hcheck⟩ := findPayment_solana hp
      exact ⟨m₀, sm, hm, hcheck, rfl, rfl, rfl⟩

/-! ## What an event does -/

/-- What a visit does to the system when it does not raise. -/
def System.visited (s : System) (p : PassId) (pass : Pass) (id : OrderId) (rest : List OrderId)
    (v : Visit) : System :=
  s.visit p pass (id, rest, some v)

/-- What each event does. -/
inductive Move (s : System) : Event → System → Prop
  | none {p now} : s.passes p = none → Move s (.begin p now []) s
  | begin {p now pending} : s.passes p = none → s.isPendingList pending →
      Move s (.begin p now pending) (s.setPass p (System.openPass now pending))
  | load {p pass} : s.passes p = some pass → pass.stage = .opened →
      Move s (.loadMerchants p)
        (s.setPass p { pass with stage := .looping, merchants := s.loadedMerchants pass })
  | visit {p a pass id rest t v} : s.passes p = some pass → pass.stage = .looping →
      pass.todo = id :: rest → pass.orders id = some t →
      visitOrder pass.now a t.cur ((pass.merchants t.cur.merchantId).map Tracked.cur) = some v →
      Move s (.visit p a) (s.visited p pass id rest v)
  | raise {p a pass id rest} : s.passes p = some pass →
      pass.nextVisit a = some (id, rest, none) → Move s (.visit p a) (s.endPass p)
  | mark {p o pass} {broken : Bool} : s.passes p = some pass → pass.stage = .notifying →
      (pass.broken → broken) ∧ (o = .commits → s.canSave pass = false) →
      Move s (.push p o) (s.setPass p { pass with stage := .looping, broken := broken })
  | pushSave {p pass} : s.passes p = some pass → pass.stage = .notifying → s.canSave pass →
      Move s (.push p .commits) ((s.save pass).setPass p { pass.synced with stage := .looping })
  | finishSave {p pass} : s.passes p = some pass → s.canSave pass →
      Move s (.finish p) ((s.save pass).endPass p)
  | finishLost {p pass} : s.passes p = some pass → s.canSave pass = false →
      Move s (.finish p) (s.endPass p)
  | abort {p pass} : s.passes p = some pass → Move s (.abort p) (s.endPass p)
  | other {m order s'} : s.other m order = some s' → Move s (.other m order) s'

theorem Pass.nextVisit_eq_some {pass : Pass} {a : Answers} {id : OrderId} {rest : List OrderId}
    {r : Option Visit} (h : pass.nextVisit a = some (id, rest, r)) :
    pass.todo = id :: rest ∧ ∃ t, pass.orders id = some t ∧
      r = visitOrder pass.now a t.cur ((pass.merchants t.cur.merchantId).map Tracked.cur) := by
  unfold nextVisit at h
  cases htodo : pass.todo with
  | nil => simp [htodo] at h
  | cons i l =>
    simp only [htodo] at h
    obtain ⟨t, ht, he⟩ := Option.map_eq_some_iff.mp h
    cases he
    exact ⟨rfl, t, ht, rfl⟩

theorem Move.of_step {s s' : System} {e : Event} (h : s.step e = some s') : Move s e s' := by
  cases e with
  | begin p now pending =>
    simp only [System.step] at h
    split_ifs at h with hc hp
    · cases h
      subst hp
      simp only [Bool.and_eq_true, Option.isNone_iff_eq_none] at hc
      exact .none hc.1
    · cases h
      simp only [Bool.and_eq_true, Option.isNone_iff_eq_none] at hc
      exact .begin hc.1 hc.2
  | loadMerchants p =>
    obtain ⟨pass, hp, h⟩ := Option.bind_eq_some_iff.mp h
    split_ifs at h with hst
    cases h
    exact .load hp hst
  | visit p a =>
    obtain ⟨pass, hp, h⟩ := Option.bind_eq_some_iff.mp h
    split_ifs at h with hst
    obtain ⟨⟨id, rest, r⟩, hv, rfl⟩ := Option.map_eq_some_iff.mp h
    obtain ⟨htodo, t, ht, hr⟩ := Pass.nextVisit_eq_some hv
    cases r with
    | none => exact .raise hp hv
    | some v => exact .visit hp hst htodo ht hr.symm
  | push p outcome =>
    obtain ⟨pass, hp, h⟩ := Option.bind_eq_some_iff.mp h
    split_ifs at h with hst
    cases h
    cases outcome with
    | quiet => exact .mark hp hst ⟨id, by simp⟩
    | commits =>
      simp only [System.push]
      split_ifs with hsave
      · exact .pushSave hp hst hsave
      · exact .mark hp hst ⟨fun _ => rfl, fun _ => by simpa using hsave⟩
    | fails => exact .mark hp hst ⟨fun _ => rfl, by simp⟩
  | finish p =>
    obtain ⟨pass, hp, h⟩ := Option.bind_eq_some_iff.mp h
    split_ifs at h with hst hsave
    · cases h
      exact .finishSave hp hsave
    · cases h
      exact .finishLost hp (by simpa using hsave)
  | abort p =>
    obtain ⟨pass, hp, rfl⟩ := Option.map_eq_some_iff.mp h
    exact .abort hp
  | other m order => exact .other h

end Gateway
