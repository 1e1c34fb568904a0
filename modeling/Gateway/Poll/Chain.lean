import Gateway.Poll.Overlap

/-!
# The tokens behind the orders

The gateway only ever sees replies. Here they come from somewhere: a merchant's Solana address has,
per asset, token accounts with balances, in which deposits arrive and from which the merchant takes
out what it likes. A `World` is the gateway together with these accounts and with the total that has
arrived in them. Passes run one after another, every query is answered truthfully or not at all
(`Honest`), and in between anything may happen on the chain and in the database.

A claim is then covered by tokens (`WorldHolds.claim_covered`): some token account holds what has
been claimed of the asset before, plus 99% of the amount.
-/

namespace Gateway

open Foundations

/-! ## Token accounts -/

/-- A number of token units as the replies show it; `_SOLANA_STABLECOIN_DECIMALS` is 6. -/
def toUiAmount (units : ℕ) : ℚ := units / 10 ^ 6

/-- A deposit into a token account, or into a new one behind the others. -/
def credit : List ℕ → ℕ → ℕ → Option (List ℕ)
  | [], 0, units => some [units]
  | [], _ + 1, _ => none
  | b :: l, 0, units => some ((b + units) :: l)
  | b :: l, i + 1, units => (credit l i units).map (b :: ·)

/-- A withdrawal from a token account that holds enough. -/
def debit : List ℕ → ℕ → ℕ → Option (List ℕ)
  | [], _, _ => none
  | b :: l, 0, units => if units ≤ b then some ((b - units) :: l) else none
  | b :: l, i + 1, units => (debit l i units).map (b :: ·)

theorem sum_credit {l l' : List ℕ} {i units : ℕ} (h : credit l i units = some l') :
    l'.sum = l.sum + units := by
  induction l generalizing i l' with
  | nil =>
    cases i with
    | zero => cases h; simp
    | succ i => cases h
  | cons b l ih =>
    cases i with
    | zero =>
      cases h
      simp only [List.sum_cons]
      omega
    | succ i =>
      obtain ⟨l₁, h₁, rfl⟩ := Option.map_eq_some_iff.mp h
      simp only [List.sum_cons, ih h₁]
      omega

/-- A deposit adds to the account that it goes to. -/
theorem getD_credit {l l' : List ℕ} {i units : ℕ} (h : credit l i units = some l') (j : ℕ) :
    l'.getD j 0 = l.getD j 0 + if j = i then units else 0 := by
  induction l generalizing i j l' with
  | nil =>
    cases i with
    | zero => cases h; cases j <;> simp
    | succ i => cases h
  | cons b l ih =>
    cases i with
    | zero => cases h; cases j <;> simp
    | succ i =>
      obtain ⟨l₁, h₁, rfl⟩ := Option.map_eq_some_iff.mp h
      cases j with
      | zero => simp
      | succ j => simpa using ih h₁ j

theorem mem_credit {l l' : List ℕ} {i units : ℕ} (h : credit l i units = some l') :
    l.getD i 0 + units ∈ l' := by
  induction l generalizing i l' with
  | nil =>
    cases i with
    | zero => cases h; simp
    | succ i => cases h
  | cons b l ih =>
    cases i with
    | zero => cases h; simp
    | succ i =>
      obtain ⟨l₁, h₁, rfl⟩ := Option.map_eq_some_iff.mp h
      simpa using .inr (ih h₁)

theorem sum_debit {l l' : List ℕ} {i units : ℕ} (h : debit l i units = some l') :
    l'.sum + units = l.sum := by
  induction l generalizing i l' with
  | nil => cases h
  | cons b l ih =>
    cases i with
    | zero =>
      simp only [debit] at h
      split_ifs at h with hle
      cases h
      simp only [List.sum_cons]
      omega
    | succ i =>
      obtain ⟨l₁, h₁, rfl⟩ := Option.map_eq_some_iff.mp h
      simp only [List.sum_cons]
      have := ih h₁
      omega

theorem lt_of_debit {l l' : List ℕ} {i units n : ℕ} (h : debit l i units = some l')
    (hl : ∀ b ∈ l, b < n) : ∀ b ∈ l', b < n := by
  induction l generalizing i l' with
  | nil => cases h
  | cons b l ih =>
    cases i with
    | zero =>
      simp only [debit] at h
      split_ifs at h with hle
      cases h
      intro b' hb'
      rcases List.mem_cons.mp hb' with rfl | hb'
      · have := hl b (by simp)
        omega
      · exact hl b' (by simp [hb'])
    | succ i =>
      obtain ⟨l₁, h₁, rfl⟩ := Option.map_eq_some_iff.mp h
      intro b' hb'
      rcases List.mem_cons.mp hb' with rfl | hb'
      · exact hl b' (by simp)
      · exact ih h₁ (fun b hb => hl b (by simp [hb])) b' hb'

theorem toUiAmount_le {m n : ℕ} (h : m ≤ n) : toUiAmount m ≤ toUiAmount n := by
  unfold toUiAmount
  have : (m : ℚ) ≤ n := by exact_mod_cast h
  linarith

theorem toUiAmount_add (m n : ℕ) : toUiAmount (m + n) = toUiAmount m + toUiAmount n := by
  unfold toUiAmount
  push_cast
  ring

/-! ## The gateway and the chain -/

/-- The gateway, and the token accounts of its merchants' addresses. -/
structure World where
  system : System
  /-- The units in each token account of a merchant's address, per asset. -/
  accounts : MerchantId × Asset → List ℕ
  /-- The units that have arrived there so far. -/
  arrived : MerchantId × Asset → ℕ

/-- What may happen on the chain and in the gateway. -/
inductive WorldEvent
  | deposit (k : MerchantId × Asset) (i units : ℕ)
  /-- The merchant moves tokens out: the address is its own wallet. -/
  | withdraw (k : MerchantId × Asset) (i units : ℕ)
  | gateway (e : Event)

namespace World

/-- One event; a token account holds a 64-bit number of units. -/
def step (w : World) : WorldEvent → Option World
  | .deposit k i units =>
    (credit (w.accounts k) i units).bind fun l =>
      if ∀ b ∈ l, b < 2 ^ 64 then
        some { w with
          accounts := Function.update w.accounts k l
          arrived := Function.update w.arrived k (w.arrived k + units) }
      else none
  | .withdraw k i units =>
    (debit (w.accounts k) i units).map fun l =>
      { w with accounts := Function.update w.accounts k l }
  | .gateway e => (w.system.step e).map fun s => { w with system := s }

/-- Events of the gateway leave the chain alone. -/
theorem exec_gateway (w : World) (es : List Event) :
    exec World.step w (es.map .gateway) =
      (exec System.step w.system es).map fun s => { w with system := s } := by
  induction es generalizing w with
  | nil => rfl
  | cons e es ih =>
    simp only [List.map_cons, exec_cons, step]
    cases w.system.step e with
    | none => rfl
    | some s => exact ih _

/-- The balances that the replies show. -/
def balances (w : World) (k : MerchantId × Asset) : List ℚ := (w.accounts k).map toUiAmount

/-- Each query for a merchant's address fails, or is answered with its balances. -/
def Honest (w : World) (a : Answers) (id : MerchantId) : Prop :=
  ∀ x ∈ solanaStablecoinMints, (a.solana x.1).bind accountsOf = none ∨
    ReportsBalances (a.solana x.1) (w.balances (id, x.2))

/-- The replies of a visit are honest. -/
def HonestVisit (w : World) : Event → Prop
  | .visit p a => ∀ pass id rest v t, w.system.passes p = some pass →
      pass.nextVisit a = some (id, rest, v) → pass.orders id = some t →
      w.Honest a t.cur.merchantId
  | _ => True

/-- Passes one after another, over orders of positive amounts, with honest replies. -/
def HonestRun (w : World) : WorldEvent → Prop
  | .gateway e => (Serial w.system e ∧ PositiveOrders w.system e) ∧ w.HonestVisit e
  | _ => True

end World

/-! ## Claims are covered by tokens -/

/-- The claims of a pass are of positive amounts. -/
theorem SerialHolds.claims_positive {s : System} (h : SerialHolds s) {p : PassId} {pass : Pass}
    (hp : s.passes p = some pass) : ∀ c ∈ pass.claims, 0 < c.amount := by
  intro cl hcl
  have hok := h.sessions.ok p pass hp
  obtain ⟨c, hc, hclaim⟩ := List.mem_filterMap.mp hcl
  obtain ⟨⟨t, ht⟩, howner⟩ := hok.unsaved c hc
  obtain ⟨o, hf, hcopy⟩ := hok.orders _ t ht
  have hmem : claimEntry cl ∈ t.cur.claimed := by
    have hclaims := hcopy.claims
    rw [if_neg (hcopy.unsaved c hc rfl).1] at hclaims
    rw [← hclaims]
    exact List.mem_map_of_mem (List.mem_filter.mpr ⟨hcl, by simpa using howner cl hclaim⟩)
  rw [show cl.amount = (claimEntry cl).2 from rfl, hcopy.amounts _ hmem, ← hcopy.amountUsd_eq]
  exact h.positive o (Table.find?_eq_some.mp hf).1

/-- What holds of the world when passes run one after another and replies are honest. -/
structure WorldHolds (w : World) : Prop where
  serial : SerialHolds w.system
  u64 : ∀ k, ∀ b ∈ w.accounts k, b < 2 ^ 64
  /-- No balance is large enough to drive a watermark out of its range. -/
  inRange : ∀ p pass, w.system.passes p = some pass → ¬ Overflowed w.system.merchants pass

namespace WorldHolds

variable {w w' : World} {p : PassId} {pass : Pass} {a : Answers} {id : OrderId}
  {rest : List OrderId} {o' : MerchantOrder} {m' : Option Merchant} {c : Confirmation}

/-- What a watermark in a session is made of. -/
theorem consumed_eq (h : WorldHolds w) (hp : w.system.passes p = some pass) {k : MerchantId}
    {t : Tracked Merchant} (ht : pass.merchants k = some t) (b : Asset) :
    t.cur.consumed b =
      Ledger.total w.system.ledger (k, b) + Ledger.total pass.claims (k, b) := by
  obtain ⟨-, m, hf⟩ := (h.serial.sessions.ok p pass hp).merchants k t ht
  obtain ⟨hmem, hid⟩ := Table.find?_eq_some.mp hf
  have hmarks := (h.serial.ledger.passes p pass hp).resolve_left (h.inRange p pass hp)
  rw [key_merchant] at hid
  rw [(hmarks.copy k t m ht hf b).sum, h.serial.read p pass k t m hp ht hf b,
    (h.serial.ledger.marks m hmem b).1, hid]

/-- The watermarks in a session are sums of claims. -/
theorem isWatermark (h : WorldHolds w) (hp : w.system.passes p = some pass) {k : MerchantId}
    {t : Tracked Merchant} (ht : pass.merchants k = some t) (b : Asset) :
    IsWatermark (t.cur.consumed b) := by
  obtain ⟨-, m, hf⟩ := (h.serial.sessions.ok p pass hp).merchants k t ht
  have hmarks := (h.serial.ledger.passes p pass hp).resolve_left (h.inRange p pass hp)
  refine ⟨hmarks.cur_scaled ht hf b, ?_⟩
  rw [h.consumed_eq hp ht]
  exact add_nonneg
    (Ledger.total_nonneg (h.serial.ledger.claims_positive h.serial.sessions h.serial.positive) _)
    (Ledger.total_nonneg (h.serial.claims_positive hp) _)

/-- **A claim is covered by tokens**: some token account holds all that has been claimed of the
asset before, plus 99% of the amount. -/
theorem claim_covered (h : WorldHolds w) (hp : w.system.passes p = some pass)
    (hv : pass.nextVisit a = some (id, rest, some (.paid o' m' c)))
    (hhonest : w.HonestVisit (.visit p a)) {cl : PaymentClaim} (hcl : cl ∈ c.claim) :
    ∃ b ∈ w.accounts cl.account, Ledger.total w.system.ledger cl.account +
      Ledger.total pass.claims cl.account + cl.amount * minPaymentFraction ≤ toUiAmount b := by
  obtain ⟨-, t, ht, hvisit⟩ := Pass.nextVisit_eq_some hv
  obtain ⟨m₀, sm, hm₀, hcheck, hacc, hamt, -⟩ := claim_of_visit hvisit.symm hcl
  obtain ⟨t₀, ht₀, rfl⟩ := Option.map_eq_some_iff.mp hm₀
  obtain ⟨hsm, -⟩ := checkSolanaPayment_eq_match hcheck
  obtain ⟨o, hf, hcopy⟩ := (h.serial.sessions.ok p pass hp).orders id t ht
  have hpos : 0 < t.cur.amountUsd.value := by
    rw [← hcopy.amountUsd_eq]
    exact h.serial.positive o (Table.find?_eq_some.mp hf).1
  have hamount : IsAmount t.cur.amountUsd.value := .of_column hpos
  have hreplies := hhonest pass id rest _ t hp hv ht
  obtain ⟨x, hx, hnum⟩ : ∃ x ∈ w.balances (t.cur.merchantId, sm.asset),
      sm.uiAmount.number? = some x :=
    @balance_of_match _ _ _ _ (fun b => w.balances (t.cur.merchantId, b)) _ hcheck hreplies
  obtain ⟨b, hb, rfl⟩ := List.mem_map.mp hx
  have hle := checkSolanaPayment_covered hcheck hamount (h.isWatermark hp ht₀ _) hnum
  rw [h.consumed_eq hp ht₀, ← hsm, ← hamt, ← hacc] at hle
  exact ⟨b, hacc ▸ hb, hle⟩

/-- A covered claim leaves the watermark in its range. -/
theorem lt_of_covered {c x : ℚ} {b : ℕ} (hx : x < 10 ^ 8) (hb : b < 2 ^ 64)
    (h : c + x * minPaymentFraction ≤ toUiAmount b) : c + x < 10 ^ 14 := by
  have hb' : toUiAmount b < 10 ^ 14 - 10 ^ 8 := by
    have : (b : ℚ) < 2 ^ 64 := by exact_mod_cast hb
    unfold toUiAmount
    rw [div_lt_iff₀ (by norm_num)]
    linarith
  unfold minPaymentFraction at h
  linarith

/-- The watermark that a visit has claimed on is in its range. -/
theorem claimed_lt (h : WorldHolds w) (hp : w.system.passes p = some pass)
    {t : Tracked MerchantOrder} {m₁ : Merchant}
    (hv : pass.nextVisit a = some (id, rest, some (.paid o' (some m₁) c)))
    (hhonest : w.HonestVisit (.visit p a))
    (hc : Confirms t.cur ((pass.merchants t.cur.merchantId).map Tracked.cur) o' (some m₁) c)
    {cl : PaymentClaim} (hcl : cl ∈ c.claim) {b : Asset}
    (hacc : cl.account = (t.cur.merchantId, b)) : m₁.consumed b < 10 ^ 14 := by
  obtain ⟨units, hunits, hcov⟩ := h.claim_covered hp hv hhonest hcl
  obtain ⟨b₁, m₀, _, hm₀, he, -, hacc', hamt, hadd, -⟩ := hc.claim cl hcl
  obtain rfl : b₁ = b := (Prod.mk.inj (hacc'.symm.trans hacc)).2
  obtain rfl := Option.some.inj he
  obtain ⟨t₀, ht₀, rfl⟩ := Option.map_eq_some_iff.mp hm₀
  have hx : |cl.amount| < 10 ^ 8 := by
    rw [hamt]
    exact t.cur.amountUsd.abs_value_lt (by norm_num)
  obtain ⟨hx₁, hx₂⟩ := abs_lt.mp hx
  have hmark := h.isWatermark hp ht₀ b₁
  have hlt := lt_of_covered hx₂ (h.u64 _ units hunits) hcov
  rw [hacc, ← h.consumed_eq hp ht₀] at hlt
  have hsum : |t₀.cur.consumed b₁ + cl.amount| < 10 ^ 21 := by
    rw [abs_lt]
    constructor <;> linarith [hmark.nonneg]
  rw [add_of_scaled hmark.scaled (hamt ▸ Scaled.numeric _) hsum] at hadd
  rwa [← Option.some.inj hadd]

/-- No watermark leaves its range by a visit: the one of a new claim is covered by an account. -/
theorem inRange_visit (h : WorldHolds w) {p : PassId} {a : Answers} {pass : Pass} {id : OrderId}
    {rest : List OrderId} {t : Tracked MerchantOrder} {v : Visit}
    (hhonest : w.HonestVisit (.visit p a)) (hp : w.system.passes p = some pass)
    (htodo : pass.todo = id :: rest) (ht : pass.orders id = some t)
    (hv : visitOrder pass.now a t.cur ((pass.merchants t.cur.merchantId).map Tracked.cur) = some v)
    (merchants : Table Merchant) : ¬ Overflowed merchants (pass.afterVisit id rest v) := by
  have hnext : pass.nextVisit a = some (id, rest, some v) := by
    simp [Pass.nextVisit, htodo, ht, hv]
  rintro ⟨k, t₁, m, b, ht₁, -, hbase, hcur⟩
  -- a copy that was there before is in its range
  have hold : ∀ {t₀}, pass.merchants k = some t₀ → t₀.base = t₁.base →
      t₀.cur.consumed b = t₁.cur.consumed b → False := by
    intro t₀ ht₀ hb hc
    obtain ⟨-, m₀, hf⟩ := (h.serial.sessions.ok p pass hp).merchants k t₀ ht₀
    exact h.inRange p pass hp ⟨k, t₀, m₀, b, ht₀, hf, hb ▸ hbase, hc ▸ hcur⟩
  rcases Pass.merchants_afterVisit ht₁ with ht₁ | ⟨t₀, o', m₁, c, rfl, hid, ht₀, rfl⟩
  · exact hold ht₁ rfl rfl
  · rcases visitOrder_cases hv with hv | hv | ⟨_, _, _, hv, hc⟩
    · cases hv
    · cases hv
    · cases hv
      obtain ⟨m₀, hm₀⟩ : ∃ m₀, pass.merchants t.cur.merchantId = some m₀ := by
        have hmer := hc.merchant_eq
        cases hm : pass.merchants t.cur.merchantId with
        | none => rw [hm] at hmer; cases hmer
        | some m₀ => exact ⟨m₀, rfl⟩
      have hk : t.cur.merchantId = k := by
        have hmer := hc.merchant_eq
        rw [hm₀] at hmer
        rw [← hid, Option.some.inj hmer]
        exact (((h.serial.sessions.ok p pass hp).merchants _ m₀ hm₀).1).symm
      subst hk
      obtain rfl : m₀ = t₀ := Option.some.inj (hm₀.symm.trans ht₀)
      by_cases hcl : ∃ cl ∈ c.claim, cl.account = (t.cur.merchantId, b)
      · obtain ⟨cl, hcl, hacc⟩ := hcl
        exact absurd hcur (not_le.mpr (h.claimed_lt hp hnext hhonest hc hcl hacc))
      · have hun := hc.unclaimed b fun cl hcl' he => hcl ⟨cl, hcl', he⟩
        rw [hm₀] at hun
        exact hold ht₀ rfl (Option.some.inj hun).symm

/-- No watermark leaves its range. -/
theorem inRange_step (h : WorldHolds w) {e : Event} {s' : System} (hhonest : w.HonestVisit e)
    (hs : w.system.step e = some s') {q : PassId} {other : Pass} (hq : s'.passes q = some other) :
    ¬ Overflowed s'.merchants other := by
  -- only the copies of a pass matter, over merchants that exist
  have hsame : ∀ {q pass}, w.system.passes q = some pass → other.merchants = pass.merchants →
      ¬ Overflowed s'.merchants other := by
    rintro q pass hp hm ⟨k, t, m, b, ht, -, hbase, hcur⟩
    rw [hm] at ht
    obtain ⟨-, m₀, hf⟩ := (h.serial.sessions.ok q pass hp).merchants k t ht
    exact h.inRange q pass hp ⟨k, t, m₀, b, ht, hf, hbase, hcur⟩
  have hclean : (∀ k t, other.merchants k = some t → t.cur = t.base) →
      ¬ Overflowed s'.merchants other := by
    rintro hall ⟨k, t, m, b, ht, -, hbase, hcur⟩
    rw [hall k t ht] at hcur
    linarith
  cases Move.of_step hs with
  | none _ => exact hsame hq rfl
  | begin _ _ =>
    rcases System.passes_setPass hq with ⟨rfl, rfl⟩ | ⟨-, hold⟩
    · exact hclean fun k t ht => by cases ht
    · exact hsame hold rfl
  | load _ _ =>
    rcases System.passes_setPass hq with ⟨rfl, rfl⟩ | ⟨-, hold⟩
    · refine hclean fun k t ht => ?_
      simp only [System.loadedMerchants] at ht
      split_ifs at ht
      obtain ⟨m, -, rfl⟩ := Option.map_eq_some_iff.mp ht
      rfl
    · exact hsame hold rfl
  | @visit p a pass id rest t v hp _ htodo ht hv =>
    have hset : (w.system.setPass p (pass.afterVisit id rest v)).passes q = some other := by
      cases v <;> exact hq
    rcases System.passes_setPass hset with ⟨rfl, rfl⟩ | ⟨-, hold⟩
    · exact h.inRange_visit hhonest hp htodo ht hv _
    · exact hsame hold rfl
  | raise _ _ => exact hsame (System.passes_endPass hq).2 rfl
  | mark hp _ _ =>
    rcases System.passes_setPass hq with ⟨rfl, rfl⟩ | ⟨-, hold⟩
    · exact hsame hp rfl
    · exact hsame hold rfl
  | pushSave hp _ _ =>
    rcases System.passes_setPass hq with ⟨rfl, rfl⟩ | ⟨-, hold⟩
    · refine hclean fun k t ht => ?_
      obtain ⟨t₀, -, rfl⟩ := Option.map_eq_some_iff.mp ht
      rfl
    · exact hsame hold rfl
  | finishSave _ _ => exact hsame (System.passes_endPass hq).2 rfl
  | finishLost _ _ => exact hsame (System.passes_endPass hq).2 rfl
  | abort _ => exact hsame (System.passes_endPass hq).2 rfl
  | other hother =>
    obtain ⟨-, orders, rfl, -⟩ := System.other_eq_some hother
    exact hsame hq rfl

/-- **The world keeps its invariants**, whatever happens on the chain and in the database. -/
theorem step (h : WorldHolds w) {e : WorldEvent} (hok : w.HonestRun e) (hs : w.step e = some w') :
    WorldHolds w' := by
  cases e with
  | deposit k i units =>
    obtain ⟨l, hl, hs⟩ := Option.bind_eq_some_iff.mp hs
    split_ifs at hs with hlt
    cases hs
    refine ⟨h.serial, fun k' => ?_, h.inRange⟩
    by_cases hk : k' = k
    · subst hk
      simpa using hlt
    · simpa [Function.update_of_ne hk] using h.u64 k'
  | withdraw k i units =>
    obtain ⟨l, hl, rfl⟩ := Option.map_eq_some_iff.mp hs
    refine ⟨h.serial, fun k' => ?_, h.inRange⟩
    by_cases hk : k' = k
    · subst hk
      simpa using lt_of_debit hl (h.u64 k')
    · simpa [Function.update_of_ne hk] using h.u64 k'
  | gateway e =>
    obtain ⟨s', hs', rfl⟩ := Option.map_eq_some_iff.mp hs
    exact ⟨h.serial.step hok.1 hs', h.u64, fun q other hq => h.inRange_step hok.2 hs' hq⟩

end WorldHolds

/-- The world at its start: no order has been paid on Solana, and all watermarks are 0. -/
structure World.Start (w : World) : Prop where
  system : Gateway.Start w.system
  positive : ∀ o ∈ w.system.orders.rows, 0 < o.amountUsd.value
  u64 : ∀ k, ∀ b ∈ w.accounts k, b < 2 ^ 64

theorem World.Start.holds {w : World} (h : w.Start) : WorldHolds w where
  serial := h.system.serialHolds h.positive
  u64 := h.u64
  inRange := fun p pass hp => by rw [h.system.idle p] at hp; cases hp

theorem worldHolds_of_run {w w' : World} {es : List WorldEvent} (h0 : w.Start)
    (run : Run World.step World.HonestRun w es w') : WorldHolds w' :=
  run.invariant (fun _ _ _ h hok hs => h.step hok hs) h0.holds

/-! ## Checking a run -/

instance (w : World) (a : Answers) (id : MerchantId) : Decidable (w.Honest a id) :=
  inferInstanceAs (Decidable (∀ x ∈ solanaStablecoinMints,
    (a.solana x.1).bind accountsOf = none ∨
      ReportsBalances (a.solana x.1) (w.balances (id, x.2))))

/-- Are the amounts positive and the replies honest? -/
def World.honestEvent (w : World) : WorldEvent → Bool
  | .gateway (.other _ order) => order.all fun o => 0 < o.amountUsd.value
  | .gateway (.visit p a) =>
    (w.system.passes p).all fun pass => (pass.nextVisit a).all fun next =>
      (pass.orders next.1).all fun t => w.Honest a t.cur.merchantId
  | _ => true

theorem World.honestEvent_sound {w : World} {e : Event} (h : w.honestEvent (.gateway e)) :
    PositiveOrders w.system e ∧ w.HonestVisit e := by
  cases e with
  | other m order =>
    refine ⟨fun o ho => ?_, trivial⟩
    obtain rfl := ho
    simpa [honestEvent] using h
  | visit p a =>
    refine ⟨trivial, fun pass id rest v t hp hv ht => ?_⟩
    simpa [honestEvent, hp, hv, ht] using h
  | _ => exact ⟨trivial, trivial⟩

/-- Passes under one name run one after another, whatever happens on the chain. -/
theorem serialWorld_of_exec {w w' : World} {es : List WorldEvent} {p : PassId}
    (hidle : ∀ q, q ≠ p → w.system.passes q = none)
    (hes : ∀ e, .gateway e ∈ es → ∀ q ∈ e.pass?, q = p) (h : exec World.step w es = some w') :
    Run World.step (fun w e => ∀ g, e = .gateway g → Serial w.system g) w es w' := by
  have hpass : Run World.step (fun _ e => ∀ g, e = .gateway g → ∀ q ∈ g.pass?, q = p) w es w' :=
    .of_exec_of_forall (fun e he _ g hg => hes g (hg ▸ he)) h
  have hstep : ∀ (t : World) (e : WorldEvent) (t' : World),
      (∀ q, q ≠ p → t.system.passes q = none) →
      (∀ g, e = .gateway g → ∀ q ∈ g.pass?, q = p) → t.step e = some t' →
      ∀ q, q ≠ p → t'.system.passes q = none := by
    intro t e t' hi hok hs
    cases e with
    | deposit k i units =>
      obtain ⟨l, -, hs⟩ := Option.bind_eq_some_iff.mp hs
      split_ifs at hs
      cases hs
      exact hi
    | withdraw k i units =>
      obtain ⟨l, -, rfl⟩ := Option.map_eq_some_iff.mp hs
      exact hi
    | gateway e =>
      obtain ⟨s, hs', rfl⟩ := Option.map_eq_some_iff.mp hs
      exact System.idle_step hi (hok e rfl) hs'
  refine hpass.strengthen hstep ?_ hidle
  rintro t e t' hi hok hs g rfl
  obtain ⟨s, hs', -⟩ := Option.map_eq_some_iff.mp hs
  exact serial_of_idle hi (hok g rfl) hs'

/-- Performing honest events, with passes under one name, is an honest run. -/
theorem honestRun_of_exec {w w' : World} {es : List WorldEvent} {p : PassId}
    (hidle : ∀ q, q ≠ p → w.system.passes q = none)
    (hes : ∀ e, .gateway e ∈ es → ∀ q ∈ e.pass?, q = p)
    (h : exec (restrict World.honestEvent World.step) w es = some w') :
    Run World.step World.HonestRun w es w' := by
  have hhonest := Run.of_exec_restrict h
  refine ((serialWorld_of_exec hidle hes hhonest.exec_eq).inter hhonest).mono ?_
  rintro t e ⟨hserial, hok⟩
  cases e with
  | gateway e =>
    obtain ⟨hpos, hvisit⟩ := World.honestEvent_sound hok
    exact ⟨⟨hserial e rfl, hpos⟩, hvisit⟩
  | _ => trivial

end Gateway
