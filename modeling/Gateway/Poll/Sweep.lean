import Gateway.Poll.Moves

/-!
# A pass as a sweep over its orders

Whatever happens in the database meanwhile, a pass works on its own copies: it visits its orders one
after the other, on the merchants as the visits before have left them. `Sweep` is that and nothing
else, and `Fifo` shows that a pass of the system is such a sweep. What a sweep claims of an account
is added to the watermark in the order of the visits (`Sweep.covers_of_exec`). So, as long as no
claim is negative, what has fallen short of an order falls short of a later one that is not smaller
(`Sweep.paid_of_later`), and what pays for an order is left over after the claims before
(`Sweep.left_over_of_paid`).
-/

namespace Gateway

open Foundations Foundations.Decimal

/-- What a visit makes of its order. -/
def Visit.order (o : MerchantOrder) : Visit → MerchantOrder
  | .expired o' => o'
  | .unpaid => o
  | .paid o' _ _ => o'

/-- What it makes of the copies of the merchants. -/
def Visit.merchants (ms : MerchantId → Option Merchant) : Visit → MerchantId → Option Merchant
  | .paid _ (some m) _ => Function.update ms m.id ((ms m.id).map fun _ => m)
  | _ => ms

/-- The order is recorded as paid on Solana. -/
def MerchantOrder.PaidOnSolana (o : MerchantOrder) : Prop :=
  o.status = .paid ∧ o.paidChain = some .solana

instance (o : MerchantOrder) : Decidable o.PaidOnSolana :=
  inferInstanceAs (Decidable (_ ∧ _))

/-- What the paid ones among some orders have claimed of an account, one after the other. -/
def claimsOf (orders : List MerchantOrder) (k : MerchantId × Asset) : List ℚ :=
  ((orders.filter fun o => o.status = .paid).flatMap MerchantOrder.claimed).filterMap fun x =>
    if x.1 = k then some x.2 else none

theorem claimsOf_append (l l' : List MerchantOrder) (k : MerchantId × Asset) :
    claimsOf (l ++ l') k = claimsOf l k ++ claimsOf l' k := by
  simp [claimsOf]

theorem claimsOf_unpaid {o : MerchantOrder} (h : o.status ≠ .paid) (k : MerchantId × Asset) :
    claimsOf [o] k = [] := by
  simp [claimsOf, h]

/-- A paid order claims what its confirmation does. -/
theorem claimsOf_paid {o : MerchantOrder} {m m' : Option Merchant} {o' : MerchantOrder}
    {c : Confirmation} (hc : Confirms o m o' m' c) (k : MerchantId × Asset) :
    claimsOf [o'] k = (c.claim.elim [] fun cl => if cl.account = k then [cl.amount] else []) := by
  have hfilter : ([o'].filter fun o => o.status = .paid) = [o'] := by
    rw [List.filter_cons_of_pos (by simp [hc.paid]), List.filter_nil]
  rw [claimsOf, hfilter, List.flatMap_singleton, hc.claimed_eq]
  cases c.claim with
  | none => rfl
  | some cl =>
    simp only [Option.toList_some, List.map_cons, List.map_nil, claimEntry, List.filterMap_cons,
      List.filterMap_nil, Option.elim_some]
    split_ifs <;> rfl

/-- What the paid ones among some orders have claimed in an asset behind an address, whoever their
merchants are. -/
def claimsAt (orders : List MerchantOrder) (address : Option String) (b : Asset) : List ℚ :=
  ((orders.filter fun o => o.status = .paid ∧ o.solanaAddress = address).flatMap
    MerchantOrder.claimed).filterMap fun x => if x.1.2 = b then some x.2 else none

/-- The claim of an order is one on its merchant's account. -/
theorem account_of_claimed {o : MerchantOrder} {x : (MerchantId × Asset) × ℚ} (hx : x ∈ o.claimed) :
    o.paidChain = some .solana ∧ x.1.1 = o.merchantId := by
  unfold MerchantOrder.claimed at hx
  split at hx
  · rename_i hchain _ _
    obtain rfl := List.mem_singleton.mp hx
    exact ⟨hchain, rfl⟩
  · cases hx

/-- When the orders that have been paid behind an address are one merchant's, that merchant's claims
contain those behind the address. -/
theorem claimsAt_sublist {orders : List MerchantOrder} {address : Option String} {k : MerchantId}
    (h : ∀ o ∈ orders, o.PaidOnSolana → o.solanaAddress = address → o.merchantId = k) (b : Asset) :
    (claimsAt orders address b).Sublist (claimsOf orders (k, b)) := by
  induction orders with
  | nil => exact List.Sublist.refl _
  | cons o orders ih =>
    have ih := ih fun o' ho' => h o' (List.mem_cons_of_mem _ ho')
    have hcons : ∀ address, claimsAt (o :: orders) address b =
        claimsAt [o] address b ++ claimsAt orders address b := by
      intro address
      rw [claimsAt, claimsAt, claimsAt, ← List.filterMap_append, ← List.flatMap_append,
        ← List.filter_append, List.singleton_append]
    rw [hcons, ← List.singleton_append (l := orders), claimsOf_append]
    refine List.Sublist.append ?_ ih
    by_cases hat : o.status = .paid ∧ o.solanaAddress = address
    · have hsame : claimsAt [o] address b = claimsOf [o] (k, b) := by
        have hat' : ([o].filter fun o => o.status = .paid ∧ o.solanaAddress = address) = [o] := by
          rw [List.filter_cons_of_pos (by simpa using hat), List.filter_nil]
        have hpaid : ([o].filter fun o => o.status = .paid) = [o] := by
          rw [List.filter_cons_of_pos (by simpa using hat.1), List.filter_nil]
        rw [claimsAt, claimsOf, hat', hpaid, List.flatMap_singleton]
        refine List.filterMap_congr fun x hx => ?_
        obtain ⟨hchain, hid⟩ := account_of_claimed hx
        have hk := h o List.mem_cons_self ⟨hat.1, hchain⟩ hat.2
        simp only [Prod.ext_iff, hid, hk, true_and]
      rw [hsame]
    · have hnone : claimsAt [o] address b = [] := by
        have hat' : ([o].filter fun o => o.status = .paid ∧ o.solanaAddress = address) = [] := by
          rw [List.filter_cons_of_neg (by simpa using hat), List.filter_nil]
        rw [claimsAt, hat']
        rfl
      rw [hnone]
      exact List.nil_sublist _

/-- Sums of amounts that are not negative are exact, as long as they end with digits to spare. -/
theorem eq_sum_of_foldlM_add {l : List ℚ} (hl : ∀ x ∈ l, Scaled 10 x ∧ 0 ≤ x) {t y : ℚ}
    (ht : Scaled 10 t) (hlow : -10 ^ 18 < t) (h : l.foldlM Context.default.add t = some y)
    (hy : y < 10 ^ 18) : y = t + l.sum := by
  induction l generalizing t with
  | nil =>
    cases h
    simp
  | cons x l ih =>
    rw [List.foldlM_cons] at h
    obtain ⟨u, hu, h⟩ := Option.bind_eq_some_iff.mp h
    obtain ⟨hx, hx0⟩ := hl x (by simp)
    have hle : u ≤ y := Context.le_foldlM_add (fun x hx => (hl x (by simp [hx])).2)
      (Context.representable_add hu) h
    obtain ⟨-, hround⟩ := Context.finish_eq_some.mp hu
    have hlt : t + x < 10 ^ 18 := by
      by_contra hge
      have hrep : Context.default.Representable (10 ^ 18) :=
        representable_of_scaled (s := 0) (by norm_num) ⟨10 ^ 18, by norm_num⟩ (by norm_num)
      have := Context.le_round hrep (not_lt.mp hge)
      linarith
    have hexact : u = t + x := by
      rw [← hround]
      refine Context.round_of_representable (representable_of_scaled (s := 10) (by norm_num)
        (ht.add hx) ?_)
      rw [abs_lt]
      constructor <;> norm_num <;> linarith
    subst hexact
    rw [ih (fun x hx => hl x (by simp [hx])) (ht.add hx) (by linarith) h, List.sum_cons, add_assoc]

/-! ## Single visits -/

section Visits

variable {now : Timestamp} {a : Answers} {o : MerchantOrder} {v : Visit}

theorem evm_of_findPayment_solana {m : Option Merchant} {sm : SolanaMatch}
    (h : findPayment a o m = some (some (.solana sm))) : a.evm = some none := by
  unfold findPayment at h
  split at h
  · cases h
  · cases h
  · cases h
  · assumption

/-- Both payment checks have found nothing for an order that is still pending after its visit. -/
theorem unpaid_of_visit {m : Merchant} (h : visitOrder now a o (some m) = some v)
    (hpending : (v.order o).status = .pending) :
    now < o.expiresAt ∧ a.evm = some none ∧
      checkSolanaPayment a.solana o.solanaAddress o.amountUsd.value m.consumed = some none := by
  rcases visitOrder_cases h with rfl | rfl | ⟨o', m', c, rfl, hc⟩
  · cases hpending
  · unfold visitOrder at h
    split_ifs at h with hexp
    · cases h
    · refine ⟨not_le.mp hexp, ?_⟩
      have hfind : findPayment a o (some m) = some none := by
        cases hfind : findPayment a o (some m) with
        | none =>
          rw [hfind] at h
          cases h
        | some found =>
          cases found with
          | none => rfl
          | some payment =>
            rw [hfind] at h
            cases h
      unfold findPayment at hfind
      split at hfind
      · cases hfind
      · cases hfind
      · rename_i hm
        cases hm
      · rename_i hevm hm
        cases hm
        obtain ⟨r, hr, hnone⟩ := Option.map_eq_some_iff.mp hfind
        exact ⟨hevm, by rw [hr, Option.map_eq_none_iff.mp hnone]⟩
  · exact absurd (hc.paid.symm.trans hpending) (by decide)

/-- An order that is paid on Solana has been found so by the Solana check. -/
theorem match_of_visit {m : Option Merchant} (h : visitOrder now a o m = some v)
    (hpending : o.status = .pending) (hpaid : (v.order o).PaidOnSolana) :
    now < o.expiresAt ∧ a.evm = some none ∧
      ∃ m₀ sm, m = some m₀ ∧ (v.order o).paidAsset = some sm.asset ∧
        checkSolanaPayment a.solana o.solanaAddress o.amountUsd.value m₀.consumed =
          some (some sm) := by
  rcases visitOrder_cases h with rfl | rfl | ⟨o', m', c, rfl, -⟩
  · cases hpaid.1
  · exact absurd (hpending.symm.trans hpaid.1) (by decide)
  · obtain ⟨hexp, payment, hfind, hconfirm⟩ := confirm_of_visit h
    have hmark : o'.paidChain = some payment.chain ∧ o'.paidAsset = some payment.asset := by
      cases m with
      | none =>
        cases hconfirm
        exact ⟨rfl, rfl⟩
      | some m =>
        simp only [confirm, Visit.paid.injEq] at hconfirm
        obtain ⟨rfl, -⟩ := hconfirm
        split_ifs <;> exact ⟨rfl, rfl⟩
    cases payment with
    | evm em =>
      have hchain := hmark.1.symm.trans hpaid.2
      cases hchain
    | solana sm =>
      obtain ⟨m₀, hm, hcheck⟩ := findPayment_solana hfind
      exact ⟨not_le.mp hexp, evm_of_findPayment_solana hfind, m₀, sm, hm, hmark.2, hcheck⟩

end Visits

/-! ## Steady balances -/

/-- The accounts behind an address show the same entries to every query. No query is made for an
order that has expired, has no address, or is paid on an EVM chain. -/
def SteadyAnswers (now : Timestamp) (entries : String → Asset → List Json)
    (x : MerchantOrder × Answers) : Prop :=
  now < x.1.expiresAt → x.2.evm = some none → x.1.solanaAddress.getD "" ≠ "" →
    ∃ listed : Asset → List Json,
      (∀ b, (listed b).Perm (entries (x.1.solanaAddress.getD "") b)) ∧
        ∀ y ∈ solanaStablecoinMints, entriesOf (x.2.solana y.1) = some (listed y.2)

/-- One of the balances behind the address of the order is left over for it: with these claims on
top of the watermark, it does not fall short of the amount. -/
def LeftOver (entries : String → Asset → List Json) (o : MerchantOrder) (b : Asset) (consumed : ℚ)
    (claims : List ℚ) : Prop :=
  ∃ mark, claims.foldlM Context.default.add consumed = some mark ∧
    ∃ ui ∈ entries (o.solanaAddress.getD "") b, ∃ balance, ui.decimal? = some balance ∧
      fallsShort balance mark o.amountUsd.value = some false

/-- The same, with the rounding of the code left out. -/
def ExactlyLeftOver (entries : String → Asset → List Json) (o : MerchantOrder) (b : Asset)
    (consumed : ℚ) (claims : List ℚ) : Prop :=
  ∃ ui ∈ entries (o.solanaAddress.getD "") b, ∃ balance, ui.number? = some balance ∧
    consumed + claims.sum + o.amountUsd.value * minPaymentFraction ≤ balance

section Steady

variable {now : Timestamp} {entries : String → Asset → List Json} {x : MerchantOrder × Answers}
  {v : Visit} (hsteady : SteadyAnswers now entries x) (hpending : x.1.status = .pending)

include hsteady

/-- After the visit of an order that stays pending, every balance falls short of it. -/
theorem short_of_pending {m : Merchant} (h : visitOrder now x.2 x.1 (some m) = some v)
    (hleft : (v.order x.1).status = .pending) (ha : x.1.solanaAddress.getD "" ≠ "") {b : Asset}
    {ui : Json} (hui : ui ∈ entries (x.1.solanaAddress.getD "") b) {balance : Value}
    (hb : ui.decimal? = some balance) :
    fallsShort balance (m.consumed b) x.1.amountUsd.value = some true := by
  obtain ⟨hexp, hevm, hcheck⟩ := unpaid_of_visit h hleft
  obtain ⟨listed, hperm, hlist⟩ := hsteady hexp hevm ha
  exact short_of_unpaid ha hcheck hlist ((hperm b).mem_iff.mpr hui) hb

include hpending

/-- An order that is paid on Solana has been satisfied by one of the balances. -/
theorem satisfied_of_paid {m : Option Merchant} (h : visitOrder now x.2 x.1 m = some v)
    (hpaid : (v.order x.1).PaidOnSolana) : x.1.solanaAddress.getD "" ≠ "" ∧
      ∃ m₀ b, m = some m₀ ∧ (v.order x.1).paidAsset = some b ∧
        ∃ ui ∈ entries (x.1.solanaAddress.getD "") b, ∃ balance, ui.decimal? = some balance ∧
          fallsShort balance (m₀.consumed b) x.1.amountUsd.value = some false := by
  obtain ⟨hexp, hevm, m₀, sm, hm, hasset, hcheck⟩ := match_of_visit h hpending hpaid
  have ha : x.1.solanaAddress.getD "" ≠ "" := by
    intro hempty
    rw [checkSolanaPayment, if_pos hempty] at hcheck
    cases hcheck
  obtain ⟨listed, hperm, hlist⟩ := hsteady hexp hevm ha
  have hui := (hperm sm.asset).mem_iff.mp (entry_of_match hcheck hlist)
  obtain ⟨-, -, balance, hb, henough⟩ := checkSolanaPayment_eq_match hcheck
  exact ⟨ha, m₀, sm.asset, hm, hasset, sm.uiAmount, hui, balance, hb, henough⟩

end Steady

/-! ## Sweeps -/

/-- The orders as their visits have left them. -/
def ordersAfter (visits : List (MerchantOrder × Visit)) : List MerchantOrder :=
  visits.map fun x => x.2.order x.1

/-- The copies of the merchants, and the visits so far with their orders. -/
structure Sweep where
  merchants : MerchantId → Option Merchant
  visits : List (MerchantOrder × Visit)

namespace Sweep

/-- The visit of an order, with the answers to it. -/
def visit (now : Timestamp) (w : Sweep) (x : MerchantOrder × Answers) : Option Sweep :=
  (visitOrder now x.2 x.1 (w.merchants x.1.merchantId)).map fun v =>
    { merchants := v.merchants w.merchants, visits := w.visits ++ [(x.1, v)] }

/-- The watermark of an account. -/
def mark (w : Sweep) (k : MerchantId × Asset) : ℚ :=
  (w.merchants k.1).elim 0 fun m => m.consumed k.2

theorem mark_of_merchants {w : Sweep} {k : MerchantId} {m : Merchant} (h : w.merchants k = some m)
    (b : Asset) : w.mark (k, b) = m.consumed b := by
  rw [mark, h]
  rfl

/-- Merchants stand at their identifiers, and their watermarks are numbers of the context. -/
structure Ok (w : Sweep) : Prop where
  id_eq : ∀ k m, w.merchants k = some m → m.id = k
  representable : ∀ k, Context.default.Representable (w.mark k)

variable {now : Timestamp} {w w' : Sweep} {o : MerchantOrder} {a : Answers}

theorem merchants_of_confirms {o' : MerchantOrder} {m' : Option Merchant} {c : Confirmation}
    (hok : w.Ok) (hc : Confirms o (w.merchants o.merchantId) o' m' c) :
    (Visit.paid o' m' c).merchants w.merchants =
      Function.update w.merchants o.merchantId m' := by
  have hmer := hc.merchant_eq
  cases hm : w.merchants o.merchantId with
  | none =>
    rw [hm] at hmer
    obtain rfl := Option.map_eq_none_iff.mp hmer
    have hself := Function.update_eq_self o.merchantId w.merchants
    rw [hm] at hself
    rw [hself]
    rfl
  | some m₀ =>
    rw [hm] at hmer
    obtain ⟨m₁, rfl, hid⟩ := Option.map_eq_some_iff.mp hmer
    rw [hok.id_eq _ _ hm] at hid
    simp only [Visit.merchants, hid, hm, Option.map_some]

/-- **What a visit does to a sweep**: a watermark stays as it is, or the order claims its amount of
it. -/
theorem visit_cases (hok : w.Ok) (hpending : o.status = .pending)
    (h : w.visit now (o, a) = some w') :
    ∃ v, visitOrder now a o (w.merchants o.merchantId) = some v ∧
      w'.visits = w.visits ++ [(o, v)] ∧
      (∀ k, (w'.merchants k).isSome = (w.merchants k).isSome) ∧
      (∀ k m, w'.merchants k = some m → m.id = k) ∧
      ∀ k, (w'.mark k = w.mark k ∧ claimsOf [v.order o] k = []) ∨
        (o.merchantId = k.1 ∧
          Context.default.add (w.mark k) o.amountUsd.value = some (w'.mark k) ∧
          claimsOf [v.order o] k = [o.amountUsd.value]) := by
  obtain ⟨v, hv, rfl⟩ := Option.map_eq_some_iff.mp h
  refine ⟨v, hv, rfl, ?_⟩
  rcases visitOrder_cases hv with rfl | rfl | ⟨o', m', c, rfl, hc⟩
  · exact ⟨fun _ => rfl, hok.id_eq, fun k => .inl ⟨rfl, claimsOf_unpaid (by simp [Visit.order]) k⟩⟩
  · exact ⟨fun _ => rfl, hok.id_eq,
      fun k => .inl ⟨rfl, claimsOf_unpaid (by simp [Visit.order, hpending]) k⟩⟩
  · have hmerchants := merchants_of_confirms hok hc
    have hmer := hc.merchant_eq
    refine ⟨fun k => ?_, fun k m hm => ?_, fun k => ?_⟩
    · by_cases hk : k = o.merchantId
      · subst hk
        simp only [hmerchants, Function.update_self]
        rw [← Option.isSome_map, hmer, Option.isSome_map]
      · simp only [hmerchants, Function.update_of_ne hk]
    · simp only [hmerchants] at hm
      by_cases hk : k = o.merchantId
      · subst hk
        rw [Function.update_self] at hm
        rw [hm, Option.map_some] at hmer
        obtain ⟨m₀, hm₀, hid⟩ := Option.map_eq_some_iff.mp hmer.symm
        rw [← hid, hok.id_eq _ _ hm₀]
      · rw [Function.update_of_ne hk] at hm
        exact hok.id_eq k m hm
    · have hclaims := claimsOf_paid hc k
      by_cases hcl : ∃ cl ∈ c.claim, cl.account = k
      · obtain ⟨cl, hcl, rfl⟩ := hcl
        obtain ⟨b, m₀, m₁, hm₀, rfl, -, hacc, hamt, hadd, -⟩ := hc.claim cl hcl
        rw [Option.mem_def] at hcl
        refine .inr ⟨by rw [hacc], ?_, ?_⟩
        · simp only [mark, hmerchants, hacc, Function.update_self, hm₀]
          rw [← hamt]
          exact hadd
        · rw [Visit.order, hclaims, hcl]
          simp [hamt]
      · refine .inl ⟨?_, ?_⟩
        · simp only [mark, hmerchants]
          by_cases hk : k.1 = o.merchantId
          · have hun := hc.unclaimed k.2 fun cl hcl' he => hcl ⟨cl, hcl', he.trans (by rw [← hk])⟩
            rw [hk, Function.update_self]
            cases hm : w.merchants o.merchantId with
            | none =>
              rw [hm] at hun
              rw [Option.map_eq_none_iff.mp hun]
            | some m₀ =>
              rw [hm] at hun
              obtain ⟨m₁, rfl, heq⟩ := Option.map_eq_some_iff.mp hun
              exact heq
          · rw [Function.update_of_ne hk]
        · rw [Visit.order, hclaims]
          cases hclaim : c.claim with
          | none => rfl
          | some cl => exact if_neg fun he => hcl ⟨cl, hclaim, he⟩

theorem Ok.visit (hok : w.Ok) (hpending : o.status = .pending)
    (h : w.visit now (o, a) = some w') : w'.Ok := by
  obtain ⟨v, -, -, -, hid, hmark⟩ := visit_cases hok hpending h
  refine ⟨hid, fun k => ?_⟩
  rcases hmark k with ⟨hsame, -⟩ | ⟨-, hadd, -⟩
  · rw [hsame]
    exact hok.representable k
  · exact Context.representable_add hadd

/-- What a sweep over some orders does: the claims of its orders are added to the watermarks, one
after the other. -/
structure Covers (w w' : Sweep) (xs : List (MerchantOrder × Answers))
    (vs : List (MerchantOrder × Visit)) : Prop where
  ok : w'.Ok
  isSome : ∀ k, (w'.merchants k).isSome = (w.merchants k).isSome
  visits : w'.visits = w.visits ++ vs
  orders : vs.map Prod.fst = xs.map Prod.fst
  claims : ∀ k, ∀ q ∈ claimsOf (ordersAfter vs) k,
    ∃ x ∈ xs, x.1.merchantId = k.1 ∧ x.1.amountUsd.value = q
  mark : ∀ k, (claimsOf (ordersAfter vs) k).foldlM Context.default.add (w.mark k) =
    some (w'.mark k)

theorem Covers.nil (hok : w.Ok) : Covers w w [] [] where
  ok := hok
  isSome := fun _ => rfl
  visits := (List.append_nil _).symm
  orders := rfl
  claims := by simp [ordersAfter, claimsOf]
  mark := by simp [ordersAfter, claimsOf]

/-- One more visit before the others. -/
theorem Covers.cons {xs : List (MerchantOrder × Answers)} {vs : List (MerchantOrder × Visit)}
    {w'' : Sweep} (hok : w.Ok) (hpending : o.status = .pending)
    (h : w.visit now (o, a) = some w') (hrest : Covers w' w'' xs vs) :
    ∃ v, visitOrder now a o (w.merchants o.merchantId) = some v ∧
      Covers w w'' ((o, a) :: xs) ((o, v) :: vs) := by
  obtain ⟨v, hv, hvisits, hsome, -, hmark⟩ := visit_cases hok hpending h
  have hclaims : ∀ k, claimsOf (ordersAfter ((o, v) :: vs)) k =
      claimsOf [v.order o] k ++ claimsOf (ordersAfter vs) k := by
    intro k
    rw [← claimsOf_append]
    rfl
  refine ⟨v, hv, hrest.ok, fun k => (hrest.isSome k).trans (hsome k), ?_, ?_, ?_, ?_⟩
  · rw [hrest.visits, hvisits, List.append_assoc, List.singleton_append]
  · rw [List.map_cons, List.map_cons, hrest.orders]
  · intro k q hq
    rw [hclaims, List.mem_append] at hq
    rcases hq with hq | hq
    · rcases hmark k with ⟨-, hnone⟩ | ⟨hid, -, hone⟩
      · rw [hnone] at hq
        cases hq
      · rw [hone, List.mem_singleton] at hq
        exact ⟨(o, a), List.mem_cons_self, hid, hq.symm⟩
    · obtain ⟨x, hx, hq⟩ := hrest.claims k q hq
      exact ⟨x, List.mem_cons_of_mem _ hx, hq⟩
  · intro k
    rw [hclaims, List.foldlM_append]
    rcases hmark k with ⟨hsame, hnone⟩ | ⟨-, hadd, hone⟩
    · rw [hnone, List.foldlM_nil, ← hsame]
      exact hrest.mark k
    · rw [hone, List.foldlM_cons, hadd]
      exact hrest.mark k

/-- **The run of a sweep.** -/
theorem covers_of_exec {xs : List (MerchantOrder × Answers)} (hok : w.Ok)
    (hpending : ∀ x ∈ xs, x.1.status = .pending) (h : exec (visit now) w xs = some w') :
    ∃ vs, Covers w w' xs vs := by
  induction xs generalizing w with
  | nil =>
    cases h
    exact ⟨[], .nil hok⟩
  | cons x xs ih =>
    obtain ⟨o, a⟩ := x
    obtain ⟨w₁, h₁, h⟩ := Option.bind_eq_some_iff.mp h
    have ho := hpending (o, a) List.mem_cons_self
    obtain ⟨vs, hrest⟩ := ih (hok.visit ho h₁)
      (fun x hx => hpending x (List.mem_cons_of_mem _ hx)) h
    obtain ⟨v, -, hcovers⟩ := Covers.cons hok ho h₁ hrest
    exact ⟨_, hcovers⟩

/-- Over orders that are not negative the watermark of their merchant does not go down. -/
theorem Covers.mark_le {xs : List (MerchantOrder × Answers)} {vs : List (MerchantOrder × Visit)}
    (hok : w.Ok) (h : Covers w w' xs vs) {k : MerchantId × Asset}
    (hnonneg : ∀ x ∈ xs, x.1.merchantId = k.1 → 0 ≤ x.1.amountUsd.value) :
    w.mark k ≤ w'.mark k := by
  refine Context.le_foldlM_add (fun q hq => ?_) (hok.representable k) (h.mark k)
  obtain ⟨x, hx, hid, rfl⟩ := h.claims k q hq
  exact hnonneg x hx hid

section Steady

variable {entries : String → Asset → List Json} {pre mid post : List (MerchantOrder × Answers)}

/-- **No inversion**: a sweep that pays an order on Solana leaves no earlier order of the merchant
pending that has the same address and is not larger. -/
theorem paid_of_later {older newer : MerchantOrder × Answers} (hok : w.Ok)
    (hpending : ∀ x ∈ pre ++ older :: (mid ++ newer :: post), x.1.status = .pending)
    (hsteady : ∀ x ∈ pre ++ older :: (mid ++ newer :: post), SteadyAnswers now entries x)
    (hnonneg : ∀ x ∈ older :: mid, x.1.merchantId = older.1.merchantId → 0 ≤ x.1.amountUsd.value)
    (hmerchant : older.1.merchantId = newer.1.merchantId)
    (haddress : older.1.solanaAddress = newer.1.solanaAddress)
    (hle : older.1.amountUsd.value ≤ newer.1.amountUsd.value)
    (h : exec (visit now) w (pre ++ older :: (mid ++ newer :: post)) = some w') :
    ∃ v v', (older.1, v) ∈ w'.visits ∧ (newer.1, v') ∈ w'.visits ∧
      ((v'.order newer.1).PaidOnSolana → (v.order older.1).status ≠ .pending) := by
  rw [exec_append] at h
  obtain ⟨w₁, h₁, h⟩ := Option.bind_eq_some_iff.mp h
  obtain ⟨w₂, h₂, h⟩ := Option.bind_eq_some_iff.mp h
  rw [exec_append] at h
  obtain ⟨w₃, h₃, h⟩ := Option.bind_eq_some_iff.mp h
  obtain ⟨w₄, h₄, h₅⟩ := Option.bind_eq_some_iff.mp h
  have holder := hpending older (by simp)
  have hnewer := hpending newer (by simp)
  obtain ⟨_, hpre⟩ := covers_of_exec hok (fun x hx => hpending x (by simp [hx])) h₁
  have hok₂ := hpre.ok.visit holder h₂
  obtain ⟨_, hmid⟩ := covers_of_exec hok₂ (fun x hx => hpending x (by simp [hx])) h₃
  have hok₄ := hmid.ok.visit hnewer h₄
  obtain ⟨_, hpost⟩ := covers_of_exec hok₄ (fun x hx => hpending x (by simp [hx])) h₅
  obtain ⟨v, hv, hupto⟩ := Covers.cons hpre.ok holder h₂ hmid
  obtain ⟨v', hv', hrest⟩ := Covers.cons hmid.ok hnewer h₄ hpost
  refine ⟨v, v', ?_, ?_, fun hpaid hleft => ?_⟩
  · simp [hrest.visits, hupto.visits]
  · simp [hrest.visits]
  · obtain ⟨ha, m', b, hm', -, ui, hui, balance, hb, henough⟩ :=
      satisfied_of_paid (hsteady newer (by simp)) hnewer hv' hpaid
    rw [← hmerchant] at hm'
    have hsome := hupto.isSome older.1.merchantId
    rw [hm', Option.isSome_some] at hsome
    obtain ⟨m, hm⟩ := Option.isSome_iff_exists.mp hsome.symm
    rw [hm] at hv
    rw [← haddress] at ha hui
    have hshort := short_of_pending (hsteady older (by simp)) hv hleft ha hui hb
    have hmark := hupto.mark_le (k := (older.1.merchantId, b)) hpre.ok hnonneg
    rw [mark_of_merchants hm, mark_of_merchants hm'] at hmark
    exact not_enough_of_fallsShort hshort hmark hle henough

/-- The sweep up to an order, its visit, and the sweep from there on. -/
theorem covers_around {x : MerchantOrder × Answers} (hok : w.Ok)
    (hpending : ∀ y ∈ pre ++ x :: post, y.1.status = .pending)
    (h : exec (visit now) w (pre ++ x :: post) = some w') :
    ∃ w₁ vs v vs', visitOrder now x.2 x.1 (w₁.merchants x.1.merchantId) = some v ∧
      Covers w w₁ pre vs ∧ Covers w₁ w' (x :: post) ((x.1, v) :: vs') := by
  rw [exec_append] at h
  obtain ⟨w₁, h₁, h⟩ := Option.bind_eq_some_iff.mp h
  obtain ⟨w₂, h₂, h₃⟩ := Option.bind_eq_some_iff.mp h
  have hx := hpending x (by simp)
  obtain ⟨vs, hpre⟩ := covers_of_exec hok (fun y hy => hpending y (by simp [hy])) h₁
  have hok₂ := hpre.ok.visit hx h₂
  obtain ⟨vs', hpost⟩ := covers_of_exec hok₂ (fun y hy => hpending y (by simp [hy])) h₃
  obtain ⟨v, hv, hrest⟩ := Covers.cons hpre.ok hx h₂ hpost
  exact ⟨w₁, vs, v, vs', hv, hpre, hrest⟩

variable {x : MerchantOrder × Answers} {w₁ : Sweep} {vs vs' : List (MerchantOrder × Visit)}
  {v : Visit}

/-- **What pays for an order is left over** after the claims of the sweep so far. -/
theorem left_over_of_paid (hpre : Covers w w₁ pre vs) (hpending : x.1.status = .pending)
    (hsteady : SteadyAnswers now entries x)
    (hv : visitOrder now x.2 x.1 (w₁.merchants x.1.merchantId) = some v)
    (hpaid : (v.order x.1).PaidOnSolana) : (w.merchants x.1.merchantId).isSome ∧
      ∃ b, (v.order x.1).paidAsset = some b ∧
        LeftOver entries x.1 b (w.mark (x.1.merchantId, b))
          (claimsOf (ordersAfter vs) (x.1.merchantId, b)) := by
  obtain ⟨-, m, b, hm, hasset, henough⟩ := satisfied_of_paid hsteady hpending hv hpaid
  have hsome := hpre.isSome x.1.merchantId
  rw [hm, Option.isSome_some] at hsome
  rw [← mark_of_merchants hm] at henough
  exact ⟨hsome.symm, b, hasset, w₁.mark (x.1.merchantId, b), hpre.mark _, henough⟩

/-- When no amount of the merchant is negative and the watermarks stay in range, it is so
exactly. -/
theorem exactly_left_over {b : Asset} (hok : w.Ok) (hpre : Covers w w₁ pre vs)
    (hrest : Covers w₁ w' (x :: post) vs')
    (hnonneg : ∀ y ∈ pre ++ x :: post, y.1.merchantId = x.1.merchantId →
      0 ≤ y.1.amountUsd.value)
    (hpos : 0 < x.1.amountUsd.value)
    (hscaled : Scaled 10 (w.mark (x.1.merchantId, b))) (h0 : 0 ≤ w.mark (x.1.merchantId, b))
    (hlt : w'.mark (x.1.merchantId, b) < 10 ^ 18)
    (hnumbers : ∀ ui ∈ entries (x.1.solanaAddress.getD "") b, ui.number?.isSome)
    (h : LeftOver entries x.1 b (w.mark (x.1.merchantId, b))
      (claimsOf (ordersAfter vs) (x.1.merchantId, b))) :
    ExactlyLeftOver entries x.1 b (w.mark (x.1.merchantId, b))
      (claimsOf (ordersAfter vs) (x.1.merchantId, b)) := by
  have hupto := hpre.mark_le (k := (x.1.merchantId, b)) hok
    (fun y hy => hnonneg y (List.mem_append_left _ hy))
  have hfrom := hrest.mark_le (k := (x.1.merchantId, b)) hpre.ok
    (fun y hy => hnonneg y (List.mem_append_right _ hy))
  have hclaims : ∀ q ∈ claimsOf (ordersAfter vs) (x.1.merchantId, b), Scaled 10 q ∧ 0 ≤ q := by
    intro q hq
    obtain ⟨y, hy, hid, rfl⟩ := hpre.claims _ q hq
    exact ⟨(Scaled.numeric _).mono (by norm_num), hnonneg y (List.mem_append_left _ hy) hid⟩
  have hsum := eq_sum_of_foldlM_add hclaims hscaled (by linarith) (hpre.mark _)
    (hfrom.trans_lt hlt)
  obtain ⟨mark, hmark, ui, hui, balance, hb, henough⟩ := h
  obtain rfl : mark = w₁.mark (x.1.merchantId, b) :=
    Option.some.inj (hmark.symm.trans (hpre.mark _))
  obtain ⟨q, hq⟩ := Option.isSome_iff_exists.mp (hnumbers ui hui)
  rw [Json.decimal?_of_number hq] at hb
  obtain rfl := Option.some.inj hb
  have hscaled₁ : Scaled 19 (w₁.mark (x.1.merchantId, b)) := by
    rw [hsum]
    exact (hscaled.add (Scaled.sum fun q hq => (hclaims q hq).1)).mono (by norm_num)
  have hle := fallsShort_finite (.of_column hpos) hq hscaled₁ (h0.trans hupto) henough
  refine ⟨ui, hui, q, hq, ?_⟩
  rw [← hsum]
  simpa using hle

end Steady

end Sweep

end Gateway
