import Mathlib.Algebra.Order.BigOperators.Group.List
import Gateway.Settlement.EvmCheck

/-!
# The verdict on several token accounts

An address may have several token accounts of one mint. `checkSolanaPayment` compares each of them
alone with the amount, after it has taken off the whole watermark of the asset, and never adds them
up. Its verdict on replies that report balances is therefore the first asset of which one account
suffices (`solana_verdict`). It is that of the whole balance exactly when the first asset whose
accounts suffice together has an account that suffices alone (`solana_verdict_iff`).
-/

namespace Gateway

open Foundations Foundations.Decimal

/-! ## Sufficient balances -/

/-- The first asset, in the order of the table, that passes a test. -/
def firstAsset (p : Asset → Bool) : Option Asset := (solanaStablecoinMints.map Prod.snd).find? p

/-- One of the asset's accounts reaches 99% of the amount, after what has been consumed. -/
def sufficesAlone (balances : Asset → List ℚ) (consumed : Asset → ℚ) (expected : ℚ) (a : Asset) :
    Bool :=
  (balances a).any fun b => expected * minPaymentFraction ≤ b - consumed a

/-- The asset's accounts together do. -/
def sufficesTogether (balances : Asset → List ℚ) (consumed : Asset → ℚ) (expected : ℚ)
    (a : Asset) : Bool :=
  expected * minPaymentFraction ≤ (balances a).sum - consumed a

theorem sufficesTogether_of_alone {balances : Asset → List ℚ} {consumed : Asset → ℚ} {expected : ℚ}
    {a : Asset} (h0 : ∀ b ∈ balances a, 0 ≤ b) (h : sufficesAlone balances consumed expected a) :
    sufficesTogether balances consumed expected a := by
  obtain ⟨b, hb, hle⟩ := List.any_eq_true.mp h
  have hsum : b ≤ (balances a).sum := List.single_le_sum h0 b hb
  simp only [sufficesTogether, decide_eq_true_eq] at hle ⊢
  linarith

/-! ## The column of the watermarks -/

section Column

variable {c : Numeric 24 10} {x : Numeric 10 2}

theorem Numeric.value_nonneg {precision scale : ℕ} {c : Numeric precision scale}
    (h : 0 ≤ c.unscaled) : 0 ≤ c.value :=
  div_nonneg (by exact_mod_cast h) (by positivity)

theorem watermark_lt (c : Numeric 24 10) : |c.value| < 10 ^ 14 := c.abs_value_lt (by norm_num)

theorem amount_lt (x : Numeric 10 2) : |x.value| < 10 ^ 8 := x.abs_value_lt (by norm_num)

/-- The new watermark is exact. -/
theorem add_column (c : Numeric 24 10) (x : Numeric 10 2) :
    Context.default.add c.value x.value = some (c.value + x.value) := by
  have hc := watermark_lt c
  have hx := amount_lt x
  have hsum : |c.value + x.value| < 10 ^ 15 := by
    calc |c.value + x.value| ≤ |c.value| + |x.value| := abs_add_le _ _
      _ < 10 ^ 14 + 10 ^ 8 := add_lt_add hc hx
      _ < 10 ^ 15 := by norm_num
  have hscaled : Scaled 10 (c.value + x.value) :=
    (Scaled.numeric c).add ((Scaled.numeric x).mono (by norm_num))
  refine Context.finish_of_representable (representable_of_scaled (by norm_num) hscaled
    (hsum.trans (by norm_num))) ?_
  exact hsum.trans_le (pow_le_pow_right₀ (by norm_num) (by decide))

end Column

/-! ## The verdict -/

section Verdict

variable {replies : String → Option Json} {address : String} {consumed : Asset → Numeric 24 10}
  {balances : Asset → List ℚ} {x : Numeric 10 2}

/-- The accounts of one mint are judged one by one. -/
theorem verdict_of_accounts {asset : Asset} {c : Numeric 24 10} (hx : 0 < x.unscaled)
    (hc : 0 ≤ c.unscaled) {accounts : List Json} {bs : List ℚ}
    (hr : List.Forall₂ (fun account b => ∃ ui, uiAmountOf account = some ui ∧
      ui.number? = some b) accounts bs)
    (hbs : ∀ b ∈ bs, 0 ≤ b ∧ b ≤ 10 ^ Context.default.emax) :
    ∃ r, firstMatch (checkAccount asset c.value x.value) accounts = some r ∧
      r.map SolanaMatch.asset =
        if bs.any fun b => x.value * minPaymentFraction ≤ b - c.value then some asset
        else none := by
  induction hr with
  | nil => exact ⟨none, rfl, rfl⟩
  | cons hd tl ih =>
    rename_i account b accounts bs
    obtain ⟨ui, hui, hb⟩ := hd
    obtain ⟨hb0, hblt⟩ := hbs b List.mem_cons_self
    have hacc : checkAccount asset c.value x.value account = _ :=
      checkAccount_of_number (isAmount_of_pos hx) ((Scaled.numeric c).mono (by norm_num))
        (Numeric.value_nonneg hc)
      (le_emax ((le_abs_self _).trans_lt ((watermark_lt c).trans (by norm_num)))) (add_column c x)
      hui hb hb0 hblt
    rw [List.any_cons]
    by_cases hshort : b < c.value + x.value * minPaymentFraction
    · obtain ⟨r, hr, hasset⟩ := ih fun b' hb' => hbs b' (.tail _ hb')
      rw [if_pos hshort] at hacc
      have hnot : ¬ x.value * minPaymentFraction ≤ b - c.value := by linarith
      refine ⟨r, by rw [firstMatch_cons_of_none hacc, hr], ?_⟩
      rw [hasset, decide_eq_false hnot, Bool.false_or]
    · rw [if_neg hshort] at hacc
      have hle : x.value * minPaymentFraction ≤ b - c.value := by linarith
      refine ⟨_, firstMatch_cons_of_match hacc _, ?_⟩
      rw [decide_eq_true hle, Bool.true_or, if_pos rfl]
      rfl

/-- **The verdict on replies that report balances**: the first asset of which one account suffices
alone. -/
theorem solana_verdict (ha : address ≠ "") (hx : 0 < x.unscaled)
    (hc : ∀ a, 0 ≤ (consumed a).unscaled)
    (hr : ∀ y ∈ solanaStablecoinMints, ReportsBalances (replies y.1) (balances y.2))
    (hbs : ∀ a, ∀ b ∈ balances a, 0 ≤ b ∧ b ≤ 10 ^ Context.default.emax) :
    ∃ r, checkSolanaPayment replies (some address) x.value (fun a => (consumed a).value) = some r ∧
      r.map SolanaMatch.asset =
        firstAsset (sufficesAlone balances (fun a => (consumed a).value) x.value) := by
  have hmint : ∀ y ∈ solanaStablecoinMints,
      ∃ r, checkMint replies (fun a => (consumed a).value) x.value y = some r ∧
        r.map SolanaMatch.asset =
          if sufficesAlone balances (fun a => (consumed a).value) x.value y.2 then some y.2
          else none := by
    rintro ⟨mint, asset⟩ hy
    obtain ⟨value, accounts, hvalue, hiter, hall⟩ := hr _ hy
    simp only [checkMint, hvalue, hiter, Option.bind_some]
    exact verdict_of_accounts hx (hc asset) hall (hbs asset)
  obtain ⟨r, hfirst, hasset⟩ := firstMatch_map_eq_find hmint
  refine ⟨r, ?_, ?_⟩
  · rw [checkSolanaPayment, Option.getD_some, if_neg ha, hfirst]
  · rw [hasset, firstAsset, List.find?_map]
    rfl

/-- **When the verdict is that of the whole balance**: `checkSolanaPayment` matches the first asset
whose accounts together reach 99% of the amount, and nothing if there is none, if and only if that
asset has an account which does so alone. -/
theorem solana_verdict_iff (ha : address ≠ "") (hx : 0 < x.unscaled)
    (hc : ∀ a, 0 ≤ (consumed a).unscaled)
    (hr : ∀ y ∈ solanaStablecoinMints, ReportsBalances (replies y.1) (balances y.2))
    (hbs : ∀ a, ∀ b ∈ balances a, 0 ≤ b ∧ b ≤ 10 ^ Context.default.emax) :
    (∃ r, checkSolanaPayment replies (some address) x.value (fun a => (consumed a).value) =
        some r ∧
      r.map SolanaMatch.asset =
        firstAsset (sufficesTogether balances (fun a => (consumed a).value) x.value)) ↔
    ∀ a, firstAsset (sufficesTogether balances (fun a => (consumed a).value) x.value) = some a →
      sufficesAlone balances (fun a => (consumed a).value) x.value a := by
  have htogether : ∀ a, sufficesAlone balances (fun a => (consumed a).value) x.value a →
      sufficesTogether balances (fun a => (consumed a).value) x.value a :=
    fun a h => sufficesTogether_of_alone (fun b hb => (hbs a b hb).1) h
  obtain ⟨r, hcheck, hasset⟩ := solana_verdict ha hx hc hr hbs
  rw [hcheck, firstAsset, ← find?_eq_iff_of_imp htogether]
  constructor
  · rintro ⟨r', hr', htotal⟩
    obtain rfl := Option.some.inj hr'
    rw [← htotal, hasset, firstAsset]
  · intro heq
    exact ⟨r, rfl, by rw [hasset, ← heq, firstAsset]⟩

end Verdict

/-! ## Two accounts -/

/-- A reply with one token account for each of these balances. -/
def accountsReply (uiAmounts : List Json) : Json :=
  .obj [("result", .obj [("value", .arr (uiAmounts.map fun uiAmount =>
    .obj [("account", .obj [("data", .obj [("parsed", .obj [("info", .obj
      [("tokenAmount", .obj [("uiAmount", uiAmount)])])])])])]))])]

/-- An address with token accounts of USDC only. -/
def usdcReplies (uiAmounts : List Json) (mint : String) : Option Json :=
  if mint = "EPjFWdd5AufqSSqeM2qN1xzybapC8G4wEGGkZwyTDt1v" then some (accountsReply uiAmounts)
  else some (accountsReply [])

/-- Their balances. -/
def usdcBalances (balances : List ℚ) : Asset → List ℚ
  | .usdc => balances
  | .usdt => []

/-- Nothing has been consumed. -/
def nothingConsumed : Asset → Numeric 24 10 := fun _ => ⟨0, by decide⟩

theorem solana_verdict_iff_twelve_and_twenty :
    ∃ r, checkSolanaPayment (usdcReplies [.int 12, .int 20]) (some "So1")
        (⟨2000, by decide⟩ : Numeric 10 2).value (fun a => (nothingConsumed a).value) = some r ∧
      r.map SolanaMatch.asset = some .usdc := by
  have htotal : firstAsset (sufficesTogether (usdcBalances [12, 20])
      (fun a => (nothingConsumed a).value) (⟨2000, by decide⟩ : Numeric 10 2).value) =
        some .usdc := by decide +kernel
  have hreports : ∀ y ∈ solanaStablecoinMints,
      ReportsBalances (usdcReplies [.int 12, .int 20] y.1) (usdcBalances [12, 20] y.2) := by
    decide +kernel
  rw [← htotal]
  refine (solana_verdict_iff (by decide) (by decide) (fun _ => le_rfl) hreports ?_).mpr ?_
  · intro a b hb
    cases a with
    | usdc =>
      simp only [usdcBalances, List.mem_cons, List.not_mem_nil, or_false] at hb
      rcases hb with rfl | rfl
      · exact ⟨by norm_num, le_emax (by norm_num)⟩
      · exact ⟨by norm_num, le_emax (by norm_num)⟩
    | usdt => cases hb
  · rw [htotal]
    rintro a ha
    obtain rfl := Option.some.inj ha
    decide +kernel

/-- Ten and ten USDC do not pay an order of twenty. -/
theorem split_balance_missed :
    (∀ y ∈ solanaStablecoinMints,
      ReportsBalances (usdcReplies [.int 10, .int 10] y.1) (usdcBalances [10, 10] y.2)) ∧
    (checkSolanaPayment (usdcReplies [.int 10, .int 10]) (some "So1")
      (⟨2000, by decide⟩ : Numeric 10 2).value (fun a => (nothingConsumed a).value)).map
        (Option.map SolanaMatch.asset) = some none ∧
    firstAsset (sufficesTogether (usdcBalances [10, 10]) (fun a => (nothingConsumed a).value)
      (⟨2000, by decide⟩ : Numeric 10 2).value) = some .usdc := by
  refine ⟨by decide +kernel, by decide +kernel, by decide +kernel⟩

end Gateway
