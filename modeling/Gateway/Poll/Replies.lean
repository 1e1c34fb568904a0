import Gateway.Poll.Visit
import Gateway.Settlement.SolanaVerdict

/-!
# Replies that abort a pass

`checkSolanaPayment` catches what goes wrong above the list of token accounts. It walks the accounts
themselves outside the `try`, and an exception there ends the whole pass. Up to the first account
that satisfies the order, every account must have the shape of a token account and a balance that
can be compared with the amount; on such replies, and on no others, the check returns, and returns a
finite balance (`solana_replies_iff`).
-/

namespace Gateway

open Foundations Foundations.Decimal

/-! ## Readable replies -/

/-- A balance entry that can be compared with the amount: none at all, minus infinity, or a finite
number not too far from the watermark. -/
def Comparable (consumed : ℚ) (uiAmount : Json) : Prop :=
  uiAmount.isNull ∨ uiAmount.decimal? = some (.infinity true) ∨
    ∃ q, uiAmount.decimal? = some (.finite q) ∧ (Context.default.sub q consumed).isSome

/-- An account that can be walked down to such an entry. -/
def ReadableAccount (consumed : ℚ) (account : Json) : Prop :=
  ∃ uiAmount, uiAmountOf account = some uiAmount ∧ Comparable consumed uiAmount

/-- An account whose finite balance suffices. -/
def Satisfies (consumed expected : ℚ) (account : Json) : Prop :=
  ∃ uiAmount q available, uiAmountOf account = some uiAmount ∧
    uiAmount.decimal? = some (.finite q) ∧ Context.default.sub q consumed = some available ∧
    expected * minPaymentFraction ≤ available

/-- A reply that is missing, malformed above the accounts, or readable up to the first account that
suffices. -/
def ReadableReply (consumed expected : ℚ) (reply : Option Json) : Prop :=
  ∀ value ∈ reply.bind accountsOf, ∃ accounts, value.iter? = some accounts ∧
    UpToFirst (Satisfies consumed expected) (ReadableAccount consumed) accounts

/-- A reply with an account that suffices. -/
def SatisfyingReply (consumed expected : ℚ) (reply : Option Json) : Prop :=
  ∃ value accounts, reply.bind accountsOf = some value ∧ value.iter? = some accounts ∧
    ∃ account ∈ accounts, Satisfies consumed expected account

/-- An account that suffices is readable. -/
theorem Satisfies.readable {consumed expected : ℚ} {account : Json}
    (h : Satisfies consumed expected account) : ReadableAccount consumed account := by
  obtain ⟨uiAmount, q, available, hui, hq, hsub, -⟩ := h
  exact ⟨uiAmount, hui, .inr (.inr ⟨q, hq, by rw [hsub]; rfl⟩)⟩

/-- Replies that are readable as far as they are read. -/
def ReadableReplies (replies : String → Option Json) (solanaAddress : Option String)
    (expected : ℚ) (consumed : Asset → ℚ) : Prop :=
  solanaAddress.getD "" = "" ∨
    UpToFirst (fun y => SatisfyingReply (consumed y.2) expected (replies y.1))
      (fun y => ReadableReply (consumed y.2) expected (replies y.1)) solanaStablecoinMints

/-- A match of an account whose balance is a finite number. -/
def SolanaMatch.Finite (m : SolanaMatch) : Prop := ∃ q, m.uiAmount.decimal? = some (.finite q)

/-! ## One account -/

section Account

variable {c : Numeric 24 10} {x : Numeric 10 2} {asset : Asset} {account : Json}

theorem mul_column (x : Numeric 10 2) :
    Context.default.mul x.value minPaymentFraction = some (x.value * minPaymentFraction) := by
  have hx := amount_lt x
  have hlt : |x.value * minPaymentFraction| < 10 ^ 8 := by
    rw [abs_mul, minPaymentFraction, abs_of_pos (by norm_num : (0 : ℚ) < 99 / 100)]
    linarith [abs_nonneg x.value]
  have hscaled : Scaled 4 (x.value * minPaymentFraction) := by
    obtain ⟨k, hk⟩ := Scaled.numeric x
    exact ⟨k * 99, by rw [hk, minPaymentFraction]; push_cast; ring⟩
  refine Context.finish_of_representable (representable_of_scaled (by norm_num) hscaled
    (hlt.trans (by norm_num))) ?_
  exact hlt.trans_le (pow_le_pow_right₀ (by norm_num) (by decide))

/-- What becomes of a balance of each kind. -/
theorem fallsShort_column (balance : Value) (c : ℚ) (x : Numeric 10 2) :
    fallsShort balance c x.value =
      match balance with
      | .finite q =>
        (Context.default.sub q c).map fun d => decide (d < x.value * minPaymentFraction)
      | .infinity negative => some negative
      | .nan _ => none := by
  unfold fallsShort
  rw [mul_column]
  cases balance with
  | finite q =>
    cases hsub : Context.default.sub q c <;> simp [Value.subFinite, hsub, Value.ltFinite]
  | infinity negative => rfl
  | nan signaling => cases signaling <;> rfl

/-- What becomes of an account whose balance entry is read. -/
theorem checkAccount_of_uiAmount {uiAmount : Json} (h : uiAmountOf account = some uiAmount)
    (c : Numeric 24 10) (x : Numeric 10 2) :
    checkAccount asset c.value x.value account =
      if uiAmount.isNull then some none
      else uiAmount.decimal?.bind fun balance =>
        (fallsShort balance c.value x.value).map fun short =>
        if short then none
        else some { asset, amount := x.value, newConsumed := c.value + x.value, uiAmount } := by
  unfold checkAccount
  rw [h, Option.bind_some, add_column]
  split_ifs
  · rfl
  · congr 1
    funext balance
    cases fallsShort balance c.value x.value with
    | none => rfl
    | some short => cases short <;> rfl

/-- **The check of an account** returns on the readable ones, and there it returns a match exactly
when the account satisfies the order. -/
theorem checkAccount_spec : (Returns SolanaMatch.Finite
    (checkAccount asset c.value x.value account) ↔ ReadableAccount c.value account) ∧
    (ReadableAccount c.value account →
      ((∃ m, checkAccount asset c.value x.value account = some (some m)) ↔
        Satisfies c.value x.value account)) := by
  rcases hui : uiAmountOf account with _ | uiAmount
  · simp [checkAccount, hui, Returns, ReadableAccount]
  rw [checkAccount_of_uiAmount hui]
  by_cases hnull : uiAmount.isNull
  · cases uiAmount with
    | null =>
      simp [Returns, ReadableAccount, Comparable, Satisfies, hui, Json.isNull, Json.decimal?]
    | _ => cases hnull
  rcases hbalance : uiAmount.decimal? with _ | balance
  · simp [Returns, ReadableAccount, Comparable, hui, hnull, hbalance]
  simp only [if_neg hnull, Option.bind_some, fallsShort_column]
  cases balance with
  | finite q =>
    rcases hsub : Context.default.sub q c.value with _ | d
    · simp [Returns, ReadableAccount, Comparable, hui, hnull, hbalance, hsub]
    · by_cases hshort : d < x.value * minPaymentFraction
      · simp [Returns, ReadableAccount, Comparable, Satisfies, hui, hbalance, hsub, hshort]
      · simp [Returns, ReadableAccount, Comparable, Satisfies, SolanaMatch.Finite, hui, hbalance,
          hsub, hshort, not_lt.mp hshort]
  | infinity negative =>
    cases negative with
    | true => simp [Returns, ReadableAccount, Comparable, Satisfies, hui, hbalance]
    | false =>
      simp [Returns, ReadableAccount, Comparable, SolanaMatch.Finite, hui, hnull, hbalance]
  | nan signaling => simp [Returns, ReadableAccount, Comparable, hui, hnull, hbalance]

end Account

/-! ## All of them -/

section Replies

variable {replies : String → Option Json} {solanaAddress : Option String}
  {consumed : Asset → Numeric 24 10} {x : Numeric 10 2}

/-- The check of a mint. -/
theorem checkMint_spec (y : String × Asset) :
    (Returns SolanaMatch.Finite (checkMint replies (fun a => (consumed a).value) x.value y) ↔
      ReadableReply (consumed y.2).value x.value (replies y.1)) ∧
    (ReadableReply (consumed y.2).value x.value (replies y.1) →
      ((∃ m, checkMint replies (fun a => (consumed a).value) x.value y = some (some m)) ↔
        SatisfyingReply (consumed y.2).value x.value (replies y.1))) := by
  obtain ⟨mint, asset⟩ := y
  rcases hvalue : (replies mint).bind accountsOf with _ | value
  · have hcheck : checkMint replies (fun a => (consumed a).value) x.value (mint, asset) =
        some none := by
      simp only [checkMint, hvalue]
    simp [hcheck, hvalue, Returns, ReadableReply, SatisfyingReply]
  rcases hiter : value.iter? with _ | accounts
  · have hcheck : checkMint replies (fun a => (consumed a).value) x.value (mint, asset) = none := by
      simp only [checkMint, hvalue, hiter, Option.bind_none]
    simp [hcheck, hvalue, hiter, Returns, ReadableReply]
  have hcheck : checkMint replies (fun a => (consumed a).value) x.value (mint, asset) =
      firstMatch (checkAccount asset (consumed asset).value x.value) accounts := by
    simp only [checkMint, hvalue, hiter, Option.bind_some]
  have hupto : UpToFirst
      (fun a => ∃ m, checkAccount asset (consumed asset).value x.value a = some (some m))
      (fun a => Returns SolanaMatch.Finite (checkAccount asset (consumed asset).value x.value a))
      accounts ↔ UpToFirst (Satisfies (consumed asset).value x.value)
        (ReadableAccount (consumed asset).value) accounts := by
    refine UpToFirst.congr (fun a _ => checkAccount_spec.1) fun a _ ha => ?_
    exact checkAccount_spec.2 (checkAccount_spec.1.mp ha)
  have hreturns : Returns SolanaMatch.Finite
      (firstMatch (checkAccount asset (consumed asset).value x.value) accounts) ↔
        UpToFirst (Satisfies (consumed asset).value x.value)
          (ReadableAccount (consumed asset).value) accounts :=
    returns_firstMatch_iff.trans hupto
  have hreadable : ReadableReply (consumed asset).value x.value (replies mint) ↔
      UpToFirst (Satisfies (consumed asset).value x.value)
        (ReadableAccount (consumed asset).value) accounts := by
    simp [ReadableReply, hvalue, hiter]
  have hsatisfying : SatisfyingReply (consumed asset).value x.value (replies mint) ↔
      ∃ account ∈ accounts, Satisfies (consumed asset).value x.value account := by
    simp [SatisfyingReply, hvalue, hiter]
  rw [hcheck]
  refine ⟨hreturns.trans hreadable.symm, fun h => ?_⟩
  have hret := hreturns.mpr (hreadable.mp h)
  rw [hsatisfying]
  constructor
  · rintro ⟨m, hm⟩
    obtain ⟨account, hmem, hmatch⟩ := firstMatch_sound hm
    obtain ⟨r, hr, hfinite⟩ := hret
    obtain rfl : some m = r := Option.some.inj (hm.symm.trans hr)
    have hfine := checkAccount_spec.1.mp ⟨_, hmatch, hfinite⟩
    exact ⟨account, hmem, (checkAccount_spec.2 hfine).mp ⟨m, hmatch⟩⟩
  · rintro ⟨account, hmem, hs⟩
    exact (firstMatch_match_iff hret).mpr
      ⟨account, hmem, (checkAccount_spec.2 hs.readable).mpr hs⟩

/-- **The check returns exactly on readable replies**, and then on a finite balance. -/
theorem returns_checkSolanaPayment_iff :
    Returns SolanaMatch.Finite
        (checkSolanaPayment replies solanaAddress x.value (fun a => (consumed a).value)) ↔
      ReadableReplies replies solanaAddress x.value (fun a => (consumed a).value) := by
  unfold checkSolanaPayment ReadableReplies
  split_ifs with haddress
  · exact iff_of_true ⟨none, rfl, nofun⟩ (.inl haddress)
  · rw [returns_firstMatch_iff, or_iff_right haddress]
    refine UpToFirst.congr (fun y _ => (checkMint_spec y).1) fun y _ hy => ?_
    exact (checkMint_spec y).2 ((checkMint_spec y).1.mp hy)

/-- A reply without a match is as good as none, as long as the check returns. -/
theorem checkSolanaPayment_without {r : Option SolanaMatch}
    (h : checkSolanaPayment replies solanaAddress x.value (fun a => (consumed a).value) = some r)
    {y : String × Asset} (hy : y ∈ solanaStablecoinMints)
    (hno : ∀ m, checkMint replies (fun a => (consumed a).value) x.value y ≠ some (some m)) :
    checkSolanaPayment (Function.update replies y.1 none) solanaAddress x.value
      (fun a => (consumed a).value) = some r := by
  unfold checkSolanaPayment at h ⊢
  split_ifs at h ⊢
  · exact h
  · refine firstMatch_of_skip h fun z hz => ?_
    by_cases hmint : z.1 = y.1
    · have hzy : z = y := List.inj_on_of_nodup_map (by decide) hz hy hmint
      subst hzy
      refine .inr ⟨?_, hno⟩
      simp only [checkMint, Function.update_self, Option.bind_none]
    · left
      simp only [checkMint, Function.update_of_ne hmint]

/-- **Malformed replies are failed checks exactly when they are readable as far as they are read**:
the check returns, a match has a finite balance, a mint without a match leaves the verdict on the
other one alone, and the pass goes on. -/
theorem solana_replies_iff :
    (∃ r, checkSolanaPayment replies solanaAddress x.value (fun a => (consumed a).value) = some r ∧
      (∀ m ∈ r, m.Finite) ∧
      (∀ y ∈ solanaStablecoinMints,
        (∀ m, checkMint replies (fun a => (consumed a).value) x.value y ≠ some (some m)) →
        checkSolanaPayment (Function.update replies y.1 none) solanaAddress x.value
          (fun a => (consumed a).value) = some r) ∧
      ∀ now a order merchant, a.solana = replies → a.evm.isSome →
        order.solanaAddress = solanaAddress → order.amountUsd = x →
        (∀ asset, merchant.consumed asset = (consumed asset).value) →
        (visitOrder now a order (some merchant)).isSome) ↔
      ReadableReplies replies solanaAddress x.value (fun a => (consumed a).value) := by
  rw [← returns_checkSolanaPayment_iff]
  constructor
  · rintro ⟨r, hr, hfinite, -, -⟩
    exact ⟨r, hr, hfinite⟩
  · rintro ⟨r, hr, hfinite⟩
    refine ⟨r, hr, hfinite, fun y hy hno => checkSolanaPayment_without hr hy hno, ?_⟩
    intro now a order merchant hreplies hevm haddress hamount hconsumed
    have hmerchant : merchant.consumed = fun asset => (consumed asset).value := funext hconsumed
    have hfind : (findPayment a order (some merchant)).isSome := by
      obtain ⟨found, hfound⟩ := Option.isSome_iff_exists.mp hevm
      cases found with
      | some m => simp [findPayment, hfound]
      | none => simp [findPayment, hfound, hreplies, haddress, hamount, hmerchant, hr]
    unfold visitOrder
    split_ifs
    · rfl
    · obtain ⟨found, hfound⟩ := Option.isSome_iff_exists.mp hfind
      rw [hfound]
      cases found <;> rfl

end Replies

/-- An account that is a text, ahead of a mint that has been paid. -/
def textReplies (mint : String) : Option Json :=
  if mint = "EPjFWdd5AufqSSqeM2qN1xzybapC8G4wEGGkZwyTDt1v" then
    some (.obj [("result", .obj [("value", .arr [.str "x"])])])
  else some (accountsReply [.int 20])

/-- The check raises on an account that is a text, although the other mint alone would match, and
it accepts the balance `Infinity`. -/
theorem text_account_raises :
    (checkSolanaPayment textReplies (some "So1") (⟨2000, by decide⟩ : Numeric 10 2).value
      (fun a => (nothingConsumed a).value)).map (Option.map SolanaMatch.asset) = none ∧
    (checkSolanaPayment (Function.update textReplies
        "EPjFWdd5AufqSSqeM2qN1xzybapC8G4wEGGkZwyTDt1v" none) (some "So1")
      (⟨2000, by decide⟩ : Numeric 10 2).value
      (fun a => (nothingConsumed a).value)).map (Option.map SolanaMatch.asset) =
        some (some .usdt) ∧
    (checkSolanaPayment (usdcReplies [.float (.infinity false)]) (some "So1")
      (⟨2000, by decide⟩ : Numeric 10 2).value (fun a => (nothingConsumed a).value)).map
        (Option.map fun m => (m.asset, m.uiAmount.decimal?)) =
          some (some (.usdc, some (.infinity false))) := by
  refine ⟨by decide +kernel, by decide +kernel, by decide +kernel⟩

end Gateway
