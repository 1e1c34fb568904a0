import Gateway.Settlement.Consensus
import Gateway.Settlement.SolanaCheck

/-!
# The EVM balance check

`checkEvmPayment` asks a consensus round for the balance of an order's address in each accepted
token of each chain, and accepts the first balance that reaches 99% of the amount. The rounds are
given by a function, which says what the validator of a chain decided about a contract.

A balance has up to 78 digits and its quotient by the token's unit is rounded to 28, but the
verdict is that of exact arithmetic: the match is the first balance in the order of the tables that
suffices (`evm_verdict`).
-/

namespace Gateway

open Foundations Foundations.Decimal

/-! ## The code -/

/-- What `check_evm_payment` returns for an address that has been paid. -/
structure EvmMatch where
  chain : EvmChain
  asset : Asset
  amount : ℚ
  deriving DecidableEq

/-- The name of a chain in the tables; `_CHAIN_DISPLAY_NAME` maps it to the one that is shown. -/
def EvmChain.key : EvmChain → String
  | .ethereum => "ethereum"
  | .bsc => "binance-smart-chain"
  | .polygon => "polygon-pos"

/-- `_EVM_RPCS`, in the order of the table. -/
def evmRpcs : List (EvmChain × String) :=
  [(.bsc, "https://bsc-rpc.publicnode.com"), (.ethereum, "https://ethereum-rpc.publicnode.com"),
    (.polygon, "https://polygon-bor-rpc.publicnode.com")]

/-- `_STABLECOIN_CONTRACTS`, in the order of the table. -/
def stablecoinContracts : EvmChain → List (String × Asset)
  | .ethereum =>
    [("0xdac17f958d2ee523a2206206994597c13d831ec7", .usdt),
      ("0xa0b86991c6218b36c1d19d4a2e9eb0ce3606eb48", .usdc)]
  | .bsc =>
    [("0x55d398326f99059ff775485246999027b3197955", .usdt),
      ("0x8ac76a51cc950d9822d68b83fe1ad97b32cd580d", .usdc)]
  | .polygon =>
    [("0xc2132d05d31c914a87c6611c10748aeb04b58e8f", .usdt),
      ("0x3c499c542cef5e3811e1192ce70d8cc03d5c3359", .usdc)]

/-- `_EVM_STABLECOIN_DECIMALS`. -/
def evmStablecoinDecimals : EvmChain → ℕ
  | .bsc => 18
  | .ethereum => 6
  | .polygon => 6

/-- `_CHAIN_IDS`. -/
def chainIds : EvmChain → ℤ
  | .ethereum => 1
  | .bsc => 56
  | .polygon => 137

/-- The validator of a chain; an error is that of its constructor. -/
def evmValidator (settings : Settings) (chain : EvmChain) (rpcUrl : String) :
    Except String RpcConsensusValidator :=
  RpcConsensusValidator.create (buildEvmProvidersForChain settings chain.key rpcUrl)
    (chainIds chain) none

/-- What a validator decides about the balance of an address in a contract; `none` when it
raises. -/
abbrev ConsensusReads := RpcConsensusValidator → (contract holder : String) → Option ConsensusResult

/-- The body of the loop over the contracts of a chain; the outer option says whether it raised. -/
def checkContract (reads : ConsensusReads) (evmAddress : String) (amountUsd : ℚ) (chain : EvmChain)
    (validator : RpcConsensusValidator) : String × Asset → Option (Option EvmMatch)
  | (contract, asset) =>
    (reads validator contract evmAddress).bind fun consensus =>
      if consensus.reached then
        -- `Decimal(None)` raises
        consensus.value.bind fun rawBalance =>
          if rawBalance = 0 then some none
          else
            (Context.default.div rawBalance (10 ^ evmStablecoinDecimals chain)).bind fun amount =>
              (Context.default.mul amountUsd minPaymentFraction).bind fun threshold =>
                if amount < threshold then some none else some (some { chain, asset, amount })
      else some none

/-- The body of the loop over the chains. -/
def checkChain (settings : Settings) (reads : ConsensusReads) (evmAddress : String)
    (amountUsd : ℚ) : EvmChain × String → Option (Option EvmMatch)
  | (chain, rpcUrl) =>
    match evmValidator settings chain rpcUrl with
    | .error _ => none
    | .ok validator =>
      firstMatch (checkContract reads evmAddress amountUsd chain validator)
        (stablecoinContracts chain)

/-- `check_evm_payment`: the outer option says whether it raised. -/
def checkEvmPayment (settings : Settings) (reads : ConsensusReads) (evmAddress : String)
    (amountUsd : ℚ) : Option (Option EvmMatch) :=
  firstMatch (checkChain settings reads evmAddress amountUsd) evmRpcs

/-! ## The tokens in the order of the tables -/

/-- An accepted token. -/
structure EvmToken where
  chain : EvmChain
  rpcUrl : String
  contract : String
  asset : Asset
  deriving DecidableEq

/-- The accepted tokens, in the order in which they are asked for. -/
def evmTokens : List EvmToken :=
  evmRpcs.flatMap fun x => (stablecoinContracts x.1).map fun y => ⟨x.1, x.2, y.1, y.2⟩

/-- Every chain of the table has a validator. -/
theorem evmValidator_ok (settings : Settings) (chain : EvmChain) (rpcUrl : String) :
    ∃ v, evmValidator settings chain rpcUrl = .ok v := by
  have hpool : 2 ≤ (buildEvmProvidersForChain settings chain.key rpcUrl).length := by
    cases chain
    · exact two_le_length_buildEvmProvidersForChain settings rpcUrl rfl
    · exact two_le_length_buildEvmProvidersForChain settings rpcUrl rfl
    · exact two_le_length_buildEvmProvidersForChain settings rpcUrl rfl
  exact RpcConsensusValidator.create_default _ hpool

/-- The check of one token. -/
def checkToken (settings : Settings) (reads : ConsensusReads) (evmAddress : String)
    (amountUsd : ℚ) (t : EvmToken) : Option (Option EvmMatch) :=
  match evmValidator settings t.chain t.rpcUrl with
  | .error _ => none
  | .ok validator =>
    checkContract reads evmAddress amountUsd t.chain validator (t.contract, t.asset)

/-- The two nested loops are one loop over the tokens. -/
theorem checkEvmPayment_eq (settings : Settings) (reads : ConsensusReads) (evmAddress : String)
    (amountUsd : ℚ) : checkEvmPayment settings reads evmAddress amountUsd =
      firstMatch (checkToken settings reads evmAddress amountUsd) evmTokens := by
  rw [evmTokens, firstMatch_flatMap, checkEvmPayment]
  congr 1
  funext x
  obtain ⟨chain, rpcUrl⟩ := x
  obtain ⟨v, hv⟩ := evmValidator_ok settings chain rpcUrl
  rw [firstMatch_map]
  simp only [checkChain, checkToken, hv]

/-! ## The verdict -/

/-- The quotient of a raw balance by the unit of the token. -/
def EvmToken.quotient (t : EvmToken) (raw : ℤ) : ℚ := raw / 10 ^ evmStablecoinDecimals t.chain

theorem evmStablecoinDecimals_le (chain : EvmChain) : evmStablecoinDecimals chain ≤ 18 := by
  cases chain <;> decide

namespace EvmToken

variable {t : EvmToken} {raw : ℤ}

theorem quotient_scaled : Scaled 19 (t.quotient raw) :=
  Scaled.mono (Nat.le_succ_of_le (evmStablecoinDecimals_le t.chain)) ⟨raw, rfl⟩

theorem abs_quotient_le (h0 : 0 ≤ raw) (h : raw < 2 ^ 256) : |t.quotient raw| ≤ 10 ^ (78 : ℤ) := by
  have hraw : (0 : ℚ) ≤ raw := by exact_mod_cast h0
  have hlt : (raw : ℚ) < 2 ^ 256 := by exact_mod_cast h
  have hpos : (0 : ℚ) < 10 ^ evmStablecoinDecimals t.chain := by positivity
  have hone : (1 : ℚ) ≤ 10 ^ evmStablecoinDecimals t.chain := one_le_pow₀ (by norm_num)
  rw [quotient, abs_of_nonneg (div_nonneg hraw hpos.le), div_le_iff₀ hpos]
  calc (raw : ℚ) ≤ 10 ^ (78 : ℤ) * 1 := by norm_num; linarith
    _ ≤ 10 ^ (78 : ℤ) * 10 ^ evmStablecoinDecimals t.chain := by gcongr

/-- The division never overflows. -/
theorem div_eq (h0 : 0 ≤ raw) (h : raw < 2 ^ 256) :
    Context.default.div raw (10 ^ evmStablecoinDecimals t.chain) =
      some (Context.default.round (t.quotient raw)) := by
  have hround : |Context.default.round (t.quotient raw)| ≤ 10 ^ (78 : ℤ) :=
    Context.abs_round_le (by decide) (abs_quotient_le h0 h)
  refine Context.finish_eq_some.mpr ⟨hround.trans_lt ?_, rfl⟩
  exact zpow_lt_zpow_right₀ (by norm_num) (by decide)

/-- A quotient of at most 28 digits is exact. -/
theorem round_quotient (h0 : 0 ≤ raw) (h : raw < 10 ^ 28) :
    Context.default.round (t.quotient raw) = t.quotient raw := by
  refine Context.round_of_representable ⟨raw, -evmStablecoinDecimals t.chain, ?_, ?_, ?_⟩
  · rw [abs_of_nonneg h0]
    exact h
  · have hd := evmStablecoinDecimals_le t.chain
    simp only [Context.etiny, Context.default]
    omega
  · rw [quotient, zpow_neg, zpow_natCast, div_eq_mul_inv]

end EvmToken

/-- Rounding does not change on which side of the threshold a number of at most nineteen digits
after the point lies. -/
theorem IsAmount.round_lt_iff_of_scaled {e x : ℚ} (he : IsAmount e) (hx : Scaled 19 x) :
    Context.default.round x < e * minPaymentFraction ↔ x < e * minPaymentFraction := by
  constructor
  · intro h
    by_contra hn
    exact absurd h (not_lt.mpr (Context.le_round he.threshold_representable (not_lt.mp hn)))
  · exact he.round_lt_of_scaled hx

/-- What the rounds decide about an address: a balance of the token, or nothing. -/
def ReadsBalances (settings : Settings) (reads : ConsensusReads) (evmAddress : String)
    (balance : EvmToken → Option ℤ) : Prop :=
  ∀ t ∈ evmTokens, ∀ v, evmValidator settings t.chain t.rpcUrl = .ok v →
    ∃ consensus, reads v t.contract evmAddress = some consensus ∧
      match balance t with
      | none => consensus.reached = false
      | some raw => consensus.reached = true ∧ consensus.value = some raw ∧ 0 ≤ raw ∧ raw < 2 ^ 256

/-- Is the balance positive and at least 99% of an amount in cents? -/
def EvmToken.covers (balance : EvmToken → Option ℤ) (cents : ℤ) (t : EvmToken) : Bool :=
  (balance t).any fun raw =>
    0 < raw && 99 * cents * 10 ^ evmStablecoinDecimals t.chain ≤ 10 ^ 4 * raw

/-- The match for a balance. -/
def EvmToken.payment (balance : EvmToken → Option ℤ) (t : EvmToken) : EvmMatch where
  chain := t.chain
  asset := t.asset
  amount :=
    let raw := (balance t).getD 0
    if raw < 10 ^ 28 then t.quotient raw else Context.default.round (t.quotient raw)

/-- An amount of whole cents. -/
theorem isAmount_of_pos {x : Numeric 10 2} (hx : 0 < x.unscaled) : IsAmount x.value := by
  have hpos : (0 : ℚ) < x.unscaled := by exact_mod_cast hx
  refine .of_column ?_
  unfold Numeric.value
  positivity

/-- The threshold in whole numbers. -/
theorem EvmToken.threshold_le_iff {t : EvmToken} {x : Numeric 10 2} {raw : ℤ} :
    x.value * minPaymentFraction ≤ t.quotient raw ↔
      99 * x.unscaled * 10 ^ evmStablecoinDecimals t.chain ≤ 10 ^ 4 * raw := by
  have hpos : (0 : ℚ) < 10 ^ evmStablecoinDecimals t.chain := by positivity
  have hcast : (99 * x.unscaled * 10 ^ evmStablecoinDecimals t.chain ≤ 10 ^ 4 * raw) ↔
      (99 * x.unscaled * 10 ^ evmStablecoinDecimals t.chain : ℚ) ≤ 10 ^ 4 * raw := by
    exact_mod_cast Iff.rfl
  rw [hcast, quotient, le_div_iff₀ hpos, Numeric.value, minPaymentFraction]
  constructor <;> intro h <;> linarith

section Verdict

variable {settings : Settings} {reads : ConsensusReads} {evmAddress : String}
  {balance : EvmToken → Option ℤ} {x : Numeric 10 2}

/-- The verdict on one token is that of exact arithmetic. -/
theorem checkToken_eq (hx : 0 < x.unscaled)
    (h : ReadsBalances settings reads evmAddress balance) {t : EvmToken} (ht : t ∈ evmTokens) :
    checkToken settings reads evmAddress x.value t =
      some (if t.covers balance x.unscaled then some (t.payment balance) else none) := by
  have he := isAmount_of_pos hx
  obtain ⟨v, hv⟩ := evmValidator_ok settings t.chain t.rpcUrl
  obtain ⟨consensus, hreads, hbalance⟩ := h t ht v hv
  simp only [checkToken, hv, checkContract, hreads, Option.bind_some]
  cases hb : balance t with
  | none =>
    simp only [hb] at hbalance
    simp [hbalance, EvmToken.covers, hb]
  | some raw =>
    simp only [hb] at hbalance
    obtain ⟨hreached, hvalue, h0, hlt⟩ := hbalance
    simp only [hreached, if_true, hvalue, Option.bind_some, EvmToken.div_eq h0 hlt, he.mul_fraction,
      EvmToken.covers, hb, Option.any_some]
    rcases h0.eq_or_lt with rfl | hpos
    · simp
    · have hshort : Context.default.round (t.quotient raw) < x.value * minPaymentFraction ↔
          ¬ 99 * x.unscaled * 10 ^ evmStablecoinDecimals t.chain ≤ 10 ^ 4 * raw := by
        rw [he.round_lt_iff_of_scaled EvmToken.quotient_scaled, ← EvmToken.threshold_le_iff, not_le]
      have hamount : (if raw < 10 ^ 28 then t.quotient raw
          else Context.default.round (t.quotient raw)) =
          Context.default.round (t.quotient raw) := by
        split_ifs with hsmall
        · exact (EvmToken.round_quotient h0 hsmall).symm
        · rfl
      by_cases hcovers : 99 * x.unscaled * 10 ^ evmStablecoinDecimals t.chain ≤ 10 ^ 4 * raw
      · have hnot : ¬ Context.default.round (t.quotient raw) < x.value * minPaymentFraction :=
          fun hlt => hshort.mp hlt hcovers
        simp only [hpos.ne', hpos, hcovers, hnot, if_false, if_true, decide_true, Bool.and_self,
          EvmToken.payment, hb, Option.getD_some, hamount]
      · simp only [hpos.ne', hpos, hcovers, hshort.mpr hcovers, if_false, if_true, decide_true,
          decide_false, Bool.and_false, Bool.false_eq_true]

/-- **The verdict of the EVM check is exact**: it returns the first token, in the order of the
tables, whose agreed balance is positive and at least 99% of the amount; the amount it reports is
that balance, exactly up to 28 digits and rounded to them beyond, and reaches the threshold. -/
theorem evm_verdict (hx : 0 < x.unscaled) (h : ReadsBalances settings reads evmAddress balance) :
    checkEvmPayment settings reads evmAddress x.value =
        some ((evmTokens.find? (EvmToken.covers balance x.unscaled)).map
          (EvmToken.payment balance)) ∧
      ∀ m, checkEvmPayment settings reads evmAddress x.value = some (some m) →
        x.value * minPaymentFraction ≤ m.amount := by
  have hverdict : checkEvmPayment settings reads evmAddress x.value =
      some ((evmTokens.find? (EvmToken.covers balance x.unscaled)).map
        (EvmToken.payment balance)) := by
    rw [checkEvmPayment_eq]
    exact firstMatch_eq_find fun t ht => checkToken_eq hx h ht
  refine ⟨hverdict, fun m hm => ?_⟩
  rw [hverdict] at hm
  obtain ⟨t, hfind, rfl⟩ := Option.map_eq_some_iff.mp (Option.some.inj hm)
  have hcovers := List.find?_some hfind
  unfold EvmToken.covers at hcovers
  cases hb : balance t with
  | none => simp [hb] at hcovers
  | some raw =>
    simp only [hb, Option.any_some, Bool.and_eq_true, decide_eq_true_eq] at hcovers
    have hexact := EvmToken.threshold_le_iff.mpr hcovers.2
    simp only [EvmToken.payment, hb, Option.getD_some]
    split_ifs
    · exact hexact
    · exact Context.le_round (isAmount_of_pos hx).threshold_representable hexact

end Verdict

/-- Five USDT on Ethereum, nothing in the other tokens, and no quorum for one of them. -/
def sampleBalance (contract : String) : Option ℤ :=
  if contract = "0xdac17f958d2ee523a2206206994597c13d831ec7" then some 5000000
  else if contract = "0x55d398326f99059ff775485246999027b3197955" then none
  else some 0

/-- Rounds that decide so. -/
def sampleReads : ConsensusReads := fun v contract _ =>
  some
    { value := sampleBalance contract
      reached := (sampleBalance contract).isSome
      agreeingProviders := v.names
      disagreeing := []
      unavailable := []
      responded := v.providers.length
      totalProviders := v.providers.length }

theorem sampleReads_balances (evmAddress : String) :
    ReadsBalances {} sampleReads evmAddress fun t => sampleBalance t.contract := by
  intro t _ v _
  refine ⟨_, rfl, ?_⟩
  by_cases hfive : t.contract = "0xdac17f958d2ee523a2206206994597c13d831ec7"
  · simp [sampleBalance, hfive]
  · by_cases hnone : t.contract = "0x55d398326f99059ff775485246999027b3197955"
    · simp [sampleBalance, hnone]
    · simp [sampleBalance, hfive, hnone]

theorem evm_verdict_five_usdt :
    checkEvmPayment {} sampleReads "0x44" (⟨500, by decide⟩ : Numeric 10 2).value =
      some (some { chain := .ethereum, asset := .usdt, amount := 5 }) := by
  rw [(evm_verdict (by decide) (sampleReads_balances "0x44")).1]
  decide +kernel

end Gateway
