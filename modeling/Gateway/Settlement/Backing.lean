import Gateway.Settlement.EvmCheck
import Gateway.Settlement.Spellings

/-!
# The EVM check under faulty providers

A check of an order asks one round of providers after another, and acts on the first balance that
suffices. If in each of its rounds fewer providers are faulty than the quorum has members, then the
check never raises, and what it reports is held: a balance that one of the other providers returned
is at least 99% of the amount (`byzantine_payment`). The other providers need not agree: each may
spell the balance in its own way, and read it at its own moment. If moreover they do return one
balance, and a quorum of them votes for it in one spelling in every round, then the faulty ones
change nothing: the verdict is that of these balances (`byzantine_verdict`). The rounds are those of
one process, in which any others may be in flight.
-/

namespace Gateway

open Foundations

/-! ## Rounds of a check -/

/-- A round of the run, as the validator reads it: fewer of its providers than the quorum are
faulty, and the others return balances that the holder has, as far as they vote. -/
structure HonestRound (es : List RoundEvent) (s : Rounds) (v : RpcConsensusValidator)
    (contract holder : String) (read : Option ConsensusResult) (held : Set ℕ) (r : RoundId)
    (round : ActiveRound) (raws : List (Option String)) (F : Finset ℕ) : Prop where
  active : s.active r = some round
  validator_eq : round.validator = v
  contract_eq : round.contractAddress = contract
  holder_eq : round.holderAddress = holder
  results_eq : round.results = some raws
  read_eq : read = v.ethCallBalanceOf raws
  card_lt : (F.card : ℤ) < v.quorum
  honest : ∀ i ∉ F, ∀ client now, .finish r i client now ∈ es →
    ∀ raw, (round.ask client).raw = some raw → ∃ n ∈ held, decodeVote raw = some (n : ℤ)

/-- The check reads the balance of a token in such a round. -/
def HonestRead (es : List RoundEvent) (s : Rounds) (settings : Settings) (reads : ConsensusReads)
    (evmAddress : String) (held : EvmToken → Set ℕ) (t : EvmToken) : Prop :=
  ∀ v, evmValidator settings t.chain t.rpcUrl = .ok v → ∃ r round raws F,
    HonestRound es s v t.contract evmAddress (reads v t.contract evmAddress) (held t) r round raws F

/-- It does, the providers that are not faulty return one balance, and a quorum of them spells it
alike. -/
def QuorumRead (es : List RoundEvent) (s : Rounds) (settings : Settings) (reads : ConsensusReads)
    (evmAddress : String) (truth : EvmToken → ℕ) (t : EvmToken) : Prop :=
  ∀ v, evmValidator settings t.chain t.rpcUrl = .ok v → ∃ r round raws F,
    HonestRound es s v t.contract evmAddress (reads v t.contract evmAddress) {truth t} r round raws
      F ∧ ∃ raw, v.quorum ≤ (round.voters raw \ F).card

/-- The tokens that a check asks for, up to the first one that it finds paid. -/
def WhileAsked (settings : Settings) (reads : ConsensusReads) (evmAddress : String) (amountUsd : ℚ)
    (P : EvmToken → Prop) : Prop :=
  UpToFirst (fun t => ∃ m, checkToken settings reads evmAddress amountUsd t = some (some m)) P
    evmTokens

/-- The balances, as the check reads them. -/
def trueBalance (truth : EvmToken → ℕ) (t : EvmToken) : Option ℤ :=
  some (truth t : ℤ)

/-- **A round with few faulty providers** does not raise, and decides nothing or a balance that a
provider which is not faulty has returned. -/
theorem HonestRound.decision {es : List RoundEvent} {s : Rounds} {v : RpcConsensusValidator}
    {contract holder : String} {read : Option ConsensusResult} {held : Set ℕ} {r : RoundId}
    {round : ActiveRound} {raws : List (Option String)} {F : Finset ℕ}
    (h : HonestRound es s v contract holder read held r round raws F)
    (hexec : exec Rounds.step Rounds.initial es = some s) : ∃ result, read = some result ∧
      ((result.reached = false ∧ ∀ raw, ((round.voters raw).card : ℤ) < v.quorum) ∨
        ∃ n ∈ held, result.reached = true ∧ result.value = some (n : ℤ) ∧ (n : ℤ) < 2 ^ 256) := by
  obtain ⟨hactive, rfl, -, -, hresults, rfl, hF, honest⟩ := h
  have hcard := ActiveRound.card_voters hresults
  rcases RpcConsensusValidator.ethCallBalanceOf_cases (ActiveRound.results_eq_some hresults).1 with
    ⟨hno, result, hresult, hreached, -⟩ | ⟨raw, hleads, hquorum, hend⟩
  · refine ⟨result, hresult, .inl ⟨hreached, fun raw => ?_⟩⟩
    rw [hcard]
    exact hno raw
  · -- one of the quorum is not faulty
    obtain ⟨i, hi, hiF⟩ : ∃ i ∈ round.voters raw, i ∉ F := by
      apply Finset.exists_mem_notMem_of_card_lt_card
      rw [hcard]
      omega
    obtain ⟨client, now, hmem, hraw⟩ :=
      Rounds.vote_of_exec hexec hactive (ActiveRound.mem_voters.mp hi).2
    obtain ⟨n, hn, hdecode⟩ := honest i hiF client now hmem raw hraw
    rcases hend with ⟨hnone, -⟩ | ⟨m, result, hm, hresult, hreached, hvalue⟩
    · rw [hdecode] at hnone
      cases hnone
    · obtain rfl : (n : ℤ) = m := Option.some.inj (hdecode.symm.trans hm)
      have hvalid := Rounds.isValidHexUint_of_vote hexec hactive hresults hleads.1
      exact ⟨result, hresult, .inr ⟨n, hn, hreached, hvalue,
        (uint256_of_decodeVote hvalid hdecode).2⟩⟩

/-! ## One token -/

section Token

variable {es : List RoundEvent} {s : Rounds} {settings : Settings} {reads : ConsensusReads}
  {evmAddress : String} {x : Numeric 10 2} {t : EvmToken}

/-- The check of a token depends on what is read about that token. -/
theorem checkToken_of_read (hx : 0 < x.unscaled) (ht : t ∈ evmTokens) {v : RpcConsensusValidator}
    (hv : evmValidator settings t.chain t.rpcUrl = .ok v) {result : ConsensusResult}
    (hread : reads v t.contract evmAddress = some result) (balance : EvmToken → Option ℤ)
    (hnone : balance t = none → result.reached = false)
    (hsome : ∀ raw, balance t = some raw →
      result.reached = true ∧ result.value = some raw ∧ 0 ≤ raw ∧ raw < 2 ^ 256) :
    checkToken settings reads evmAddress x.value t =
      some (if t.covers balance x.unscaled then some (t.payment balance) else none) := by
  -- rounds that always decide the same
  have hsame : checkToken settings reads evmAddress x.value t =
      checkToken settings (fun _ _ _ => some result) evmAddress x.value t := by
    simp only [checkToken, hv, checkContract, hread]
  have hreads : ReadsBalances settings (fun _ _ _ => some result) evmAddress fun _ => balance t := by
    intro t' _ v' _
    refine ⟨result, rfl, ?_⟩
    cases hb : balance t with
    | none => exact hnone hb
    | some raw => exact hsome raw hb
  have hcovers : t.covers (fun _ => balance t) x.unscaled = t.covers balance x.unscaled := rfl
  have hpayment : t.payment (fun _ => balance t) = t.payment balance := rfl
  rw [hsame, checkToken_eq hx hreads ht, hcovers, hpayment]

/-- With fewer faulty providers than the quorum, the check of a token is that of a balance that is
held; or it finds nothing, and no string has a quorum of votes. -/
theorem checkToken_of_honestRound (h : exec Rounds.step Rounds.initial es = some s)
    (hx : 0 < x.unscaled) (ht : t ∈ evmTokens) {v : RpcConsensusValidator}
    (hv : evmValidator settings t.chain t.rpcUrl = .ok v) {held : Set ℕ} {r : RoundId}
    {round : ActiveRound} {raws : List (Option String)} {F : Finset ℕ}
    (hround : HonestRound es s v t.contract evmAddress (reads v t.contract evmAddress) held r round
      raws F) :
    (∃ n ∈ held, ∀ truth, truth t = n → checkToken settings reads evmAddress x.value t =
        some (if t.covers (trueBalance truth) x.unscaled then some (t.payment (trueBalance truth))
          else none)) ∨
      (checkToken settings reads evmAddress x.value t = some none ∧
        ∀ raw, ((round.voters raw).card : ℤ) < v.quorum) := by
  obtain ⟨result, hread, ⟨hreached, hfew⟩ | ⟨n, hn, hreached, hvalue, hlt⟩⟩ := hround.decision h
  · have hcheck := checkToken_of_read hx ht hv hread (fun _ => none) (fun _ => hreached) (by simp)
    exact .inr ⟨hcheck, hfew⟩
  · refine .inl ⟨n, hn, fun truth htruth => ?_⟩
    have hword : (0 : ℤ) ≤ n := Int.natCast_nonneg n
    apply checkToken_of_read hx ht hv hread
    · simp [trueBalance]
    · rintro raw ⟨⟩
      rw [htruth]
      exact ⟨hreached, hvalue, hword, hlt⟩

/-- The check of a token finds at most a payment that is held. -/
theorem checkToken_of_honestRead (h : exec Rounds.step Rounds.initial es = some s)
    (hx : 0 < x.unscaled) (ht : t ∈ evmTokens) {held : EvmToken → Set ℕ}
    (hread : HonestRead es s settings reads evmAddress held t) :
    ∃ found, checkToken settings reads evmAddress x.value t = some found ∧
      ∀ m ∈ found, ∃ t ∈ evmTokens, ∃ n ∈ held t, t.covers (trueBalance fun _ => n) x.unscaled ∧
        m = t.payment (trueBalance fun _ => n) := by
  obtain ⟨v, hv⟩ := evmValidator_ok settings t.chain t.rpcUrl
  obtain ⟨r, round, raws, F, hround⟩ := hread v hv
  rcases checkToken_of_honestRound h hx ht hv hround with ⟨n, hn, hcheck⟩ | ⟨hcheck, -⟩
  · refine ⟨_, hcheck (fun _ => n) rfl, fun m hm => ?_⟩
    split_ifs at hm with hcovers
    · cases hm
      exact ⟨t, ht, n, hn, hcovers, rfl⟩
    · cases hm
  · exact ⟨none, hcheck, by simp⟩

end Token

/-! ## The check -/

section Check

variable {es : List RoundEvent} {s : Rounds} {settings : Settings} {reads : ConsensusReads}
  {evmAddress : String} {x : Numeric 10 2}

/-- **Faulty providers cannot confirm a payment.** In every run, a check whose rounds have fewer
faulty providers than the quorum never raises; a payment that it reports is one of an accepted
token of which the address holds at least 99% of the amount, by a balance that a provider which is
not faulty has returned, and the amount reported is that balance. -/
theorem byzantine_payment (h : exec Rounds.step Rounds.initial es = some s) (hx : 0 < x.unscaled)
    {held : EvmToken → Set ℕ} (hreads : WhileAsked settings reads evmAddress x.value
      (HonestRead es s settings reads evmAddress held)) :
    ∃ verdict, checkEvmPayment settings reads evmAddress x.value = some verdict ∧
      ∀ m ∈ verdict, ∃ t ∈ evmTokens, ∃ n ∈ held t, t.covers (trueBalance fun _ => n) x.unscaled ∧
        m = t.payment (trueBalance fun _ => n) := by
  rw [checkEvmPayment_eq]
  apply returns_firstMatch_iff.mpr
  exact hreads.imp fun t ht hread => checkToken_of_honestRead h hx ht hread

/-- **With a quorum of the others, faulty providers change nothing**: the check returns the first
accepted token that covers the amount by the balances which the other providers return. -/
theorem byzantine_verdict (h : exec Rounds.step Rounds.initial es = some s) (hx : 0 < x.unscaled)
    {truth : EvmToken → ℕ} (hreads : WhileAsked settings reads evmAddress x.value
      (QuorumRead es s settings reads evmAddress truth)) :
    checkEvmPayment settings reads evmAddress x.value =
      some ((evmTokens.find? (EvmToken.covers (trueBalance truth) x.unscaled)).map
        (EvmToken.payment (trueBalance truth))) := by
  rw [checkEvmPayment_eq]
  apply UpToFirst.firstMatch_eq_find
  refine hreads.imp fun t ht hread => ?_
  obtain ⟨v, hv⟩ := evmValidator_ok settings t.chain t.rpcUrl
  obtain ⟨r, round, raws, F, hround, raw, hquorum⟩ := hread v hv
  rcases checkToken_of_honestRound h hx ht hv hround with ⟨n, hn, hcheck⟩ | ⟨-, hfew⟩
  · exact hcheck truth hn.symm
  · have hsub : (round.voters raw \ F).card ≤ (round.voters raw).card :=
      Finset.card_le_card Finset.sdiff_subset
    have hlt := hfew raw
    omega

end Check

/-! ## One liar among three -/

/-- Settings with a key for a third provider. -/
def keyedSettings : Settings := { alchemyApiKey := "key" }

/-- The validator that they give for the first chain. -/
def keyedValidator : RpcConsensusValidator where
  providers := [⟨"publicnode", "https://bsc-rpc.publicnode.com"⟩,
    ⟨"alchemy", "https://bnb-mainnet.g.alchemy.com/v2/key"⟩, ⟨"ankr", "https://rpc.ankr.com/bsc"⟩]
  expectedChainId := 56
  quorum := 2
  two_le_providers := by decide
  two_le_quorum := sampleValidator.two_le_quorum

theorem evmValidator_keyed :
    evmValidator keyedSettings .bsc "https://bsc-rpc.publicnode.com" = .ok keyedValidator := rfl

theorem fiveDollars_lt : |(500 : ℤ)| < 10 ^ 10 := by norm_num

/-- The amount of $5. -/
def fiveDollars : Numeric 10 2 := ⟨500, fiveDollars_lt⟩

/-- The first round of a check: two providers report the five tokens, and the last one none. -/
def lyingRound : List RoundEvent :=
  [.call 0 keyedValidator "0x55d398326f99059ff775485246999027b3197955" "0xab",
    .start 0 0 (.at 0), .start 0 1 (.at 0), .start 0 2 (.at 0),
    .finish 0 2 (.scripted "0x38" "0x0") 1, .finish 0 0 (.scripted "0x38" "0x4563918244f40000") 1,
    .finish 0 1 (.scripted "0x38" "0x4563918244f40000") 2]

/-- What the check reads of it. -/
def lyingReads : ConsensusReads := fun v _ _ =>
  v.ethCallBalanceOf [some "0x4563918244f40000", some "0x4563918244f40000", some "0x0"]

theorem exec_lyingRound : ∃ s round, exec Rounds.step Rounds.initial lyingRound = some s ∧
    s.active 0 = some round ∧
    round.results = some [some "0x4563918244f40000", some "0x4563918244f40000", some "0x0"] ∧
    round.validator = keyedValidator ∧
    round.contractAddress = "0x55d398326f99059ff775485246999027b3197955" ∧
    round.holderAddress = "0xab" := by
  have hrun : ((exec Rounds.step Rounds.initial lyingRound).bind fun s => s.summary 0) =
      some ((keyedValidator, "0x55d398326f99059ff775485246999027b3197955", "0xab"),
        [some "0x4563918244f40000", some "0x4563918244f40000", some "0x0"]) := by
    decide +kernel
  obtain ⟨s, hs, hsum⟩ := Option.bind_eq_some_iff.mp hrun
  obtain ⟨round, hround, hraws⟩ := Option.bind_eq_some_iff.mp hsum
  obtain ⟨raws, hraws, he⟩ := Option.map_eq_some_iff.mp hraws
  simp only [Prod.mk.injEq] at he
  obtain ⟨⟨hv, hcontract, hholder⟩, rfl⟩ := he
  exact ⟨s, round, hs, hround, hraws, hv, hcontract, hholder⟩

/-- The first token of the table, with which the check of the sample ends. -/
theorem whileAsked_lying {P : EvmToken → Prop}
    (h : ∀ t ∈ evmTokens, t.chain = .bsc → t.rpcUrl = "https://bsc-rpc.publicnode.com" →
      t.contract = "0x55d398326f99059ff775485246999027b3197955" → P t) :
    WhileAsked keyedSettings lyingReads "0xab" fiveDollars.value P := by
  have hpaid : checkToken keyedSettings lyingReads "0xab" fiveDollars.value
      ⟨.bsc, "https://bsc-rpc.publicnode.com", "0x55d398326f99059ff775485246999027b3197955",
        .usdt⟩ = some (some ⟨.bsc, .usdt, 5⟩) := by
    decide +kernel
  exact ⟨h _ (by decide) rfl rfl rfl, fun hn => absurd ⟨_, hpaid⟩ hn⟩

theorem quorumRead_lying : ∃ s, exec Rounds.step Rounds.initial lyingRound = some s ∧
    ∀ (truth : EvmToken → ℕ) (t : EvmToken), t.chain = .bsc →
      t.rpcUrl = "https://bsc-rpc.publicnode.com" →
      t.contract = "0x55d398326f99059ff775485246999027b3197955" →
      truth t = 5000000000000000000 →
      QuorumRead lyingRound s keyedSettings lyingReads "0xab" truth t := by
  obtain ⟨s, round, hs, hround, hraws, hv, hcontract, hholder⟩ := exec_lyingRound
  refine ⟨s, hs, fun truth t hchain hurl htoken htruth v hvalidator => ?_⟩
  rw [hchain, hurl, evmValidator_keyed] at hvalidator
  obtain rfl : keyedValidator = v := Except.ok.inj hvalidator
  refine ⟨0, round, _, {2}, ⟨hround, hv, by rw [hcontract, htoken], hholder, hraws, rfl, by decide,
    fun i hi client now hmem raw hraw => ?_⟩, "0x4563918244f40000", ?_⟩
  · have hclient : client = .scripted "0x38" "0x4563918244f40000" := by
      simp only [Finset.mem_singleton] at hi
      simp [lyingRound, hi] at hmem
      tauto
    have hvote : (ask 56 "0x55d398326f99059ff775485246999027b3197955" (balanceOfData "0xab")
        (.scripted "0x38" "0x4563918244f40000")).raw = some "0x4563918244f40000" := by
      decide +kernel
    have hdecode : decodeVote "0x4563918244f40000" = some 5000000000000000000 := by decide +kernel
    rw [ActiveRound.ask, hv, hcontract, hholder, hclient] at hraw
    rw [← Option.some.inj (hvote.symm.trans hraw)]
    exact ⟨truth t, rfl, by rw [htruth, hdecode]; rfl⟩
  · have hstage := (ActiveRound.results_eq_some hraws).2
    have hsub : ({0, 1} : Finset ℕ) ⊆ round.voters "0x4563918244f40000" \ {2} := by
      intro i hi
      simp only [Finset.mem_insert, Finset.mem_singleton] at hi
      rw [Finset.mem_sdiff, ActiveRound.mem_voters, hv]
      rcases hi with rfl | rfl
      · exact ⟨⟨by decide, hstage 0 _ rfl⟩, by decide⟩
      · exact ⟨⟨by decide, hstage 1 _ rfl⟩, by decide⟩
    have hcard : 2 ≤ (round.voters "0x4563918244f40000" \ {2}).card := Finset.card_le_card hsub
    show (2 : ℤ) ≤ ((round.voters "0x4563918244f40000" \ {2}).card : ℤ)
    omega

/-- Providers that return one of the balances that are held are honest. -/
theorem QuorumRead.honestRead {es : List RoundEvent} {s : Rounds} {settings : Settings}
    {reads : ConsensusReads} {evmAddress : String} {truth : EvmToken → ℕ}
    {held : EvmToken → Set ℕ} {t : EvmToken}
    (h : QuorumRead es s settings reads evmAddress truth t) (hheld : truth t ∈ held t) :
    HonestRead es s settings reads evmAddress held t := by
  intro v hv
  obtain ⟨r, round, raws, F, hround, -⟩ := h v hv
  refine ⟨r, round, raws, F, { hround with honest := fun i hi client now hmem raw hraw => ?_ }⟩
  obtain ⟨n, rfl, hdecode⟩ := hround.honest i hi client now hmem raw hraw
  exact ⟨truth t, hheld, hdecode⟩

theorem byzantine_payment_lying : ∃ verdict,
    checkEvmPayment keyedSettings lyingReads "0xab" fiveDollars.value = some verdict ∧
    ∀ m ∈ verdict, ∃ t ∈ evmTokens, ∃ n ∈ ({5000000000000000000} : Set ℕ),
      t.covers (trueBalance fun _ => n) 500 ∧ m = t.payment (trueBalance fun _ => n) := by
  obtain ⟨s, hs, hread⟩ := quorumRead_lying
  have hreads : WhileAsked keyedSettings lyingReads "0xab" fiveDollars.value
      (HonestRead lyingRound s keyedSettings lyingReads "0xab" fun _ => {5000000000000000000}) :=
    whileAsked_lying fun t _ hchain hurl htoken =>
      (hread (fun _ => 5000000000000000000) t hchain hurl htoken rfl).honestRead rfl
  exact byzantine_payment hs (by decide) hreads

theorem byzantine_verdict_lying :
    checkEvmPayment keyedSettings lyingReads "0xab" fiveDollars.value =
      some (some ⟨.bsc, .usdt, 5⟩) := by
  obtain ⟨s, hs, hread⟩ := quorumRead_lying
  have hreads := whileAsked_lying fun t _ hchain hurl htoken =>
    hread (fun _ => 5000000000000000000) t hchain hurl htoken rfl
  rw [byzantine_verdict hs (by decide) hreads]
  decide +kernel

end Gateway
