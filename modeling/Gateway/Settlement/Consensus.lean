import Mathlib.Data.List.MinMax
import Mathlib.Data.List.ReduceOption
import Gateway.Foundations.Dict
import Gateway.Foundations.Runs
import Gateway.Settlement.Providers

/-!
# Consensus rounds

A validator asks all of its providers for the same balance at once and trusts an answer only when a
quorum of them returned the same raw string. `Rounds` is the process with any number of rounds of
any validators in flight: the queries share the provider states, and start and finish in any order.
Once every query of a round has been answered, `ethCallBalanceOf` counts the votes.

A string has as many voters as it has votes (`winner_eq_some`), so that a round reports the value of
the winner when a quorum voted for it, and nothing otherwise.
-/

namespace Gateway

open Foundations

/-! ## Validators -/

/-- A validator that the constructor has accepted. -/
structure RpcConsensusValidator where
  providers : List RpcProvider
  expectedChainId : ℤ
  quorum : ℤ
  two_le_providers : 2 ≤ providers.length
  two_le_quorum : 2 ≤ quorum
  deriving DecidableEq

namespace RpcConsensusValidator

/-- `RpcConsensusValidator.__init__`; an error is the text of the `ValueError`. -/
def create (providers : List RpcProvider) (expectedChainId : ℤ) (quorum : Option ℤ) :
    Except String RpcConsensusValidator :=
  if hproviders : providers.length < 2 then
    .error "RpcConsensusValidator needs at least 2 independent providers to mean anything."
  else
    let quorum := quorum.getD (providers.length / 2 + 1)
    if hquorum : quorum < 2 then
      .error "Quorum below 2 provides no protection against a single bad/compromised provider."
    else .ok ⟨providers, expectedChainId, quorum, not_lt.mp hproviders, not_lt.mp hquorum⟩

theorem create_ok {providers : List RpcProvider} {expectedChainId : ℤ} {quorum : Option ℤ}
    {v : RpcConsensusValidator} (h : create providers expectedChainId quorum = .ok v) :
    v.providers = providers ∧ v.expectedChainId = expectedChainId ∧
      v.quorum = quorum.getD (providers.length / 2 + 1) := by
  unfold create at h
  split_ifs at h
  simp only at h
  split_ifs at h
  cases h
  exact ⟨rfl, rfl, rfl⟩

/-- Two providers with the default quorum. -/
def ofPair (p q : RpcProvider) (expectedChainId : ℤ) : RpcConsensusValidator where
  providers := [p, q]
  expectedChainId := expectedChainId
  quorum := 2
  two_le_providers := le_rfl
  two_le_quorum := le_rfl

/-- The constructor accepts every value of the type. -/
theorem create_self (v : RpcConsensusValidator) :
    create v.providers v.expectedChainId (some v.quorum) = .ok v := by
  have hproviders := v.two_le_providers
  have hquorum := v.two_le_quorum
  unfold create
  rw [dif_neg (by omega)]
  simp only [Option.getD_some]
  rw [dif_neg (by omega)]

/-- The default quorum is a majority, and accepted with any two providers. -/
theorem create_default {providers : List RpcProvider} (expectedChainId : ℤ)
    (h : 2 ≤ providers.length) : ∃ v, create providers expectedChainId none = .ok v := by
  unfold create
  rw [dif_neg (by omega)]
  simp only [Option.getD_none]
  rw [dif_neg (by omega)]
  exact ⟨_, rfl⟩

end RpcConsensusValidator

/-! ## Rounds in flight -/

/-- The name of a round. -/
abbrev RoundId := ℕ

/-- Where the query of one provider stands. -/
inductive QueryStage
  | waiting
  | asking
  /-- `_query_one` has returned, with a vote or with `None`. -/
  | answered (raw : Option String)
  deriving DecidableEq

/-- A call of `eth_call_balance_of`. -/
structure ActiveRound where
  validator : RpcConsensusValidator
  contractAddress : String
  holderAddress : String
  stage : ℕ → QueryStage

/-- What is remembered of a query that was sent. -/
structure QueryRecord where
  provider : RpcProvider
  succeeded : Bool
  time : ℚ
  deriving DecidableEq

/-- The process: the states of the providers, and the rounds in flight. -/
structure Rounds where
  states : ProviderStates
  clock : ℚ
  active : RoundId → Option ActiveRound
  /-- The queries that have been recorded, the last one first. -/
  history : List QueryRecord

/-- What may happen in the process. -/
inductive RoundEvent
  | call (r : RoundId) (v : RpcConsensusValidator) (contractAddress holderAddress : String)
  /-- The query of the provider at a position begins: it is admitted or not. -/
  | start (r : RoundId) (i : ℕ) (t : Readings)
  /-- It ends, after these answers. -/
  | finish (r : RoundId) (i : ℕ) (client : Client) (now : ℚ)

/-- `s.replace("0x", "")`. -/
def dropHexPrefixes : List Char → List Char
  | [] => []
  | '0' :: 'x' :: cs => dropHexPrefixes cs
  | c :: cs => c :: dropHexPrefixes cs

/-- `s.zfill(width)`. -/
def zfill (width : ℕ) (s : List Char) : List Char :=
  let zeros := List.replicate (width - s.length) '0'
  match s with
  | '+' :: cs => '+' :: (zeros ++ cs)
  | '-' :: cs => '-' :: (zeros ++ cs)
  | cs => zeros ++ cs

/-- `_ERC20_BALANCE_OF_SELECTOR`. -/
def erc20BalanceOfSelector : String := "0x70a08231"

/-- The call data of `balanceOf(holder)`. Python's `lower` knows all scripts and `Char.toLower` only
ASCII; the holders are addresses, of hexadecimal digits. -/
def balanceOfData (holderAddress : String) : String :=
  erc20BalanceOfSelector ++
    String.ofList (zfill 64 (dropHexPrefixes (holderAddress.toList.map Char.toLower)))

namespace ActiveRound

/-- The query of a provider goes on. -/
def setStage (round : ActiveRound) (i : ℕ) (stage : QueryStage) : ActiveRound :=
  { round with stage := Function.update round.stage i stage }

/-- The outcome of a query of the round that a client answers. -/
def ask (round : ActiveRound) (client : Client) : Outcome :=
  Gateway.ask round.validator.expectedChainId round.contractAddress
    (balanceOfData round.holderAddress) client

/-- What `asyncio.gather` returns, without the names: one vote or `None` for each provider. -/
def results (round : ActiveRound) : Option (List (Option String)) :=
  (List.range round.validator.providers.length).mapM fun i =>
    match round.stage i with
    | .answered raw => some raw
    | _ => none

end ActiveRound

namespace Rounds

/-- The process at its start: `_provider_state` is empty. -/
def initial : Rounds where
  states := fun _ => none
  clock := 0
  active := fun _ => none
  history := []

/-- A query begins. -/
def start (s : Rounds) (r : RoundId) (round : ActiveRound) (i : ℕ) (p : RpcProvider)
    (t : Readings) : Rounds :=
  let gated := (stateFor s.states p.name t.created).gate t
  let stage := if gated.1 = .admitted then QueryStage.asking else .answered none
  { s with
    states := Function.update s.states p.name (some gated.2)
    clock := t.drawn
    active := Function.update s.active r (some (round.setStage i stage)) }

/-- A query ends. -/
def finish (s : Rounds) (r : RoundId) (round : ActiveRound) (i : ℕ) (p : RpcProvider)
    (client : Client) (now : ℚ) : Rounds :=
  let outcome := round.ask client
  { states := Function.update s.states p.name ((s.states p.name).map (·.record now outcome))
    clock := now
    active := Function.update s.active r (some (round.setStage i (.answered outcome.raw)))
    history := ⟨p, outcome.raw.isSome, now⟩ :: s.history }

/-- The query of a round at a position, if it has come to a stage. -/
def queryAt (s : Rounds) (r : RoundId) (i : ℕ) (stage : QueryStage) :
    Option (ActiveRound × RpcProvider) :=
  (s.active r).bind fun round =>
    if round.stage i = stage then round.validator.providers[i]?.map (round, ·) else none

/-- One event; `none` when it is not enabled. -/
def step (s : Rounds) : RoundEvent → Option Rounds
  | .call r v contractAddress holderAddress =>
    if (s.active r).isNone then
      let round := ⟨v, contractAddress, holderAddress, fun _ => .waiting⟩
      some { s with active := Function.update s.active r (some round) }
    else none
  | .start r i t =>
    (s.queryAt r i .waiting).bind fun (round, p) =>
      if s.clock ≤ t.created then some (s.start r round i p t) else none
  | .finish r i client now =>
    (s.queryAt r i .asking).bind fun (round, p) =>
      if s.clock ≤ now then some (s.finish r round i p client now) else none

theorem queryAt_eq_some {s : Rounds} {r : RoundId} {i : ℕ} {stage : QueryStage}
    {round : ActiveRound} {p : RpcProvider} (h : s.queryAt r i stage = some (round, p)) :
    s.active r = some round ∧ round.stage i = stage ∧
      round.validator.providers[i]? = some p := by
  obtain ⟨round', hround, h⟩ := Option.bind_eq_some_iff.mp h
  split_ifs at h with hstage
  obtain ⟨p', hp, he⟩ := Option.map_eq_some_iff.mp h
  cases he
  exact ⟨hround, hstage, hp⟩

end Rounds

/-! ## Counting the votes -/

/-- `ConsensusResult`. -/
structure ConsensusResult where
  value : Option ℤ
  reached : Bool
  agreeingProviders : List String
  /-- The raw strings of the other voters, by name. -/
  disagreeing : List (String × String)
  unavailable : List String
  responded : ℕ
  totalProviders : ℕ
  deriving DecidableEq

/-- The votes with their voters, in the order of the providers. -/
def ballots (names : List String) (raws : List (Option String)) : List (String × String) :=
  (names.zip raws).filterMap fun x => x.2.map fun raw => (raw, x.1)

/-- The winning string with its voters: the first one that has the most. -/
def winner (names : List String) (raws : List (Option String)) : Option (String × List String) :=
  (Dict.groups (ballots names raws)).argmax fun x => x.2.length

/-- The value of a winning string; `none` is a `ValueError`. -/
def decodeVote (winningHex : String) : Option ℤ :=
  if winningHex = "" ∨ winningHex = "0x" then some 0 else PyText.pyInt 16 winningHex.toList

namespace RpcConsensusValidator

/-- The names of the providers. -/
def names (v : RpcConsensusValidator) : List String := v.providers.map RpcProvider.name

/-- `eth_call_balance_of` on the answers that have been gathered; `none` when it raises. -/
def ethCallBalanceOf (v : RpcConsensusValidator) (raws : List (Option String)) :
    Option ConsensusResult :=
  let unavailable := (v.names.zip raws).filterMap fun x => if x.2.isNone then some x.1 else none
  let responded := v.providers.length - unavailable.length
  match winner v.names raws with
  | none =>
    some
      { value := none
        reached := false
        agreeingProviders := []
        disagreeing := []
        unavailable
        responded
        totalProviders := v.providers.length }
  | some (winningHex, winningVoters) =>
    let dissent := (Dict.groups (ballots v.names raws)).filter fun x => x.1 ≠ winningHex
    let disagreeing := (dissent.flatMap fun x => x.2.map fun name => (name, x.1)).foldl
      (fun d x => Dict.insert x.1 x.2 d) []
    let reached := decide (v.quorum ≤ winningVoters.length)
    (if reached then (decodeVote winningHex).map some else some none).map fun value =>
      { value
        reached
        agreeingProviders := winningVoters
        disagreeing
        unavailable
        responded
        totalProviders := v.providers.length }

end RpcConsensusValidator

/-- A string has as many voters as it has votes. -/
theorem length_valuesOf_ballots {names : List String} {raws : List (Option String)}
    (h : raws.length = names.length) (raw : String) :
    (Dict.valuesOf raw (ballots names raws)).length = raws.count (some raw) := by
  induction raws generalizing names with
  | nil => simp [ballots]
  | cons vote raws ih =>
    cases names with
    | nil => cases h
    | cons name names =>
      have ih : (Dict.valuesOf raw (ballots names raws)).length = raws.count (some raw) :=
        ih (by simpa using h)
      cases vote with
      | none => simpa [ballots] using ih
      | some raw' =>
        have hcons : ballots (name :: names) (some raw' :: raws) =
            [(raw', name)] ++ ballots names raws := rfl
        rw [hcons, Dict.valuesOf_append, List.length_append, ih, List.count_cons]
        by_cases hraw : raw' = raw
        · simp [Dict.valuesOf, hraw, Nat.add_comm]
        · simp [Dict.valuesOf, hraw]

/-- The votes that were cast, in the order of the providers. -/
theorem keys_ballots {names : List String} {raws : List (Option String)}
    (h : raws.length = names.length) :
    (ballots names raws).map Prod.fst = raws.reduceOption := by
  induction raws generalizing names with
  | nil => simp [ballots]
  | cons vote raws ih =>
    cases names with
    | nil => cases h
    | cons name names =>
      have ih : (ballots names raws).map Prod.fst = raws.reduceOption := ih (by simpa using h)
      cases vote with
      | none => simpa [ballots] using ih
      | some raw => simpa [ballots] using ih

/-- `raw` leads the votes: none has more, and none with as many was cast earlier. -/
def Leads (raws : List (Option String)) (raw : String) : Prop :=
  0 < raws.count (some raw) ∧ ∀ raw', raws.count (some raw') < raws.count (some raw) ∨
    (raws.count (some raw') = raws.count (some raw) ∧
      raws.reduceOption.idxOf raw ≤ raws.reduceOption.idxOf raw')

theorem Leads.unique {raws : List (Option String)} {raw raw' : String} (h : Leads raws raw)
    (h' : Leads raws raw') : raw = raw' := by
  have hmem : raw ∈ raws.reduceOption :=
    List.reduceOption_mem_iff.mpr (List.count_pos_iff.mp h.1)
  rcases h.2 raw' with hlt | ⟨heq, hle⟩
  · rcases h'.2 raw with hlt' | ⟨heq', -⟩ <;> omega
  · rcases h'.2 raw with hlt' | ⟨-, hle'⟩
    · omega
    · exact (List.idxOf_inj hmem).mp (le_antisymm hle hle')

section Winner

variable {names : List String} {raws : List (Option String)}

/-- The winner has votes, as many as it has voters, and nobody has more. -/
theorem winner_eq_some (h : raws.length = names.length) {raw : String} {voters : List String}
    (hw : winner names raws = some (raw, voters)) :
    voters.length = raws.count (some raw) ∧ 0 < raws.count (some raw) ∧
      ∀ raw', raws.count (some raw') ≤ raws.count (some raw) := by
  have hmem : (raw, voters) ∈ Dict.groups (ballots names raws) := List.argmax_mem hw
  obtain ⟨rfl, hne⟩ := Dict.mem_groups.mp hmem
  have hlen := length_valuesOf_ballots h
  refine ⟨hlen raw, ?_, ?_⟩
  · rw [← hlen raw]
    exact List.length_pos_iff.mpr hne
  · intro raw'
    by_cases hvotes : Dict.valuesOf raw' (ballots names raws) = []
    · rw [← hlen raw', hvotes]
      exact Nat.zero_le _
    · have hmem' : (raw', Dict.valuesOf raw' (ballots names raws)) ∈
          Dict.groups (ballots names raws) := Dict.mem_groups.mpr ⟨rfl, hvotes⟩
      have hle := List.le_of_mem_argmax hmem' hw
      simpa only [hlen] using hle

/-- **The winner leads the votes.** -/
theorem leads_of_winner (h : raws.length = names.length) {raw : String} {voters : List String}
    (hw : winner names raws = some (raw, voters)) : Leads raws raw := by
  obtain ⟨hvoters, hpos, hmax⟩ := winner_eq_some h hw
  obtain ⟨hmem, -, hfirst⟩ := List.mem_argmax_iff.mp hw
  refine ⟨hpos, fun raw' => ?_⟩
  rcases (hmax raw').lt_or_eq with hlt | heq
  · exact .inl hlt
  · have hvotes : Dict.valuesOf raw' (ballots names raws) ≠ [] := by
      rw [← List.length_pos_iff, length_valuesOf_ballots h, heq]
      exact hpos
    have hmem' : (raw', Dict.valuesOf raw' (ballots names raws)) ∈
        Dict.groups (ballots names raws) := Dict.mem_groups.mpr ⟨rfl, hvotes⟩
    have hle : voters.length ≤ (Dict.valuesOf raw' (ballots names raws)).length := by
      rw [length_valuesOf_ballots h, heq, hvoters]
    have hkeys := Dict.idxOf_key_le hmem hmem' (hfirst _ hmem' hle)
    rw [keys_ballots h] at hkeys
    exact .inr ⟨heq, hkeys⟩

/-- Without a winner there are no votes. -/
theorem winner_eq_none (h : raws.length = names.length) (hw : winner names raws = none)
    (raw : String) : raws.count (some raw) = 0 := by
  have hnil : ballots names raws = [] := Dict.groups_eq_nil.mp (List.argmax_eq_none.mp hw)
  rw [← length_valuesOf_ballots h raw, hnil]
  rfl

end Winner

namespace RpcConsensusValidator

variable {v : RpcConsensusValidator} {raws : List (Option String)}

theorem length_names (v : RpcConsensusValidator) : v.names.length = v.providers.length :=
  List.length_map _

/-- A round in which no string has a quorum reports nothing. -/
theorem ethCallBalanceOf_of_no_quorum (h : raws.length = v.providers.length)
    (hno : ∀ raw, (raws.count (some raw) : ℤ) < v.quorum) :
    ∃ result, v.ethCallBalanceOf raws = some result ∧ result.reached = false ∧
      result.value = none := by
  have hlen : raws.length = v.names.length := by rw [h, v.length_names]
  unfold ethCallBalanceOf
  cases hw : winner v.names raws with
  | none => exact ⟨_, rfl, rfl, rfl⟩
  | some x =>
    obtain ⟨raw, voters⟩ := x
    obtain ⟨hvoters, -, -⟩ := winner_eq_some hlen hw
    have hlt := hno raw
    have hreached : ¬ v.quorum ≤ (voters.length : ℤ) := by omega
    simp only [hreached, decide_false, Bool.false_eq_true, if_false, Option.map_some]
    exact ⟨_, rfl, rfl, rfl⟩

/-- A round whose winner has a quorum reports the value of the winning string, or raises. -/
theorem ethCallBalanceOf_of_quorum (h : raws.length = v.providers.length) {raw : String}
    {voters : List String} (hw : winner v.names raws = some (raw, voters))
    (hquorum : v.quorum ≤ raws.count (some raw)) :
    (decodeVote raw = none ∧ v.ethCallBalanceOf raws = none) ∨
      ∃ n result, decodeVote raw = some n ∧ v.ethCallBalanceOf raws = some result ∧
        result.reached = true ∧ result.value = some n := by
  have hlen : raws.length = v.names.length := by rw [h, v.length_names]
  obtain ⟨hvoters, -, -⟩ := winner_eq_some hlen hw
  have hreached : v.quorum ≤ (voters.length : ℤ) := by omega
  unfold ethCallBalanceOf
  simp only [hw, hreached, decide_true, if_true]
  cases hdecode : decodeVote raw with
  | none => exact .inl ⟨rfl, rfl⟩
  | some n => exact .inr ⟨n, _, rfl, rfl, rfl, rfl⟩

/-- Some string has the most votes, if any has a quorum. -/
theorem exists_winner (h : raws.length = v.providers.length) {raw : String}
    (hquorum : v.quorum ≤ raws.count (some raw)) :
    ∃ raw' voters, winner v.names raws = some (raw', voters) ∧
      v.quorum ≤ raws.count (some raw') := by
  have hlen : raws.length = v.names.length := by rw [h, v.length_names]
  have htwo := v.two_le_quorum
  cases hw : winner v.names raws with
  | none =>
    have hzero := winner_eq_none hlen hw raw
    omega
  | some x =>
    obtain ⟨raw', voters⟩ := x
    obtain ⟨-, -, hmax⟩ := winner_eq_some hlen hw
    have hle := hmax raw
    exact ⟨raw', voters, rfl, by omega⟩

end RpcConsensusValidator

end Gateway
