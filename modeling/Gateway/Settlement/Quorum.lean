import Gateway.Foundations.FirstMatch
import Gateway.Settlement.Consensus

/-!
# Faulty providers

With fewer faulty providers than the quorum, a consensus round reports the value that the others
agree on, or nothing (`byzantine_quorum`): a string that a quorum voted for has a voter that is not
faulty. No provider decides a value by itself.
-/

namespace Gateway

open Foundations

/-! ## Raw balances -/

/-- A balance as a provider returns it: at most 64 hexadecimal digits. -/
structure HexWord where
  digits : List Char
  numeral : PyText.IsNumeral 16 digits
  length_le : digits.length ≤ 64

namespace HexWord

/-- `0x` followed by the digits. -/
def raw (w : HexWord) : String := String.ofList ('0' :: 'x' :: w.digits)

/-- The balance. -/
def value (w : HexWord) : ℕ := PyText.numeral 16 w.digits

theorem decodeVote_raw (w : HexWord) : decodeVote w.raw = some (w.value : ℤ) := by
  have hlist : w.raw.toList = '0' :: 'x' :: w.digits := by simp [raw]
  unfold decodeVote
  by_cases hdigits : w.digits = []
  · have hraw : w.raw = "0x" := by rw [raw, hdigits]
    have hvalue : w.value = 0 := by
      rw [value, hdigits]
      rfl
    rw [if_pos (.inr hraw), hvalue]
    rfl
  · have hne : ¬ (w.raw = "" ∨ w.raw = "0x") := by
      rintro (h | h)
      · rw [h] at hlist
        cases hlist
      · rw [h] at hlist
        exact hdigits (List.cons.inj (List.cons.inj hlist).2).2.symm
    rw [if_neg hne, hlist, PyText.pyInt_prefixed w.numeral hdigits]
    rfl

end HexWord

/-! ## Votes and positions -/

namespace ActiveRound

variable {round : ActiveRound} {raws : List (Option String)}

theorem results_eq_some (h : round.results = some raws) :
    raws.length = round.validator.providers.length ∧
      ∀ i raw, raws[i]? = some raw → round.stage i = .answered raw := by
  have hmap := mapM_eq_some.mp h
  have hlen : raws.length = round.validator.providers.length := by
    simpa using (congrArg List.length hmap).symm
  refine ⟨hlen, fun i raw hi => ?_⟩
  have hlt : i < round.validator.providers.length := by
    rw [← hlen]
    exact (List.getElem?_eq_some_iff.mp hi).1
  have hget := congrArg (·[i]?) hmap
  simp only [List.getElem?_map, hi, List.getElem?_range hlt, Option.map_some,
    Option.some.injEq] at hget
  split at hget
  · rename_i raw' hstage
    rw [hstage, Option.some.inj hget]
  · cases hget

/-- The positions that voted for a string. -/
def voters (round : ActiveRound) (raw : String) : Finset ℕ :=
  (Finset.range round.validator.providers.length).filter fun i =>
    round.stage i = .answered (some raw)

theorem mem_voters {raw : String} {i : ℕ} : i ∈ round.voters raw ↔
    i < round.validator.providers.length ∧ round.stage i = .answered (some raw) := by
  simp [voters]

/-- A string has as many votes as positions that voted for it. -/
theorem card_voters (h : round.results = some raws) (raw : String) :
    (round.voters raw).card = raws.count (some raw) := by
  obtain ⟨hlen, hstage⟩ := results_eq_some h
  rw [← card_positions]
  congr 1
  ext i
  rw [mem_voters, mem_positions]
  constructor
  · rintro ⟨hi, hvote⟩
    rw [← hlen] at hi
    have hanswer := hstage i raws[i] (List.getElem?_eq_getElem hi)
    rw [hvote] at hanswer
    rw [List.getElem?_eq_getElem hi, ← QueryStage.answered.inj hanswer]
  · intro hi
    refine ⟨?_, hstage i (some raw) hi⟩
    rw [← hlen]
    exact (List.getElem?_eq_some_iff.mp hi).1

end ActiveRound

/-- A vote of a round was there before an event, or the event ended its query. -/
theorem Rounds.vote_of_step {s₀ s : Rounds} {e : RoundEvent} (h : s₀.step e = some s) {r : RoundId}
    {round : ActiveRound} (hr : s.active r = some round) {i : ℕ} {raw : String}
    (hvote : round.stage i = .answered (some raw)) :
    (∃ client now, e = .finish r i client now ∧ (round.ask client).raw = some raw) ∨
      ∃ round₀, s₀.active r = some round₀ ∧ round₀.stage i = .answered (some raw) ∧
        round₀.ask = round.ask := by
  cases e with
  | call r' v contractAddress holderAddress =>
    simp only [Rounds.step] at h
    split_ifs at h
    cases h
    by_cases hrr : r = r'
    · subst hrr
      simp only [Function.update_self, Option.some.injEq] at hr
      subst hr
      cases hvote
    · simp only [Function.update_of_ne hrr] at hr
      exact .inr ⟨round, hr, hvote, rfl⟩
  | start r' j t =>
    obtain ⟨⟨round₀, p⟩, hquery, h⟩ := Option.bind_eq_some_iff.mp h
    obtain ⟨hround₀, -, -⟩ := Rounds.queryAt_eq_some hquery
    simp only at h
    split_ifs at h
    cases h
    by_cases hrr : r = r'
    · subst hrr
      simp only [Rounds.start, Function.update_self, Option.some.injEq] at hr
      subst hr
      refine .inr ⟨round₀, hround₀, ?_, rfl⟩
      by_cases hij : i = j
      · subst hij
        simp only [ActiveRound.setStage, Function.update_self] at hvote
        split_ifs at hvote
        cases hvote
      · simpa only [ActiveRound.setStage, Function.update_of_ne hij] using hvote
    · simp only [Rounds.start, Function.update_of_ne hrr] at hr
      exact .inr ⟨round, hr, hvote, rfl⟩
  | finish r' j client now =>
    obtain ⟨⟨round₀, p⟩, hquery, h⟩ := Option.bind_eq_some_iff.mp h
    obtain ⟨hround₀, -, -⟩ := Rounds.queryAt_eq_some hquery
    simp only at h
    split_ifs at h
    cases h
    by_cases hrr : r = r'
    · subst hrr
      simp only [Rounds.finish, Function.update_self, Option.some.injEq] at hr
      subst hr
      by_cases hij : i = j
      · subst hij
        simp only [ActiveRound.setStage, Function.update_self] at hvote
        exact .inl ⟨client, now, rfl, QueryStage.answered.inj hvote⟩
      · refine .inr ⟨round₀, hround₀, ?_, rfl⟩
        simpa only [ActiveRound.setStage, Function.update_of_ne hij] using hvote
    · simp only [Rounds.finish, Function.update_of_ne hrr] at hr
      exact .inr ⟨round, hr, hvote, rfl⟩

/-- What a round says was answered to it: a vote comes from a query that ended in it. -/
theorem Rounds.vote_of_exec {es : List RoundEvent} {s : Rounds}
    (h : exec Rounds.step Rounds.initial es = some s) {r : RoundId} {round : ActiveRound}
    (hr : s.active r = some round) {i : ℕ} {raw : String}
    (hvote : round.stage i = .answered (some raw)) :
    ∃ client now, .finish r i client now ∈ es ∧ (round.ask client).raw = some raw := by
  induction es using List.reverseRecOn generalizing s round with
  | nil =>
    obtain rfl : Rounds.initial = s := Option.some.inj h
    cases hr
  | append_singleton es e ih =>
    rw [exec_append] at h
    obtain ⟨s₀, hs₀, h⟩ := Option.bind_eq_some_iff.mp h
    have hstep : s₀.step e = some s := by simpa using h
    rcases Rounds.vote_of_step hstep hr hvote with
      ⟨client, now, rfl, hraw⟩ | ⟨round₀, hround₀, hstage, hask⟩
    · exact ⟨client, now, by simp, hraw⟩
    · obtain ⟨client, now, hmem, hraw⟩ := ih hs₀ hround₀ hstage
      exact ⟨client, now, List.mem_append_left _ hmem, by rw [← hask]; exact hraw⟩

/-! ## The quorum -/

section Faulty

variable {round : ActiveRound} {F : Finset ℕ} {w : HexWord}

/-- A string that a quorum voted for is the one of the providers that are not faulty. -/
theorem eq_of_quorum (hF : (F.card : ℤ) < round.validator.quorum)
    (honest : ∀ i ∉ F, ∀ raw, round.stage i = .answered (some raw) → raw = w.raw)
    {raw : String} (hquorum : round.validator.quorum ≤ (round.voters raw).card) : raw = w.raw := by
  by_contra hne
  have hsub : round.voters raw ⊆ F := by
    intro i hi
    by_contra hiF
    exact hne (honest i hiF raw (ActiveRound.mem_voters.mp hi).2)
  have hcard := Finset.card_le_card hsub
  omega

/-- The decision of a round some of whose providers are faulty. -/
theorem decision_of_honest (hF : (F.card : ℤ) < round.validator.quorum)
    (honest : ∀ i ∉ F, ∀ raw, round.stage i = .answered (some raw) → raw = w.raw)
    {raws : List (Option String)} (hraws : round.results = some raws) :
    ∃ result, round.validator.ethCallBalanceOf raws = some result ∧
      ((result.reached = false ∧ result.value = none ∧
          ((round.voters w.raw).card : ℤ) < round.validator.quorum) ∨
        (result.reached = true ∧ result.value = some (w.value : ℤ) ∧
          round.validator.quorum ≤ (round.voters w.raw).card)) := by
  obtain ⟨hlen, -⟩ := ActiveRound.results_eq_some hraws
  have hcard := ActiveRound.card_voters hraws
  by_cases hquorum : round.validator.quorum ≤ (round.voters w.raw).card
  · rw [hcard] at hquorum
    obtain ⟨raw, voters, hw, hq⟩ := RpcConsensusValidator.exists_winner hlen hquorum
    have hraw : raw = w.raw := eq_of_quorum hF honest (by rw [hcard]; exact hq)
    rcases RpcConsensusValidator.ethCallBalanceOf_of_quorum hlen hw hq with
      ⟨hnone, -⟩ | ⟨n, result, hn, hresult, hreached, hvalue⟩
    · rw [hraw, w.decodeVote_raw] at hnone
      cases hnone
    · rw [hraw, w.decodeVote_raw] at hn
      refine ⟨result, hresult, .inr ⟨hreached, ?_, by rw [hcard]; exact hquorum⟩⟩
      rw [hvalue, ← hn]
  · have hno : ∀ raw, (raws.count (some raw) : ℤ) < round.validator.quorum := by
      intro raw
      by_contra hge
      have hraw : raw = w.raw := eq_of_quorum hF honest (by rw [hcard]; omega)
      rw [hcard, ← hraw] at hquorum
      omega
    obtain ⟨result, hresult, hreached, hvalue⟩ :=
      RpcConsensusValidator.ethCallBalanceOf_of_no_quorum hlen hno
    exact ⟨result, hresult, .inl ⟨hreached, hvalue, by omega⟩⟩

end Faulty

/-- **Byzantine safety of the quorum**: in every run, a round with fewer faulty providers than the
quorum reports the value that the other voters agree on or none; it reports the value when a quorum
of the others votes, and only with two votes for it. -/
theorem byzantine_quorum {es : List RoundEvent} {s : Rounds}
    (h : exec Rounds.step Rounds.initial es = some s) {r : RoundId} {round : ActiveRound}
    (hr : s.active r = some round) {raws : List (Option String)}
    (hraws : round.results = some raws) {F : Finset ℕ}
    (hF : (F.card : ℤ) < round.validator.quorum) {w : HexWord}
    (honest : ∀ i ∉ F, ∀ client now, .finish r i client now ∈ es →
      ∀ raw, (round.ask client).raw = some raw → raw = w.raw) :
    ∃ result, round.validator.ethCallBalanceOf raws = some result ∧
      ((result.reached = false ∧ result.value = none) ∨
        (result.reached = true ∧ result.value = some (w.value : ℤ))) ∧
      (round.validator.quorum ≤ (round.voters w.raw \ F).card →
        result.reached = true ∧ result.value = some (w.value : ℤ)) ∧
      (result.reached = true → 2 ≤ (round.voters w.raw).card) := by
  have hstage : ∀ i ∉ F, ∀ raw, round.stage i = .answered (some raw) → raw = w.raw := by
    intro i hi raw hvote
    obtain ⟨client, now, hmem, hraw⟩ := Rounds.vote_of_exec h hr hvote
    exact honest i hi client now hmem raw hraw
  have htwo := round.validator.two_le_quorum
  have hsub := Finset.card_le_card (Finset.sdiff_subset (s := round.voters w.raw) (t := F))
  obtain ⟨result, hresult, ⟨hreached, hvalue, hlt⟩ | ⟨hreached, hvalue, hge⟩⟩ :=
    decision_of_honest hF hstage hraws
  · refine ⟨result, hresult, .inl ⟨hreached, hvalue⟩, fun hquorum => ?_, fun htrue => ?_⟩
    · omega
    · rw [hreached] at htrue
      cases htrue
  · refine ⟨result, hresult, .inr ⟨hreached, hvalue⟩, fun _ => ⟨hreached, hvalue⟩, fun _ => ?_⟩
    omega

/-! ## A round of three -/

/-- A validator of three providers with the default quorum. -/
def sampleValidator : RpcConsensusValidator where
  providers := [⟨"a", "https://a.example.com"⟩, ⟨"b", "https://b.example.com"⟩,
    ⟨"c", "https://c.example.com"⟩]
  expectedChainId := 56
  quorum := 2
  two_le_providers := by decide
  two_le_quorum := by decide

/-- A round in which two providers return `0x64` and the last one lies. -/
def sampleRound : List RoundEvent :=
  [.call 0 sampleValidator "0xcd" "0xab", .start 0 0 (.at 0), .start 0 1 (.at 0),
    .start 0 2 (.at 0), .finish 0 2 (.scripted "0x38" "0x99") 1,
    .finish 0 0 (.scripted "0x38" "0x64") 1, .finish 0 1 (.scripted "0x38" "0x64") 2]

/-- What the round of a run has come to: whose it is, and what it was answered. -/
def Rounds.summary (s : Rounds) (r : RoundId) :
    Option ((RpcConsensusValidator × String × String) × List (Option String)) :=
  (s.active r).bind fun round => round.results.map fun raws =>
    ((round.validator, round.contractAddress, round.holderAddress), raws)

theorem exec_sampleRound : ∃ s round, exec Rounds.step Rounds.initial sampleRound = some s ∧
    s.active 0 = some round ∧ round.results = some [some "0x64", some "0x64", some "0x99"] ∧
    round.validator = sampleValidator ∧ round.contractAddress = "0xcd" ∧
    round.holderAddress = "0xab" := by
  have hrun : ((exec Rounds.step Rounds.initial sampleRound).bind fun s => s.summary 0) =
      some ((sampleValidator, "0xcd", "0xab"), [some "0x64", some "0x64", some "0x99"]) := by
    decide +kernel
  obtain ⟨s, hs, hsum⟩ := Option.bind_eq_some_iff.mp hrun
  obtain ⟨round, hround, hraws⟩ := Option.bind_eq_some_iff.mp hsum
  obtain ⟨raws, hraws, he⟩ := Option.map_eq_some_iff.mp hraws
  simp only [Prod.mk.injEq] at he
  obtain ⟨⟨hv, hcontract, hholder⟩, rfl⟩ := he
  exact ⟨s, round, hs, hround, hraws, hv, hcontract, hholder⟩

/-- The balance `0x64`. -/
def sampleWord : HexWord := ⟨['6', '4'], by decide, by decide⟩

theorem byzantine_quorum_two_of_three : ∃ result,
    sampleValidator.ethCallBalanceOf [some "0x64", some "0x64", some "0x99"] = some result ∧
      result.reached = true ∧ result.value = some 100 := by
  obtain ⟨s, round, hs, hround, hraws, hv, hcontract, hholder⟩ := exec_sampleRound
  have honest : ∀ i ∉ ({2} : Finset ℕ), ∀ client now, .finish 0 i client now ∈ sampleRound →
      ∀ raw, (round.ask client).raw = some raw → raw = sampleWord.raw := by
    intro i hi client now hmem raw hraw
    have hclient : client = .scripted "0x38" "0x64" := by
      simp only [Finset.mem_singleton] at hi
      simp [sampleRound, hi] at hmem
      tauto
    have hvote : (ask 56 "0xcd" (balanceOfData "0xab") (.scripted "0x38" "0x64")).raw =
        some "0x64" := by decide +kernel
    rw [ActiveRound.ask, hv, hcontract, hholder, hclient] at hraw
    rw [← Option.some.inj (hvote.symm.trans hraw)]
    decide
  obtain ⟨result, hresult, -, hreached, -⟩ := byzantine_quorum hs hround hraws
    (by rw [hv]; decide) honest
  have hvotes : round.validator.quorum ≤ (round.voters sampleWord.raw \ {2}).card := by
    have hstage := (ActiveRound.results_eq_some hraws).2
    have hsub : ({0, 1} : Finset ℕ) ⊆ round.voters sampleWord.raw \ {2} := by
      intro i hi
      simp only [Finset.mem_insert, Finset.mem_singleton] at hi
      rw [Finset.mem_sdiff, ActiveRound.mem_voters, hv]
      rcases hi with rfl | rfl
      · exact ⟨⟨by decide, hstage 0 _ rfl⟩, by decide⟩
      · exact ⟨⟨by decide, hstage 1 _ rfl⟩, by decide⟩
    have hcard : 2 ≤ (round.voters sampleWord.raw \ {2}).card := Finset.card_le_card hsub
    rw [hv]
    show (2 : ℤ) ≤ _
    omega
  obtain ⟨htrue, hvalue⟩ := hreached hvotes
  refine ⟨result, hv ▸ hresult, htrue, ?_⟩
  rw [hvalue]
  decide +kernel

end Gateway
