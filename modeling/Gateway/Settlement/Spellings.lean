import Gateway.Settlement.Quorum

/-!
# Spellings of a balance

The sanity check parses what follows `0x`, while the decision parses the whole string, and Python's
`int` takes blanks, signs and a prefix in the one but not in the other. An accepted string decodes
exactly when a digit follows its `0x` (`decodeVote_isSome`), and a round raises exactly when a
string that does not decode leads the votes with a quorum (`accepted_votes_decode`).

Votes are counted by their spelling. They are counted by their value as well exactly when, whenever
a quorum of them stands for one number, a quorum of them spells it alike (`counted_by_value_iff`).
-/

namespace Gateway

open Foundations

/-! ## Accepted strings -/

/-- Does nothing follow `0x`, or a digit that does not begin a second prefix? -/
def isPlainHex (value : String) : Bool :=
  match value.toList with
  | '0' :: 'x' :: hexDigits => hexDigits.isEmpty || PyText.beginsPlain hexDigits
  | _ => false

/-- The shape of an accepted string. -/
theorem isValidHexUint_cases {value : String} (h : isValidHexUint value) :
    ∃ hexDigits, value.toList = '0' :: 'x' :: hexDigits ∧ (hexDigits = [] ∨
      (hexDigits ≠ [] ∧ hexDigits.length ≤ 64 ∧ (PyText.pyInt 16 hexDigits).isSome)) := by
  unfold isValidHexUint at h
  split at h
  · rename_i hexDigits hlist
    refine ⟨hexDigits, hlist, ?_⟩
    cases hexDigits with
    | nil => exact .inl rfl
    | cons c cs => exact .inr (by simpa using h)
  · cases h

theorem decodeVote_of_toList {value : String} {hexDigits : List Char}
    (h : value.toList = '0' :: 'x' :: hexDigits) : decodeVote value =
      if hexDigits = [] then some 0 else PyText.pyInt 16 ('0' :: 'x' :: hexDigits) := by
  have hne : value ≠ "" := by
    rintro rfl
    cases h
  have hiff : value = "0x" ↔ hexDigits = [] := by
    constructor
    · rintro rfl
      exact (List.cons.inj (List.cons.inj h).2).2.symm
    · rintro rfl
      exact String.toList_inj.mp h
  simp only [decodeVote, hne, false_or, hiff, h]

/-- What an accepted string decodes to is a 256-bit number. -/
theorem uint256_of_decodeVote {value : String} (h : isValidHexUint value) {n : ℤ}
    (hn : decodeVote value = some n) : 0 ≤ n ∧ n < 2 ^ 256 := by
  obtain ⟨hexDigits, hlist, hcases⟩ := isValidHexUint_cases h
  rw [decodeVote_of_toList hlist] at hn
  split_ifs at hn with hnil
  · obtain rfl : 0 = n := Option.some.inj hn
    norm_num
  · obtain ⟨-, hlen, -⟩ := hcases.resolve_left hnil
    obtain ⟨hnonneg, hlt⟩ := PyText.lt_of_pyInt_behind hn
    refine ⟨hnonneg, hlt.trans_le ?_⟩
    calc (16 : ℤ) ^ hexDigits.length ≤ 16 ^ 64 := pow_le_pow_right₀ (by norm_num) hlen
      _ = 2 ^ 256 := by norm_num

/-- **An accepted string decodes exactly when it is plain.** -/
theorem decodeVote_isSome {value : String} (h : isValidHexUint value) :
    (decodeVote value).isSome ↔ isPlainHex value := by
  obtain ⟨hexDigits, hlist, hcases⟩ := isValidHexUint_cases h
  rw [decodeVote_of_toList hlist, isPlainHex, hlist]
  rcases hcases with rfl | ⟨hne, -, hsome⟩
  · simp
  · rw [if_neg hne, PyText.pyInt_behind_isSome hsome]
    simp [hne]

/-! ## The decision of a round -/

/-- The three ends of a round whose queries have all been answered. -/
theorem RpcConsensusValidator.ethCallBalanceOf_cases {v : RpcConsensusValidator}
    {raws : List (Option String)} (h : raws.length = v.providers.length) :
    ((∀ raw, (raws.count (some raw) : ℤ) < v.quorum) ∧ ∃ result,
        v.ethCallBalanceOf raws = some result ∧ result.reached = false ∧ result.value = none) ∨
      ∃ raw, Leads raws raw ∧ v.quorum ≤ raws.count (some raw) ∧
        ((decodeVote raw = none ∧ v.ethCallBalanceOf raws = none) ∨
          ∃ n result, decodeVote raw = some n ∧ v.ethCallBalanceOf raws = some result ∧
            result.reached = true ∧ result.value = some n) := by
  by_cases hno : ∀ raw, (raws.count (some raw) : ℤ) < v.quorum
  · exact .inl ⟨hno, ethCallBalanceOf_of_no_quorum h hno⟩
  · obtain ⟨raw, hraw⟩ := not_forall.mp hno
    obtain ⟨raw', voters, hw, hquorum⟩ := exists_winner h (not_lt.mp hraw)
    refine .inr ⟨raw', ?_, hquorum, ethCallBalanceOf_of_quorum h hw hquorum⟩
    exact leads_of_winner (by rw [h, v.length_names]) hw

/-- A vote of a run has passed the sanity check. -/
theorem Rounds.isValidHexUint_of_vote {es : List RoundEvent} {s : Rounds}
    (h : exec Rounds.step Rounds.initial es = some s) {r : RoundId} {round : ActiveRound}
    (hr : s.active r = some round) {raws : List (Option String)}
    (hraws : round.results = some raws) {raw : String} (hvote : 0 < raws.count (some raw)) :
    isValidHexUint raw := by
  obtain ⟨i, hi⟩ := List.getElem?_of_mem (List.count_pos_iff.mp hvote)
  obtain ⟨client, now, -, hraw⟩ :=
    Rounds.vote_of_exec h hr ((ActiveRound.results_eq_some hraws).2 i _ hi)
  exact isValidHexUint_of_ask hraw

/-- **Accepted votes decode to 256-bit numbers when they are plain**: exactly then a string decodes,
and in every run a round decides without raising exactly when the string that leads its votes with
a quorum, if there is one, is plain. -/
theorem accepted_votes_decode {es : List RoundEvent} {s : Rounds}
    (h : exec Rounds.step Rounds.initial es = some s) {r : RoundId} {round : ActiveRound}
    (hr : s.active r = some round) {raws : List (Option String)}
    (hraws : round.results = some raws) :
    (∀ value, isValidHexUint value →
      ((∃ n, decodeVote value = some n ∧ 0 ≤ n ∧ n < 2 ^ 256) ↔ isPlainHex value)) ∧
    ((∃ result, round.validator.ethCallBalanceOf raws = some result ∧
        (result.reached = true → ∃ n, result.value = some n ∧ 0 ≤ n ∧ n < 2 ^ 256)) ↔
      ∀ raw, round.validator.quorum ≤ raws.count (some raw) → Leads raws raw →
        isPlainHex raw) := by
  refine ⟨fun value hvalid => ?_, ?_⟩
  · rw [← decodeVote_isSome hvalid, Option.isSome_iff_exists]
    constructor
    · rintro ⟨n, hn, -⟩
      exact ⟨n, hn⟩
    · rintro ⟨n, hn⟩
      exact ⟨n, hn, uint256_of_decodeVote hvalid hn⟩
  · have hvalid : ∀ {raw}, Leads raws raw → isValidHexUint raw := fun hleads =>
      Rounds.isValidHexUint_of_vote h hr hraws hleads.1
    rcases RpcConsensusValidator.ethCallBalanceOf_cases (ActiveRound.results_eq_some hraws).1 with
      ⟨hno, result, hresult, hreached, -⟩ | ⟨raw, hleads, hquorum, hend⟩
    · constructor
      · intro _ raw hquorum
        have hlt := hno raw
        omega
      · intro _
        refine ⟨result, hresult, fun htrue => ?_⟩
        rw [hreached] at htrue
        cases htrue
    · have honly : (∀ raw', round.validator.quorum ≤ raws.count (some raw') → Leads raws raw' →
          isPlainHex raw') ↔ isPlainHex raw := by
        constructor
        · intro hall
          exact hall raw hquorum hleads
        · intro hplain raw' _ hleads'
          rwa [hleads'.unique hleads]
      rw [honly, ← decodeVote_isSome (hvalid hleads)]
      rcases hend with ⟨hnone, hraise⟩ | ⟨n, result, hn, hresult, -, hvalue⟩
      · rw [hraise, hnone]
        simp
      · rw [hn]
        refine iff_of_true ⟨result, hresult, fun _ => ⟨n, hvalue, ?_⟩⟩ rfl
        exact uint256_of_decodeVote (hvalid hleads) hn

/-- A round in which two providers return what no `int` reads behind a prefix. -/
def signedRound : List RoundEvent :=
  [.call 0 sampleValidator "0xcd" "0xab", .start 0 0 (.at 0), .start 0 1 (.at 0),
    .start 0 2 (.at 0), .finish 0 2 (.scripted "0x38" "0x1") 1,
    .finish 0 0 (.scripted "0x38" "0x-1") 1, .finish 0 1 (.scripted "0x38" "0x-1") 2]

/-- A string with a sign after its prefix is accepted, does not decode, and makes a round raise. -/
theorem signed_vote_raises : isValidHexUint "0x-1" ∧ decodeVote "0x-1" = none ∧
    ((exec Rounds.step Rounds.initial signedRound).bind fun s => (s.summary 0).map fun x =>
      (x, x.1.1.ethCallBalanceOf x.2)) =
      some (((sampleValidator, "0xcd", "0xab"), [some "0x-1", some "0x-1", some "0x1"]), none) := by
  refine ⟨by decide +kernel, by decide +kernel, by decide +kernel⟩

/-- The round of three votes of `sampleRound`. -/
theorem accepted_votes_decode_two_of_three :
    (∃ n, decodeVote "0x64" = some n ∧ 0 ≤ n ∧ n < 2 ^ 256) ∧ ∃ result,
      sampleValidator.ethCallBalanceOf [some "0x64", some "0x64", some "0x99"] = some result ∧
        (result.reached = true → ∃ n, result.value = some n ∧ 0 ≤ n ∧ n < 2 ^ 256) := by
  obtain ⟨s, round, hs, hround, hraws, hv, -, -⟩ := exec_sampleRound
  obtain ⟨hstrings, hdecides⟩ := accepted_votes_decode hs hround hraws
  refine ⟨(hstrings "0x64" (by decide +kernel)).mpr (by decide +kernel), ?_⟩
  rw [← hv]
  refine hdecides.mpr fun raw hquorum _ => ?_
  have hraw : raw = "0x64" := by
    rw [hv] at hquorum
    by_contra hne
    have hle : List.count (some raw) [some "0x64", some "0x64", some "0x99"] ≤ 1 := by
      simp only [List.count_cons, List.count_nil]
      have hne' : ("0x64" == raw) = false := by simpa using Ne.symm hne
      simp [hne']
      split_ifs <;> simp
    have htwo : sampleValidator.quorum = 2 := rfl
    omega
  rw [hraw]
  decide +kernel

/-! ## Counting by value -/

/-- The number of replies that decode to a number. -/
def votesFor (raws : List (Option String)) (n : ℤ) : ℕ :=
  raws.countP fun raw => raw.bind decodeVote = some n

/-- The round reports the number that a quorum of its replies stands for, if there is one. -/
def CountedByValue (v : RpcConsensusValidator) (raws : List (Option String)) : Prop :=
  ∃ result, v.ethCallBalanceOf raws = some result ∧
    (result.reached = true ↔ ∃ n, v.quorum ≤ votesFor raws n) ∧
    ∀ n, v.quorum ≤ votesFor raws n → result.value = some n

/-- Whenever a quorum stands for one number, a quorum spells it alike; and no string that does not
decode has a quorum. -/
def SpelledAlike (v : RpcConsensusValidator) (raws : List (Option String)) : Prop :=
  (∀ n, v.quorum ≤ votesFor raws n → ∃ raw, decodeVote raw = some n ∧
    v.quorum ≤ raws.count (some raw)) ∧
  ∀ raw, v.quorum ≤ raws.count (some raw) → (decodeVote raw).isSome

theorem count_le_votesFor {raws : List (Option String)} {raw : String} {n : ℤ}
    (h : decodeVote raw = some n) : raws.count (some raw) ≤ votesFor raws n := by
  unfold List.count votesFor
  refine List.countP_mono_left fun x _ hx => ?_
  obtain rfl : x = some raw := by simpa using hx
  simpa using h

/-- Two sets of replies that exclude each other are together at most all of them. -/
theorem countP_add_le {α : Type*} {p q : α → Bool} (h : ∀ x, p x → q x = false) (l : List α) :
    l.countP p + l.countP q ≤ l.length := by
  induction l with
  | nil => simp
  | cons a l ih =>
    have ha := h a
    simp only [List.countP_cons, List.length_cons]
    cases hp : p a <;> cases hq : q a <;> simp_all <;> omega

section Majority

variable {v : RpcConsensusValidator} {raws : List (Option String)}

/-- With a majority quorum only one number can have it. -/
theorem votesFor_unique (hmajority : (v.providers.length : ℤ) < 2 * v.quorum)
    (hlen : raws.length = v.providers.length) {m n : ℤ} (hm : v.quorum ≤ votesFor raws m)
    (hn : v.quorum ≤ votesFor raws n) : m = n := by
  by_contra hne
  have hle : votesFor raws m + votesFor raws n ≤ raws.length := by
    refine countP_add_le (fun raw hraw => ?_) raws
    have hm' : raw.bind decodeVote = some m := by simpa using hraw
    simp [hm', hne]
  omega

/-- With a majority quorum only one string can have it. -/
theorem count_unique (hmajority : (v.providers.length : ℤ) < 2 * v.quorum)
    (hlen : raws.length = v.providers.length) {raw raw' : String}
    (h : v.quorum ≤ raws.count (some raw)) (h' : v.quorum ≤ raws.count (some raw')) :
    raw = raw' := by
  by_contra hne
  have hle : raws.count (some raw) + raws.count (some raw') ≤ raws.length := by
    refine countP_add_le (fun x hx => ?_) raws
    obtain rfl : x = some raw := by simpa using hx
    simpa using hne
  omega

/-- **Votes are counted by their value exactly when a quorum for a number spells it alike.** -/
theorem countedByValue_iff (hmajority : (v.providers.length : ℤ) < 2 * v.quorum)
    (hlen : raws.length = v.providers.length) : CountedByValue v raws ↔ SpelledAlike v raws := by
  constructor
  · rintro ⟨result, hresult, hreached, hvalue⟩
    rcases RpcConsensusValidator.ethCallBalanceOf_cases hlen with
      ⟨hno, result', hresult', hreached', -⟩ | ⟨raw, -, hquorum, hend⟩
    · obtain rfl := Option.some.inj (hresult.symm.trans hresult')
      refine ⟨fun n hn => ?_, fun raw hquorum => ?_⟩
      · have htrue := hreached.mpr ⟨n, hn⟩
        rw [hreached'] at htrue
        cases htrue
      · have hlt := hno raw
        omega
    · rcases hend with ⟨-, hraise⟩ | ⟨m, result', hm, hresult', -, hvalue'⟩
      · rw [hraise] at hresult
        cases hresult
      · obtain rfl := Option.some.inj (hresult.symm.trans hresult')
        refine ⟨fun n hn => ⟨raw, ?_, hquorum⟩, fun raw' hquorum' => ?_⟩
        · rw [hm, ← hvalue', hvalue n hn]
        · rw [count_unique hmajority hlen hquorum' hquorum, hm]
          rfl
  · rintro ⟨halike, hdecodes⟩
    rcases RpcConsensusValidator.ethCallBalanceOf_cases hlen with
      ⟨hno, result, hresult, hreached, -⟩ | ⟨raw, -, hquorum, hend⟩
    · have hnone : ∀ n, ¬ v.quorum ≤ votesFor raws n := by
        intro n hn
        obtain ⟨raw, -, hquorum⟩ := halike n hn
        have hlt := hno raw
        omega
      refine ⟨result, hresult, ?_, fun n hn => absurd hn (hnone n)⟩
      rw [hreached]
      exact iff_of_false Bool.false_ne_true fun ⟨n, hn⟩ => hnone n hn
    · rcases hend with ⟨hnone, -⟩ | ⟨m, result, hm, hresult, hreached, hvalue⟩
      · have hsome := hdecodes raw hquorum
        rw [hnone] at hsome
        cases hsome
      · have hquorum' : v.quorum ≤ votesFor raws m :=
          hquorum.trans (by exact_mod_cast count_le_votesFor hm)
        refine ⟨result, hresult, iff_of_true hreached ⟨m, hquorum'⟩, fun n hn => ?_⟩
        rw [hvalue, votesFor_unique hmajority hlen hquorum' hn]

end Majority

/-- The same replies, some of them in another accepted spelling of the same number. -/
def Respelled (raws raws' : List (Option String)) : Prop :=
  List.Forall₂ (fun vote vote' => vote = vote' ∨ ∃ raw raw' n, vote = some raw ∧
    vote' = some raw' ∧ isValidHexUint raw ∧ isValidHexUint raw' ∧ decodeVote raw = some n ∧
      decodeVote raw' = some n) raws raws'

/-- Two lists of replies are decided alike. -/
def SameVerdict (v : RpcConsensusValidator) (raws raws' : List (Option String)) : Prop :=
  ∃ result result', v.ethCallBalanceOf raws = some result ∧
    v.ethCallBalanceOf raws' = some result' ∧
    result'.reached = result.reached ∧ result'.value = result.value

theorem Respelled.votesFor_eq {raws raws' : List (Option String)} (h : Respelled raws raws')
    (n : ℤ) : votesFor raws' n = votesFor raws n := by
  induction h with
  | nil => rfl
  | cons hvote _ ih =>
    unfold votesFor at ih ⊢
    rw [List.countP_cons, List.countP_cons, ih]
    rcases hvote with rfl | ⟨raw, raw', m, rfl, rfl, -, -, hm, hm'⟩
    · rfl
    · simp [hm, hm']

/-- A round that reaches nothing reports no value. -/
theorem value_of_not_reached {v : RpcConsensusValidator} {raws : List (Option String)}
    (hlen : raws.length = v.providers.length) {result : ConsensusResult}
    (h : v.ethCallBalanceOf raws = some result) (hreached : result.reached = false) :
    result.value = none := by
  rcases RpcConsensusValidator.ethCallBalanceOf_cases hlen with
    ⟨-, result', hresult', -, hvalue⟩ |
    ⟨raw, -, -, ⟨-, hraise⟩ | ⟨n, result', -, hresult', htrue, -⟩⟩
  · rw [← hvalue, Option.some.inj (h.symm.trans hresult')]
  · rw [hraise] at h
    cases h
  · rw [Option.some.inj (h.symm.trans hresult'), htrue] at hreached
    cases hreached

/-- **Votes are counted by their spelling**: under the default quorum a round reports the number
that a quorum of its replies stands for exactly when a quorum also spells it alike, and another
spelling of the replies keeps the verdict exactly when that still holds. -/
theorem counted_by_value_iff {providers : List RpcProvider} {expectedChainId : ℤ}
    {v : RpcConsensusValidator}
    (hv : RpcConsensusValidator.create providers expectedChainId none = .ok v)
    {raws : List (Option String)} (hlen : raws.length = v.providers.length) :
    (CountedByValue v raws ↔ SpelledAlike v raws) ∧
      ∀ raws', Respelled raws raws' → SpelledAlike v raws →
        (SameVerdict v raws raws' ↔ SpelledAlike v raws') := by
  obtain ⟨hproviders, -, hquorum⟩ := RpcConsensusValidator.create_ok hv
  have hdefault : v.quorum = v.providers.length / 2 + 1 := by rw [hquorum, hproviders]; rfl
  have hmajority : (v.providers.length : ℤ) < 2 * v.quorum := by omega
  refine ⟨countedByValue_iff hmajority hlen, fun raws' hrespelled halike => ?_⟩
  have hlen' : raws'.length = v.providers.length := by rw [← hlen, hrespelled.length_eq]
  have hvotes := hrespelled.votesFor_eq
  rw [← countedByValue_iff hmajority hlen']
  obtain ⟨result, hresult, hreached, hvalue⟩ := (countedByValue_iff hmajority hlen).mpr halike
  constructor
  · rintro ⟨result₁, result', h₁, hresult', hreached', hvalue'⟩
    obtain rfl := Option.some.inj (hresult.symm.trans h₁)
    refine ⟨result', hresult', ?_, fun n hn => ?_⟩
    · simp only [hvotes, hreached', hreached]
    · rw [hvotes] at hn
      rw [hvalue', hvalue n hn]
  · rintro ⟨result', hresult', hreached', hvalue'⟩
    simp only [hvotes] at hreached' hvalue'
    refine ⟨result, result', hresult, hresult', Bool.eq_iff_iff.mpr ?_, ?_⟩
    · rw [hreached, hreached']
    · by_cases hn : ∃ n, v.quorum ≤ votesFor raws n
      · obtain ⟨n, hn⟩ := hn
        rw [hvalue n hn, hvalue' n hn]
      · have hfalse := Bool.eq_false_iff.mpr (mt hreached.mp hn)
        have hfalse' := Bool.eq_false_iff.mpr (mt hreached'.mp hn)
        rw [value_of_not_reached hlen hresult hfalse, value_of_not_reached hlen' hresult' hfalse']

/-- A unanimous round is spelled alike. -/
theorem spelledAlike_of_unanimous {v : RpcConsensusValidator} {raws : List (Option String)}
    {raw : String} {m : ℤ} (hraw : decodeVote raw = some m) (h : ∀ vote ∈ raws, vote = some raw) :
    SpelledAlike v raws := by
  have htwo := v.two_le_quorum
  refine ⟨fun n hn => ⟨raw, ?_, ?_⟩, fun raw' hquorum => ?_⟩
  · obtain ⟨vote, hmem, hvote⟩ := List.countP_pos_iff.mp (show 0 < votesFor raws n by omega)
    have hn : vote.bind decodeVote = some n := by simpa using hvote
    rw [h vote hmem] at hn
    exact hn
  · have hall : raws.count (some raw) = raws.length :=
      List.count_eq_length.mpr fun vote hmem => (h vote hmem).symm
    have hle : votesFor raws n ≤ raws.length := List.countP_le_length
    omega
  · have hmem : some raw' ∈ raws := List.count_pos_iff.mp (by omega)
    rw [Option.some.inj (h _ hmem), hraw]
    rfl

/-- A validator of two providers, as the constructor builds it. -/
def pairValidator : RpcConsensusValidator :=
  .ofPair ⟨"a", "https://a.example.com"⟩ ⟨"b", "https://b.example.com"⟩ 56

theorem pairValidator_eq :
    RpcConsensusValidator.create pairValidator.providers 56 none = .ok pairValidator := rfl

/-- Two providers report an empty account, one of them with an empty word. -/
theorem empty_words_split :
    isValidHexUint "0x" ∧ isValidHexUint "0x0" ∧ decodeVote "0x" = some 0 ∧
      decodeVote "0x0" = some 0 ∧
      RpcConsensusValidator.create pairValidator.providers 56 none = .ok pairValidator ∧
      (pairValidator.ethCallBalanceOf [some "0x", some "0x"]).map
        (fun result => (result.reached, result.value)) = some (true, some 0) ∧
      (pairValidator.ethCallBalanceOf [some "0x", some "0x0"]).map
        (fun result => (result.reached, result.value)) = some (false, none) := by
  refine ⟨by decide +kernel, by decide +kernel, by decide +kernel, by decide +kernel, rfl,
    by decide +kernel, by decide +kernel⟩

theorem counted_by_value_iff_pair : CountedByValue pairValidator [some "0x64", some "0x64"] ∧
    SameVerdict pairValidator [some "0x64", some "0x64"] [some "0x064", some "0x064"] := by
  have hdecode : decodeVote "0x64" = some 100 := by decide +kernel
  have hdecode' : decodeVote "0x064" = some 100 := by decide +kernel
  have halike : SpelledAlike pairValidator [some "0x64", some "0x64"] :=
    spelledAlike_of_unanimous hdecode (by simp)
  have halike' : SpelledAlike pairValidator [some "0x064", some "0x064"] :=
    spelledAlike_of_unanimous hdecode' (by simp)
  have hspelling : ∃ raw raw' n, some "0x64" = some raw ∧ some "0x064" = some raw' ∧
      isValidHexUint raw ∧ isValidHexUint raw' ∧ decodeVote raw = some n ∧
        decodeVote raw' = some n :=
    ⟨_, _, _, rfl, rfl, by decide +kernel, by decide +kernel, hdecode, hdecode'⟩
  have hrespelled : Respelled [some "0x64", some "0x64"] [some "0x064", some "0x064"] :=
    .cons (.inr hspelling) (.cons (.inr hspelling) .nil)
  obtain ⟨hvalue, hverdict⟩ := counted_by_value_iff pairValidator_eq
    (show [some "0x64", some "0x64"].length = pairValidator.providers.length from rfl)
  exact ⟨hvalue.mpr halike, (hverdict _ hrespelled halike).mpr halike'⟩

end Gateway
