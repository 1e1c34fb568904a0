import Gateway.Settlement.Spellings

/-!
# Split decisions

The constructor accepts every quorum from two on, also one that is no majority of the providers, and
then two strings can have a quorum of votes each. The winner is the one that was cast first, so that
another order of the same providers reports another balance. A decision is never split exactly when
the quorum is a majority (`no_split_decision_iff`), which the default quorum always is.
-/

namespace Gateway

open Foundations

/-! ## Orders of the providers -/

/-- What a caller acts on: whether the round reached its quorum, and the value. `none` is a round
that raises. -/
def RpcConsensusValidator.verdict (v : RpcConsensusValidator) (raws : List (Option String)) :
    Option (Bool × Option ℤ) :=
  (v.ethCallBalanceOf raws).map fun result => (result.reached, result.value)

/-- The same validator with its providers in another order, each of which keeps its outcome. -/
structure Reordered (v : RpcConsensusValidator) (raws : List (Option String))
    (v' : RpcConsensusValidator) (raws' : List (Option String)) : Prop where
  expectedChainId_eq : v'.expectedChainId = v.expectedChainId
  quorum_eq : v'.quorum = v.quorum
  length_eq : raws'.length = v'.providers.length
  perm : (v'.providers.zip raws').Perm (v.providers.zip raws)

/-- **No split decision**: beside a string that wins with a quorum no other string has one, and the
order of the providers does not matter. -/
structure NoSplitDecision (v : RpcConsensusValidator) (raws : List (Option String)) : Prop where
  undivided : ∀ value winningHex voters, v.verdict raws = some (true, value) →
    winner v.names raws = some (winningHex, voters) →
    ∀ raw, raw ≠ winningHex → (raws.count (some raw) : ℤ) < v.quorum
  unordered : ∀ v' raws', Reordered v raws v' raws' → v'.verdict raws' = v.verdict raws

/-- At most one string has a quorum of votes. -/
def SoleQuorum (v : RpcConsensusValidator) (raws : List (Option String)) : Prop :=
  ∀ raw raw', v.quorum ≤ raws.count (some raw) → v.quorum ≤ raws.count (some raw') → raw = raw'

/-- No string has more votes. -/
def MostVoted (raws : List (Option String)) (raw : String) : Prop :=
  ∀ raw', raws.count (some raw') ≤ raws.count (some raw)

section Verdict

variable {v v' : RpcConsensusValidator} {raws raws' : List (Option String)}

theorem verdict_of_no_quorum (h : raws.length = v.providers.length)
    (hno : ∀ raw, (raws.count (some raw) : ℤ) < v.quorum) :
    v.verdict raws = some (false, none) := by
  obtain ⟨result, hresult, hreached, hvalue⟩ :=
    RpcConsensusValidator.ethCallBalanceOf_of_no_quorum h hno
  rw [RpcConsensusValidator.verdict, hresult, Option.map_some, hreached, hvalue]

/-- A string that leads the votes with a quorum decides the round. -/
theorem verdict_of_leads (h : raws.length = v.providers.length) {raw : String}
    (hleads : Leads raws raw) (hquorum : v.quorum ≤ raws.count (some raw)) :
    v.verdict raws = (decodeVote raw).map fun n => (true, some n) := by
  unfold RpcConsensusValidator.verdict
  rcases RpcConsensusValidator.ethCallBalanceOf_cases h with ⟨hno, -⟩ | ⟨raw', hleads', -, hend⟩
  · have hlt := hno raw
    omega
  · obtain rfl := hleads'.unique hleads
    rcases hend with ⟨hnone, hraise⟩ | ⟨n, result, hn, hresult, hreached, hvalue⟩
    · rw [hraise, hnone]
      rfl
    · rw [hresult, hn, Option.map_some, Option.map_some, hreached, hvalue]

/-- With a quorum there is a leader, and it has the most votes. -/
theorem exists_leads (h : raws.length = v.providers.length) {raw : String}
    (hquorum : v.quorum ≤ raws.count (some raw)) :
    ∃ raw' voters, winner v.names raws = some (raw', voters) ∧ Leads raws raw' ∧
      v.quorum ≤ raws.count (some raw') := by
  obtain ⟨raw', voters, hw, hquorum'⟩ := RpcConsensusValidator.exists_winner h hquorum
  exact ⟨raw', voters, hw, leads_of_winner (by rw [h, v.length_names]) hw, hquorum'⟩

theorem Leads.mostVoted {raw : String} (h : Leads raws raw) : MostVoted raws raw := by
  intro raw'
  rcases h.2 raw' with hlt | ⟨heq, -⟩ <;> omega

theorem Reordered.perm_raws (h : Reordered v raws v' raws')
    (hlen : raws.length = v.providers.length) : raws'.Perm raws := by
  have hperm := h.perm.map Prod.snd
  rwa [List.map_snd_zip h.length_eq.le, List.map_snd_zip hlen.le] at hperm

theorem Reordered.count_eq (h : Reordered v raws v' raws')
    (hlen : raws.length = v.providers.length) (raw : String) :
    raws'.count (some raw) = raws.count (some raw) :=
  (h.perm_raws hlen).count_eq (some raw)

/-! ## Where a decision is not split -/

/-- If no two strings have a quorum, then every order of the providers decides alike. -/
theorem SoleQuorum.noSplitDecision (hsole : SoleQuorum v raws)
    (hlen : raws.length = v.providers.length) : NoSplitDecision v raws where
  undivided := by
    intro value winningHex voters hverdict hw raw hne
    by_contra hquorum
    obtain ⟨leader, _, hw', -, hleader⟩ := exists_leads hlen (not_lt.mp hquorum)
    obtain rfl : leader = winningHex := by
      rw [hw'] at hw
      exact congrArg Prod.fst (Option.some.inj hw)
    exact hne (hsole raw leader (not_lt.mp hquorum) hleader)
  unordered := by
    intro v' raws' hreordered
    have hcount := hreordered.count_eq hlen
    have hquorum_eq := hreordered.quorum_eq
    by_cases hno : ∀ raw, (raws.count (some raw) : ℤ) < v.quorum
    · have hno' : ∀ raw, (raws'.count (some raw) : ℤ) < v'.quorum := by
        intro raw
        rw [hcount, hquorum_eq]
        exact hno raw
      rw [verdict_of_no_quorum hlen hno, verdict_of_no_quorum hreordered.length_eq hno']
    · obtain ⟨raw, hquorum⟩ := not_forall.mp hno
      obtain ⟨leader, -, -, hleads, hleader⟩ := exists_leads hlen (not_lt.mp hquorum)
      have hleader' : v'.quorum ≤ raws'.count (some leader) := by rwa [hcount, hquorum_eq]
      obtain ⟨other, -, -, hleads', hother⟩ := exists_leads hreordered.length_eq hleader'
      rw [hcount, hquorum_eq] at hother
      obtain rfl := hsole leader other hleader hother
      rw [verdict_of_leads hlen hleads hleader,
        verdict_of_leads hreordered.length_eq hleads' hleader']

/-- If no string with the most votes decodes, then the round raises in every order. -/
theorem noSplitDecision_of_undecodable (hlen : raws.length = v.providers.length)
    (hraises : ∀ raw, MostVoted raws raw → decodeVote raw = none) {raw : String}
    (hquorum : v.quorum ≤ raws.count (some raw)) : NoSplitDecision v raws := by
  have hverdict : ∀ {v' : RpcConsensusValidator} {raws' : List (Option String)},
      raws'.length = v'.providers.length → v'.quorum = v.quorum →
      (∀ raw, raws'.count (some raw) = raws.count (some raw)) → v'.verdict raws' = none := by
    intro v' raws' hlen' hquorum_eq hcount
    have hquorum' : v'.quorum ≤ raws'.count (some raw) := by rwa [hcount, hquorum_eq]
    obtain ⟨leader, -, -, hleads, hleader⟩ := exists_leads hlen' hquorum'
    have hmost : MostVoted raws leader := by
      intro other
      rw [← hcount, ← hcount]
      exact hleads.mostVoted other
    rw [verdict_of_leads hlen' hleads hleader, hraises leader hmost]
    rfl
  have hraise : v.verdict raws = none := hverdict hlen rfl fun _ => rfl
  constructor
  · intro value winningHex voters hreached
    rw [hraise] at hreached
    cases hreached
  · intro v' raws' hreordered
    rw [hraise, hverdict hreordered.length_eq hreordered.quorum_eq (hreordered.count_eq hlen)]

/-! ## Where it is -/

/-- The validator with its providers in the order of a list of pairs. -/
def RpcConsensusValidator.reorder (v : RpcConsensusValidator) {raws : List (Option String)}
    (hlen : raws.length = v.providers.length) (pairs : List (RpcProvider × Option String))
    (h : pairs.Perm (v.providers.zip raws)) : RpcConsensusValidator where
  providers := pairs.map Prod.fst
  expectedChainId := v.expectedChainId
  quorum := v.quorum
  two_le_providers := by
    rw [List.length_map, h.length_eq, List.length_zip, hlen, min_self]
    exact v.two_le_providers
  two_le_quorum := v.two_le_quorum

theorem reordered_reorder (hlen : raws.length = v.providers.length)
    {pairs : List (RpcProvider × Option String)} (h : pairs.Perm (v.providers.zip raws)) :
    Reordered v raws (v.reorder hlen pairs h) (pairs.map Prod.snd) where
  expectedChainId_eq := rfl
  quorum_eq := rfl
  length_eq := by simp [RpcConsensusValidator.reorder]
  perm := by
    have hzip : pairs = (pairs.map Prod.fst).zip (pairs.map Prod.snd) := List.zip_of_prod rfl rfl
    rw [RpcConsensusValidator.reorder, ← hzip]
    exact h

/-- A string with the most votes leads them in some order of the providers. -/
theorem MostVoted.exists_reordered {raw : String} (hmost : MostVoted raws raw)
    (hlen : raws.length = v.providers.length) (hpos : 0 < raws.count (some raw)) :
    ∃ v' raws', Reordered v raws v' raws' ∧ Leads raws' raw := by
  let first : RpcProvider × Option String → Bool := fun x => x.2 == some raw
  let pairs := v.providers.zip raws
  have hperm : (pairs.filter first ++ pairs.filter fun x => !first x).Perm pairs :=
    List.filter_append_perm first pairs
  refine ⟨_, _, reordered_reorder hlen hperm, ?_⟩
  have hcount := (reordered_reorder hlen hperm).count_eq hlen
  refine ⟨by rwa [hcount], fun raw' => ?_⟩
  rw [hcount, hcount]
  rcases (hmost raw').lt_or_eq with hlt | heq
  · exact .inl hlt
  · refine .inr ⟨heq, ?_⟩
    -- the first vote is one for `raw`
    have hmem : some raw ∈ pairs.map Prod.snd := by
      rw [List.map_snd_zip hlen.le]
      exact List.count_pos_iff.mp hpos
    obtain ⟨⟨p, vote⟩, hpair, rfl : vote = some raw⟩ := List.mem_map.mp hmem
    have hfilter : (p, some raw) ∈ pairs.filter first :=
      List.mem_filter.mpr ⟨hpair, beq_self_eq_true (some raw)⟩
    cases hvotes : pairs.filter first with
    | nil =>
      rw [hvotes] at hfilter
      cases hfilter
    | cons x xs =>
      have hx : x ∈ pairs.filter first := by
        rw [hvotes]
        exact List.mem_cons_self
      obtain hx : x.2 = some raw := beq_iff_eq.mp (List.mem_filter.mp hx).2
      rw [List.cons_append, List.map_cons, hx, List.reduceOption_cons_of_some,
        List.idxOf_cons_self]
      exact Nat.zero_le _

/-- Two strings with a quorum split the decision, unless all that can win raise. -/
theorem NoSplitDecision.sole_or_undecodable (h : NoSplitDecision v raws)
    (hlen : raws.length = v.providers.length) :
    SoleQuorum v raws ∨ ∀ raw, MostVoted raws raw → decodeVote raw = none := by
  by_contra hsplit
  rw [not_or] at hsplit
  obtain ⟨hsole, hdecodes⟩ := hsplit
  refine hsole fun raw₁ raw₂ hquorum₁ hquorum₂ => ?_
  obtain ⟨raw, hraw⟩ := not_forall.mp hdecodes
  obtain ⟨hmost, hne⟩ := Classical.not_imp.mp hraw
  obtain ⟨n, hn⟩ := Option.ne_none_iff_exists'.mp hne
  have htwo := v.two_le_quorum
  have hle := hmost raw₁
  obtain ⟨v', raws', hreordered, hleads⟩ := hmost.exists_reordered hlen (by omega)
  have hquorum' : v'.quorum ≤ raws'.count (some raw) := by
    rw [hreordered.quorum_eq, hreordered.count_eq hlen]
    omega
  have hverdict : v.verdict raws = some (true, some n) := by
    rw [← h.unordered v' raws' hreordered,
      verdict_of_leads hreordered.length_eq hleads hquorum', hn]
    rfl
  obtain ⟨leader, voters, hw, -⟩ := exists_leads hlen hquorum₁
  have hleader : ∀ raw, v.quorum ≤ raws.count (some raw) → raw = leader := by
    intro raw hquorum
    by_contra hother
    have hlt := h.undivided _ leader voters hverdict hw raw hother
    omega
  rw [hleader raw₁ hquorum₁, hleader raw₂ hquorum₂]

end Verdict

/-- Two strings with a quorum each, when the quorum is no majority. -/
def splitVotes (v : RpcConsensusValidator) : List (Option String) :=
  List.replicate v.quorum.toNat (some "0x1") ++ List.replicate v.quorum.toNat (some "0x2") ++
    List.replicate (v.providers.length - 2 * v.quorum.toNat) none

theorem count_splitVotes (v : RpcConsensusValidator) (raw : String) :
    (splitVotes v).count (some raw) =
      (if raw = "0x1" then v.quorum.toNat else 0) + if raw = "0x2" then v.quorum.toNat else 0 := by
  unfold splitVotes
  simp only [List.count_append, List.count_replicate, beq_iff_eq, Option.some.injEq,
    reduceCtorEq, if_false, Nat.add_zero, eq_comm (b := raw)]

/-- **No decision is split exactly when the quorum is a majority of the providers.** For one
assignment of outcomes it is not split exactly when at most one string has a quorum of votes, or
when no string with the most votes decodes, so that every order raises. -/
theorem no_split_decision_iff (v : RpcConsensusValidator) :
    ((∀ raws : List (Option String), raws.length = v.providers.length → NoSplitDecision v raws) ↔
      (v.providers.length : ℤ) < 2 * v.quorum) ∧
    ∀ raws : List (Option String), raws.length = v.providers.length →
      (NoSplitDecision v raws ↔
        SoleQuorum v raws ∨ ∀ raw, MostVoted raws raw → decodeVote raw = none) := by
  have hsplit : ∀ raws : List (Option String), raws.length = v.providers.length →
      (NoSplitDecision v raws ↔
        SoleQuorum v raws ∨ ∀ raw, MostVoted raws raw → decodeVote raw = none) := by
    intro raws hlen
    refine ⟨fun h => h.sole_or_undecodable hlen, ?_⟩
    rintro (hsole | hraises)
    · exact hsole.noSplitDecision hlen
    · by_cases hno : SoleQuorum v raws
      · exact hno.noSplitDecision hlen
      · obtain ⟨raw, hraw⟩ := not_forall.mp hno
        obtain ⟨raw', hraw'⟩ := not_forall.mp hraw
        obtain ⟨hquorum, -⟩ := Classical.not_imp.mp hraw'
        exact noSplitDecision_of_undecodable hlen hraises hquorum
  refine ⟨⟨fun hall => ?_, fun hmajority raws hlen => ?_⟩, hsplit⟩
  · by_contra hminority
    have htwo := v.two_le_quorum
    have hlen : (splitVotes v).length = v.providers.length := by
      simp only [splitVotes, List.length_append, List.length_replicate]
      omega
    have hone : (splitVotes v).count (some "0x1") = v.quorum.toNat := by simp [count_splitVotes]
    have hother : (splitVotes v).count (some "0x2") = v.quorum.toNat := by simp [count_splitVotes]
    rcases (hsplit _ hlen).mp (hall _ hlen) with hsole | hraises
    · have heq := hsole "0x1" "0x2" (by omega) (by omega)
      exact absurd heq (by decide)
    · have hmost : MostVoted (splitVotes v) "0x1" := by
        intro raw
        rw [hone, count_splitVotes]
        split_ifs <;> simp_all
      have hdecode : decodeVote "0x1" = some 1 := by decide +kernel
      rw [hraises "0x1" hmost] at hdecode
      cases hdecode
  · refine (hsplit raws hlen).mpr (.inl fun raw raw' => ?_)
    exact count_unique hmajority hlen

/-- The default quorum splits no decision. -/
theorem noSplitDecision_of_default {providers : List RpcProvider} {expectedChainId : ℤ}
    {v : RpcConsensusValidator}
    (hv : RpcConsensusValidator.create providers expectedChainId none = .ok v)
    {raws : List (Option String)} (hlen : raws.length = v.providers.length) :
    NoSplitDecision v raws := by
  obtain ⟨hproviders, -, hquorum⟩ := RpcConsensusValidator.create_ok hv
  have hdefault : v.quorum = v.providers.length / 2 + 1 := by rw [hquorum, hproviders]; rfl
  have hsole : SoleQuorum v raws := fun raw raw' => count_unique (by omega) hlen
  exact hsole.noSplitDecision hlen

/-- Four providers, two of which are a quorum. -/
def quartet : List RpcProvider :=
  [⟨"a", "https://a.example.com"⟩, ⟨"b", "https://b.example.com"⟩,
    ⟨"c", "https://c.example.com"⟩, ⟨"d", "https://d.example.com"⟩]

/-- Two against two: a quorum each, and the first pair of providers in the list wins. -/
theorem two_of_four_split :
    ∃ v, RpcConsensusValidator.create quartet 56 (some 2) = .ok v ∧
      ¬ NoSplitDecision v [some "0x1", some "0x1", some "0x2", some "0x2"] ∧
      v.verdict [some "0x1", some "0x1", some "0x2", some "0x2"] = some (true, some 1) ∧
      ((RpcConsensusValidator.create quartet.reverse 56 (some 2)).toOption.bind fun v =>
        v.verdict [some "0x2", some "0x2", some "0x1", some "0x1"]) = some (true, some 2) := by
  let v : RpcConsensusValidator := ⟨quartet, 56, 2, by decide, by decide⟩
  have hverdict : v.verdict [some "0x1", some "0x1", some "0x2", some "0x2"] =
      some (true, some 1) := by decide +kernel
  have hwinner : winner v.names [some "0x1", some "0x1", some "0x2", some "0x2"] =
      some ("0x1", ["a", "b"]) := by decide +kernel
  refine ⟨v, rfl, fun h => ?_, hverdict, by decide +kernel⟩
  have hlt := h.undivided _ _ _ hverdict hwinner "0x2" (by decide)
  have htwo : List.count (some "0x2") [some "0x1", some "0x1", some "0x2", some "0x2"] = 2 := by
    decide
  rw [htwo] at hlt
  exact absurd hlt (by decide)

end Gateway
