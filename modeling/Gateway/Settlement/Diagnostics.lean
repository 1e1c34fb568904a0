import Gateway.Settlement.Quorum

/-!
# What a round reports of its providers

Beside its verdict a round names the providers that voted for the winner, those that voted for
something else, with their votes, and those that did not vote. In a pool whose names are distinct,
as those of every chain are (`nodup_names_buildEvmProvidersForChain`), this is an exact account:
each provider is named once, for what it did (`report_accounts`).
-/

namespace Gateway

open Foundations

/-- The names in the pool of a chain are distinct. -/
theorem nodup_names_buildEvmProvidersForChain (settings : Settings) (chain baselineUrl : String) :
    ((buildEvmProvidersForChain settings chain baselineUrl).map RpcProvider.name).Nodup := by
  unfold buildEvmProvidersForChain
  cases alchemySubdomain.lookup chain <;> cases ankrPath.lookup chain <;> simp only <;>
    split_ifs <;> simp

/-! ## Ballots -/

section Ballots

variable {names : List String} {raws : List (Option String)}

theorem mem_zip_iff {name : String} {vote : Option String} : (name, vote) ∈ names.zip raws ↔
    ∃ i : ℕ, names[i]? = some name ∧ raws[i]? = some vote := by
  simp only [List.mem_iff_getElem?, List.getElem?_zip_eq_some]

/-- The ballots are the votes, each with its voter. -/
theorem mem_ballots {raw name : String} : (raw, name) ∈ ballots names raws ↔
    ∃ i : ℕ, names[i]? = some name ∧ raws[i]? = some (some raw) := by
  rw [← mem_zip_iff, ballots, List.mem_filterMap]
  constructor
  · rintro ⟨⟨name', vote⟩, hmem, hvote⟩
    obtain ⟨raw', rfl, he⟩ := Option.map_eq_some_iff.mp hvote
    cases he
    exact hmem
  · intro hmem
    exact ⟨_, hmem, rfl⟩

/-- The names of those who did not vote. -/
def silentNames (names : List String) (raws : List (Option String)) : List String :=
  (names.zip raws).filterMap fun x => if x.2.isNone then some x.1 else none

theorem mem_silentNames {name : String} : name ∈ silentNames names raws ↔
    ∃ i : ℕ, names[i]? = some name ∧ raws[i]? = some none := by
  rw [← mem_zip_iff, silentNames, List.mem_filterMap]
  constructor
  · rintro ⟨⟨name', vote⟩, hmem, hvote⟩
    cases vote with
    | some raw => cases hvote
    | none =>
      cases hvote
      exact hmem
  · intro hmem
    exact ⟨_, hmem, rfl⟩

/-- Everybody votes or does not. -/
theorem perm_ballots (h : raws.length = names.length) :
    ((ballots names raws).map Prod.snd ++ silentNames names raws).Perm names := by
  induction raws generalizing names with
  | nil =>
    rw [List.length_nil, eq_comm, List.length_eq_zero_iff] at h
    simp [h, ballots, silentNames]
  | cons vote raws ih =>
    cases names with
    | nil => cases h
    | cons name names =>
      have ih := @ih names (by simpa using h)
      cases vote with
      | none =>
        have hsilent : silentNames (name :: names) (none :: raws) =
            name :: silentNames names raws := rfl
        rw [hsilent]
        exact List.perm_middle.trans (ih.cons name)
      | some raw =>
        have hvoted : ballots (name :: names) (some raw :: raws) =
            (raw, name) :: ballots names raws := rfl
        rw [hvoted]
        exact ih.cons name

end Ballots

/-! ## Accounts -/

/-- The report names every provider once: under those that voted for one string, which has the most
votes, under the others that voted, with their votes, or under those that did not; a value is
reported exactly when the first ones are a quorum. -/
structure Accounted (v : RpcConsensusValidator) (raws : List (Option String))
    (result : ConsensusResult) : Prop where
  perm : (result.agreeingProviders ++ result.disagreeing.map Prod.fst ++
    result.unavailable).Perm v.names
  voters : ∃ raw, ∀ (i : ℕ) name, v.names[i]? = some name →
    (name ∈ result.agreeingProviders ↔ raws[i]? = some (some raw)) ∧
    (∀ raw', (name, raw') ∈ result.disagreeing ↔ raws[i]? = some (some raw') ∧ raw' ≠ raw) ∧
    (name ∈ result.unavailable ↔ raws[i]? = some none)
  most : ∀ raw, raws.count (some raw) ≤ result.agreeingProviders.length
  responded : result.responded = result.agreeingProviders.length + result.disagreeing.length
  total : result.responded + result.unavailable.length = v.providers.length ∧
    result.totalProviders = v.providers.length
  reached : result.reached = true ↔ v.quorum ≤ result.agreeingProviders.length
  value : result.value.isSome = result.reached

section Accounts

variable {v : RpcConsensusValidator} {raws : List (Option String)}

/-- The dissent that a round reports. -/
def dissent (names : List String) (raws : List (Option String)) (winningHex : String) :
    List (String × String) :=
  (((Dict.groups (ballots names raws)).filter fun x => x.1 ≠ winningHex).flatMap
    fun x => x.2.map fun name => (name, x.1)).foldl (fun d x => Dict.insert x.1 x.2 d) []

/-- The dissenters are those who voted for something else. -/
theorem perm_dissent (hnames : v.names.Nodup) (h : raws.length = v.names.length) (raw : String) :
    (dissent v.names raws raw).Perm
      (((ballots v.names raws).filter fun x => x.1 ≠ raw).map Prod.swap) := by
  have hungroup : (((Dict.groups (ballots v.names raws)).filter fun x => x.1 ≠ raw).flatMap
      fun x => x.2.map fun name => (name, x.1)).Perm
        (((ballots v.names raws).filter fun x => x.1 ≠ raw).map Prod.swap) := by
    have hswap := Dict.ungroup_filter (fun raw' => decide (raw' ≠ raw))
      (Dict.groups (ballots v.names raws))
    have hperm := (Dict.ungroup_groups (ballots v.names raws)).filter fun x => decide (x.1 ≠ raw)
    rw [← hswap] at hperm
    have hmap := hperm.map Prod.swap
    simpa [Dict.ungroup, List.map_flatMap, Function.comp_def] using hmap
  rw [dissent, Dict.foldl_insert_of_nodup]
  · exact hungroup
  · rw [(hungroup.map Prod.fst).nodup_iff, List.map_map]
    have hvoters : ((ballots v.names raws).map Prod.snd).Nodup :=
      ((perm_ballots h).nodup_iff.mpr hnames).sublist (List.sublist_append_left _ _)
    exact hvoters.sublist (List.filter_sublist.map _)

/-- With distinct names a position is known by its name. -/
theorem vote_at (hnames : v.names.Nodup) {i : ℕ} {name : String} (hi : v.names[i]? = some name)
    (vote : Option String) :
    (∃ j : ℕ, v.names[j]? = some name ∧ raws[j]? = some vote) ↔ raws[i]? = some vote := by
  constructor
  · rintro ⟨j, hj, hvote⟩
    have hlt := (List.getElem?_eq_some_iff.mp hi).1
    rwa [(List.getElem?_inj hlt hnames).mp (hi.trans hj.symm)]
  · intro hvote
    exact ⟨i, hi, hvote⟩

/-- The report of a round in which somebody has voted. -/
theorem accounted_of_winner (hnames : v.names.Nodup) (h : raws.length = v.names.length)
    {raw : String} {voters : List String} (hw : winner v.names raws = some (raw, voters))
    {result : ConsensusResult} (hagree : result.agreeingProviders = voters)
    (hdissent : result.disagreeing = dissent v.names raws raw)
    (hsilent : result.unavailable = silentNames v.names raws)
    (hresponded : result.responded = v.providers.length - result.unavailable.length)
    (htotal : result.totalProviders = v.providers.length)
    (hreached : result.reached = true ↔ v.quorum ≤ voters.length)
    (hvalue : result.value.isSome = result.reached) : Accounted v raws result := by
  obtain ⟨hvoters, -, hmost⟩ := winner_eq_some h hw
  obtain ⟨hgroup, -⟩ := Dict.mem_groups.mp (List.argmax_mem hw)
  have hdissenters := perm_dissent hnames h raw
  -- the voters of the winner, the dissenters, and those who did not vote
  have hperm : (voters ++ (dissent v.names raws raw).map Prod.fst ++
      silentNames v.names raws).Perm v.names := by
    have hsplit : (voters ++ (dissent v.names raws raw).map Prod.fst).Perm
        ((ballots v.names raws).map Prod.snd) := by
      have hother := hdissenters.map Prod.fst
      rw [List.map_map] at hother
      rw [hgroup, Dict.valuesOf]
      refine (hother.append_left _).trans ?_
      have hparts := List.filter_append_perm (fun x : String × String => decide (x.1 = raw))
        (ballots v.names raws)
      have hmap := hparts.map Prod.snd
      rw [List.map_append] at hmap
      simpa [Function.comp_def] using hmap
    exact (hsplit.append_right _).trans (perm_ballots h)
  have hlength := hperm.length_eq
  rw [List.length_append, List.length_append, List.length_map, v.length_names] at hlength
  refine ⟨?_, ⟨raw, fun i name hi => ⟨?_, fun raw' => ?_, ?_⟩⟩, ?_, ?_, ⟨?_, htotal⟩, ?_, hvalue⟩
  · rw [hagree, hdissent, hsilent]
    exact hperm
  · rw [hagree, hgroup, ← vote_at hnames hi, ← mem_ballots]
    simp [Dict.valuesOf]
  · rw [hdissent, hdissenters.mem_iff, ← vote_at hnames hi (some raw'), ← mem_ballots]
    simp [List.mem_filter, and_comm]
  · rw [hsilent, ← vote_at hnames hi, mem_silentNames]
  · intro raw'
    rw [hagree, hvoters]
    exact hmost raw'
  · rw [hresponded, hagree, hdissent, hsilent]
    omega
  · rw [hresponded, hsilent]
    omega
  · rw [hreached, hagree]

/-- **A round accounts for all of its providers.** -/
theorem report_accounts (hnames : v.names.Nodup) (h : raws.length = v.providers.length)
    {result : ConsensusResult} (hresult : v.ethCallBalanceOf raws = some result) :
    Accounted v raws result := by
  have hlen : raws.length = v.names.length := by rw [h, v.length_names]
  have htwo := v.two_le_quorum
  unfold RpcConsensusValidator.ethCallBalanceOf at hresult
  cases hw : winner v.names raws with
  | none =>
    rw [hw] at hresult
    obtain rfl := Option.some.inj hresult
    have hnone : ∀ (i : ℕ) name raw, v.names[i]? = some name → raws[i]? ≠ some (some raw) := by
      intro i name raw _ hvote
      have hzero := winner_eq_none hlen hw raw
      rw [List.count_eq_zero] at hzero
      exact hzero (List.mem_of_getElem? hvote)
    have hballots : ballots v.names raws = [] :=
      Dict.groups_eq_nil.mp (List.argmax_eq_none.mp hw)
    have hperm := perm_ballots hlen
    rw [hballots, List.map_nil, List.nil_append] at hperm
    have hlength := hperm.length_eq
    rw [v.length_names] at hlength
    refine ⟨hperm, ⟨"", fun i name hi => ⟨?_, fun raw' => ?_, ?_⟩⟩, fun raw => ?_, ?_, ⟨?_, rfl⟩,
      ?_, rfl⟩
    · simpa using hnone i name "" hi
    · simp [hnone i name raw' hi]
    · exact mem_silentNames.trans (vote_at hnames hi none)
    · rw [winner_eq_none hlen hw raw]
      exact Nat.zero_le _
    · show v.providers.length - (silentNames v.names raws).length = 0
      omega
    · show v.providers.length - (silentNames v.names raws).length +
        (silentNames v.names raws).length = v.providers.length
      omega
    · simp
      omega
  | some x =>
    obtain ⟨raw, voters⟩ := x
    simp only [hw] at hresult
    obtain ⟨value, hvalue, rfl⟩ := Option.map_eq_some_iff.mp hresult
    refine accounted_of_winner hnames hlen hw rfl rfl rfl rfl rfl (by simp) ?_
    by_cases hreached : v.quorum ≤ (voters.length : ℤ)
    · simp only [hreached, decide_true, if_true] at hvalue ⊢
      obtain ⟨n, -, rfl⟩ := Option.map_eq_some_iff.mp hvalue
      rfl
    · simp only [hreached, decide_false, Bool.false_eq_true, if_false, Option.some.injEq]
        at hvalue ⊢
      rw [← hvalue]
      rfl

end Accounts

/-- Two providers agree, and the third one is named with its vote. -/
theorem report_accounts_liar : ∃ result,
    sampleValidator.ethCallBalanceOf [some "0x64", some "0x64", some "0x99"] = some result ∧
      result.disagreeing = [("c", "0x99")] ∧
      Accounted sampleValidator [some "0x64", some "0x64", some "0x99"] result := by
  have hrun : (sampleValidator.ethCallBalanceOf [some "0x64", some "0x64", some "0x99"]).map
      ConsensusResult.disagreeing = some [("c", "0x99")] := by
    decide +kernel
  obtain ⟨result, hresult, hdissent⟩ := Option.map_eq_some_iff.mp hrun
  exact ⟨result, hresult, hdissent, report_accounts (by decide) rfl hresult⟩

end Gateway
