import Mathlib.Algebra.BigOperators.Ring.Finset
import Mathlib.Algebra.Order.BigOperators.Group.Finset
import Gateway.Settlement.Quorum
import Gateway.Settlement.RateLimit

/-!
# How many rounds can reach a quorum

Every vote costs a token of its provider's bucket, and all rounds of the process draw from the same
buckets. So the rounds that reach a quorum within some time are bounded by the buckets, whatever is
asked for meanwhile and in whatever order (`reached_rounds_le`): with two providers, no more than
eight at once and eight in a second.
-/

namespace Gateway

open Foundations

/-! ## Votes and tokens -/

/-- The query at a position has been sent, and has not failed. -/
def ActiveRound.Asked (round : ActiveRound) (i : ℕ) : Prop :=
  round.stage i = .asking ∨ ∃ raw, round.stage i = .answered (some raw)

namespace Rounds

variable {s s' : Rounds} {r : RoundId} {i : ℕ} {round : ActiveRound} {p : RpcProvider}

theorem draws_append (name : String) (s : Rounds) (es fs : List RoundEvent) :
    s.draws name (es ++ fs) =
      s.draws name es ++ (exec step s es).elim [] fun s' => s'.draws name fs := by
  induction es generalizing s with
  | nil => rfl
  | cons e es ih =>
    rw [List.cons_append, draws, draws, exec_cons]
    cases hs : s.step e with
    | none => simp
    | some t =>
      simp only [Option.elim_some, Option.bind_some]
      rw [ih t, List.append_assoc]

/-- A query that has been sent was sent before the event, or the event has drawn a token for it. -/
theorem asked_of_step {e : RoundEvent} (h : s.step e = some s') (hr : s'.active r = some round)
    (hasked : round.Asked i) (hp : round.validator.providers[i]? = some p) :
    (∃ round₀, s.active r = some round₀ ∧ round₀.Asked i ∧
      round₀.validator = round.validator) ∨
    ∃ t, e = .start r i t ∧ s.drawAt p.name e = some ⟨r, i, t.drawn, true⟩ := by
  cases e with
  | call r' v contractAddress holderAddress =>
    simp only [step] at h
    split_ifs at h
    cases h
    by_cases hrr : r = r'
    · subst hrr
      simp only [Function.update_self, Option.some.injEq] at hr
      subst hr
      rcases hasked with hstage | ⟨raw, hstage⟩ <;> cases hstage
    · simp only [Function.update_of_ne hrr] at hr
      exact .inl ⟨round, hr, hasked, rfl⟩
  | start r' j t =>
    obtain ⟨⟨round₀, p₀⟩, hquery, h⟩ := Option.bind_eq_some_iff.mp h
    obtain ⟨hround₀, -, hp₀⟩ := queryAt_eq_some hquery
    simp only at h
    split_ifs at h
    cases h
    by_cases hrr : r = r'
    · subst hrr
      simp only [Rounds.start, Function.update_self, Option.some.injEq] at hr
      subst hr
      by_cases hij : i = j
      · subst hij
        obtain rfl : p₀ = p := Option.some.inj (hp₀.symm.trans hp)
        refine .inr ⟨t, rfl, (drawAt_admitted hquery).mp ?_⟩
        unfold ActiveRound.Asked at hasked
        simp only [ActiveRound.setStage, Function.update_self] at hasked
        by_contra hnot
        simp [if_neg hnot] at hasked
      · refine .inl ⟨round₀, hround₀, ?_, rfl⟩
        simpa only [ActiveRound.Asked, ActiveRound.setStage, Function.update_of_ne hij] using hasked
    · simp only [Rounds.start, Function.update_of_ne hrr] at hr
      exact .inl ⟨round, hr, hasked, rfl⟩
  | finish r' j client now =>
    obtain ⟨⟨round₀, p₀⟩, hquery, h⟩ := Option.bind_eq_some_iff.mp h
    obtain ⟨hround₀, hstage₀, -⟩ := queryAt_eq_some hquery
    simp only at h
    split_ifs at h
    cases h
    by_cases hrr : r = r'
    · subst hrr
      simp only [Rounds.finish, Function.update_self, Option.some.injEq] at hr
      subst hr
      refine .inl ⟨round₀, hround₀, ?_, rfl⟩
      by_cases hij : i = j
      · subst hij
        exact .inl hstage₀
      · simpa only [ActiveRound.Asked, ActiveRound.setStage, Function.update_of_ne hij] using hasked
    · simp only [Rounds.finish, Function.update_of_ne hrr] at hr
      exact .inl ⟨round, hr, hasked, rfl⟩

/-- **A vote has cost a token** of its provider's name. -/
theorem exists_draw_of_asked {es : List RoundEvent} (h : exec step initial es = some s)
    (hr : s.active r = some round) (hasked : round.Asked i)
    (hp : round.validator.providers[i]? = some p) :
    ∃ t, .start r i t ∈ es ∧ ⟨r, i, t.drawn, true⟩ ∈ initial.draws p.name es := by
  induction es using List.reverseRecOn generalizing s round with
  | nil =>
    obtain rfl : initial = s := Option.some.inj h
    cases hr
  | append_singleton es e ih =>
    rw [exec_append] at h
    obtain ⟨s₀, hs₀, h⟩ := Option.bind_eq_some_iff.mp h
    have hstep : s₀.step e = some s := by simpa using h
    have hdraws : initial.draws p.name (es ++ [e]) =
        initial.draws p.name es ++ (s₀.drawAt p.name e).toList := by
      rw [draws_append, hs₀, Option.elim_some, draws, hstep, Option.elim_some, draws,
        List.append_nil]
    rw [hdraws]
    rcases asked_of_step hstep hr hasked hp with ⟨round₀, hround₀, hasked₀, hv⟩ | ⟨t, rfl, hdraw⟩
    · obtain ⟨t, ht, hmem⟩ := ih hs₀ hround₀ hasked₀ (hv ▸ hp)
      exact ⟨t, List.mem_append_left _ ht, List.mem_append_left _ hmem⟩
    · exact ⟨t, by simp, by simp [hdraw]⟩

/-! ## Rounds and buckets -/

/-- A round that has reached its quorum, of at least `k` of these providers. -/
def Reaches (names : Finset String) (k : ℕ) (s : Rounds) (r : RoundId) : Prop :=
  ∃ round raws result, s.active r = some round ∧ round.results = some raws ∧
    round.validator.ethCallBalanceOf raws = some result ∧ result.reached = true ∧
    (∀ p ∈ round.validator.providers, p.name ∈ names) ∧ (k : ℤ) ≤ round.validator.quorum

/-- The positions of the rounds that have drawn a token of a name in a window. -/
def paidIn (name : String) (start stop : ℚ) (es : List RoundEvent) : Finset (RoundId × ℕ) :=
  ((initial.admittedIn name start stop es).map fun d => (d.round, d.position)).toFinset

/-- A round that reaches its quorum has that many positions which have drawn a token. -/
theorem Reaches.exists_positions {names : Finset String} {k : ℕ} {es : List RoundEvent}
    (h : exec step initial es = some s) (hr : s.Reaches names k r) {start stop : ℚ}
    (hwindow : ∀ i t, .start r i t ∈ es → start ≤ t.drawn ∧ t.drawn ≤ stop) :
    ∃ positions : Finset ℕ, k ≤ positions.card ∧
      ∀ i ∈ positions, ∃ name ∈ names, (r, i) ∈ paidIn name start stop es := by
  obtain ⟨round, raws, result, hround, hraws, hresult, hreached, hnames, hk⟩ := hr
  obtain ⟨hlen, -⟩ := ActiveRound.results_eq_some hraws
  by_cases hquorum : ∃ raw, round.validator.quorum ≤ raws.count (some raw)
  · obtain ⟨raw, hquorum⟩ := hquorum
    refine ⟨round.voters raw, ?_, fun i hi => ?_⟩
    · rw [ActiveRound.card_voters hraws]
      omega
    · obtain ⟨hi, hvote⟩ := ActiveRound.mem_voters.mp hi
      have hp := List.getElem?_eq_getElem hi
      obtain ⟨t, ht, hmem⟩ := exists_draw_of_asked h hround (.inr ⟨raw, hvote⟩) hp
      refine ⟨_, hnames _ (List.getElem_mem hi), ?_⟩
      obtain ⟨hstart, hstop⟩ := hwindow i t ht
      rw [paidIn, List.mem_toFinset, List.mem_map]
      refine ⟨⟨r, i, t.drawn, true⟩, List.mem_filter.mpr ⟨hmem, ?_⟩, rfl⟩
      simp [hstart, hstop]
  · push Not at hquorum
    obtain ⟨result', hresult', hnot, -⟩ :=
      RpcConsensusValidator.ethCallBalanceOf_of_no_quorum hlen hquorum
    rw [hresult] at hresult'
    obtain rfl := Option.some.inj hresult'
    rw [hreached] at hnot
    cases hnot

/-- The buckets bound the positions that draw from them. -/
theorem card_biUnion_paidIn_le {es : List RoundEvent} (h : exec step initial es = some s)
    (names : Finset String) {start stop : ℚ} (hle : start ≤ stop) :
    (((names.biUnion fun name => paidIn name start stop es).card : ℕ) : ℚ) ≤
      names.card * (rateLimitBurst + (stop - start) * rateLimitPerSecond) := by
  have hname : ∀ name ∈ names, ((paidIn name start stop es).card : ℚ) ≤
      rateLimitBurst + (stop - start) * rateLimitPerSecond := by
    intro name _
    have hcard : (paidIn name start stop es).card ≤
        (initial.admittedIn name start stop es).length := by
      rw [paidIn, ← List.length_map fun d : TokenDraw => (d.round, d.position)]
      exact List.toFinset_card_le _
    have hbucket := length_admittedIn_le refilledBefore_initial (fun _ => rfl) h name hle
    exact (Nat.cast_le.mpr hcard).trans hbucket
  calc (((names.biUnion fun name => paidIn name start stop es).card : ℕ) : ℚ)
      ≤ ∑ name ∈ names, ((paidIn name start stop es).card : ℚ) := by
        rw [← Nat.cast_sum]
        exact Nat.cast_le.mpr Finset.card_biUnion_le
    _ ≤ names.card * (rateLimitBurst + (stop - start) * rateLimitPerSecond) := by
        rw [← nsmul_eq_mul]
        exact Finset.sum_le_card_nsmul names _ _ hname

end Rounds

/-- **The rate limit bounds the decisions.** In every run, with any rounds of any validators in
flight: of the rounds that are asked within a window, no more reach a quorum of `k` than the buckets
of their providers' names have tokens for, which is eight for each name and eight more for each
second of the window, divided by `k`. -/
theorem reached_rounds_le {es : List RoundEvent} {s : Rounds}
    (h : exec Rounds.step Rounds.initial es = some s) {R : Finset RoundId} {names : Finset String}
    {k : ℕ} (hR : ∀ r ∈ R, s.Reaches names k r) {start stop : ℚ} (hle : start ≤ stop)
    (hwindow : ∀ r ∈ R, ∀ i t, .start r i t ∈ es → start ≤ t.drawn ∧ t.drawn ≤ stop) :
    (k * R.card : ℚ) ≤ names.card * (8 + 8 * (stop - start)) := by
  have hpositions : ∀ r : R, ∃ positions : Finset ℕ, k ≤ positions.card ∧
      ∀ i ∈ positions, ∃ name ∈ names, (r.1, i) ∈ Rounds.paidIn name start stop es :=
    fun r => (hR r.1 r.2).exists_positions h (hwindow r.1 r.2)
  choose positions hcard hpaid using hpositions
  -- the positions of all rounds have drawn from the buckets
  have hsub : (R.attach.sigma positions).image (fun x => (x.1.1, x.2)) ⊆
      names.biUnion fun name => Rounds.paidIn name start stop es := by
    intro x hx
    obtain ⟨⟨r, i⟩, hi, rfl⟩ := Finset.mem_image.mp hx
    obtain ⟨name, hname, hmem⟩ := hpaid r i (Finset.mem_sigma.mp hi).2
    exact Finset.mem_biUnion.mpr ⟨name, hname, hmem⟩
  have hinj : Function.Injective fun x : (Σ _ : R, ℕ) => (x.1.1, x.2) := by
    rintro ⟨⟨r, hr⟩, i⟩ ⟨⟨r', hr'⟩, i'⟩ he
    obtain ⟨rfl, rfl⟩ := Prod.mk.inj he
    rfl
  have hsum : k * R.card ≤ ∑ r ∈ R.attach, (positions r).card := by
    calc k * R.card = ∑ _r ∈ R.attach, k := by simp [mul_comm]
      _ ≤ ∑ r ∈ R.attach, (positions r).card := Finset.sum_le_sum fun r _ => hcard r
  have htotal : k * R.card ≤ (names.biUnion fun name => Rounds.paidIn name start stop es).card := by
    rw [← Finset.card_sigma, ← Finset.card_image_of_injective _ hinj] at hsum
    exact hsum.trans (Finset.card_le_card hsub)
  have hbuckets := Rounds.card_biUnion_paidIn_le h names hle
  calc (k * R.card : ℚ)
      ≤ ((names.biUnion fun name => Rounds.paidIn name start stop es).card : ℕ) := by
        exact_mod_cast htotal
    _ ≤ names.card * (rateLimitBurst + (stop - start) * rateLimitPerSecond) := hbuckets
    _ = names.card * (8 + 8 * (stop - start)) := by
        rw [rateLimitBurst, rateLimitPerSecond, mul_comm (stop - start)]

/-- The sample round, by the buckets of its three names. -/
theorem reached_rounds_le_sample :
    ((2 : ℕ) * ({0} : Finset RoundId).card : ℚ) ≤
      ({"a", "b", "c"} : Finset String).card * (8 + 8 * (1 - 0)) := by
  obtain ⟨s, round, hs, hround, hraws, hv, -⟩ := exec_sampleRound
  refine reached_rounds_le hs (fun r hr => ?_) (by norm_num) fun r _ i t ht => ?_
  · obtain rfl := Finset.mem_singleton.mp hr
    have hresult : ((sampleValidator.ethCallBalanceOf [some "0x64", some "0x64", some "0x99"]).map
        ConsensusResult.reached) = some true := by
      decide +kernel
    obtain ⟨result, hresult, hreached⟩ := Option.map_eq_some_iff.mp hresult
    refine ⟨round, _, result, hround, hraws, by rw [hv]; exact hresult, hreached, ?_, ?_⟩
    · rw [hv]
      decide
    · rw [hv]
      decide
  · have hdrawn : t = .at 0 := by
      simp [sampleRound] at ht
      tauto
    rw [hdrawn]
    norm_num [Readings.at]

end Gateway
