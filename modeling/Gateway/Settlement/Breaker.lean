import Gateway.Settlement.EvmCheck

/-!
# Circuit breakers

The state of a circuit breaker is kept under the name of a provider. In every run a query is skipped
by it exactly when the last queries under its name have failed, five at least, and the last of them
less than a minute ago (`RoundsHold.skips_iff`). The pools of the chains give the same names to
different endpoints: a breaker follows an endpoint's own record in every run exactly when no two
endpoints of the validators in use share a name (`circuits_follow_endpoints_iff`).
-/

namespace Gateway

open Foundations

/-! ## Records -/

/-- The queries under a name, the last one first. -/
def Rounds.recordsNamed (s : Rounds) (name : String) : List QueryRecord :=
  s.history.filter fun q => q.provider.name = name

/-- The queries of an endpoint, the last one first. -/
def Rounds.recordsOf (s : Rounds) (p : RpcProvider) : List QueryRecord :=
  s.history.filter fun q => q.provider = p

/-- The failures since the last success. -/
def failuresSince (records : List QueryRecord) : List QueryRecord :=
  records.takeWhile fun q => !q.succeeded

/-- There have been enough failures since the last success, and the last one is recent. -/
def FailingAt (now : ℚ) (records : List QueryRecord) : Prop :=
  failureThreshold ≤ (failuresSince records).length ∧
    (failuresSince records).head?.any fun last => now < last.time + cooldownSeconds

instance (now : ℚ) (records : List QueryRecord) : Decidable (FailingAt now records) :=
  inferInstanceAs (Decidable (_ ∧ _))

/-- A state's breaker says what the records say. -/
structure BreakerOf (records : List QueryRecord) (st : ProviderState) : Prop where
  failures : st.consecutiveFailures = (failuresSince records).length
  closed : (failuresSince records).length < failureThreshold → st.circuitOpenUntil = 0
  opened : failureThreshold ≤ (failuresSince records).length →
    ∃ last ∈ (failuresSince records).head?, st.circuitOpenUntil = last.time + cooldownSeconds

namespace BreakerOf

variable {records : List QueryRecord} {st : ProviderState}

theorem fresh (now : ℚ) : BreakerOf [] (.fresh now) where
  failures := rfl
  closed := fun _ => rfl
  opened := fun h => absurd h (by decide)

theorem gate (h : BreakerOf records st) (t : Readings) : BreakerOf records (st.gate t).2 := by
  obtain ⟨hfailures, huntil⟩ := ProviderState.gate_breaker t st
  refine ⟨by rw [hfailures, h.failures], fun hlt => ?_, fun hle => ?_⟩
  · rw [huntil, h.closed hlt]
  · rw [huntil]
    exact h.opened hle

theorem recordFailure (h : BreakerOf records st) (p : RpcProvider) (now : ℚ) :
    BreakerOf (⟨p, false, now⟩ :: records) (st.recordFailure now) := by
  have hcount : failuresSince (⟨p, false, now⟩ :: records) =
      ⟨p, false, now⟩ :: failuresSince records := by
    simp [failuresSince]
  have hfailures := h.failures
  simp only [ProviderState.recordFailure]
  constructor
  · rw [hcount, List.length_cons, ← hfailures]
    split_ifs <;> rfl
  · intro hlt
    rw [hcount, List.length_cons, ← hfailures] at hlt
    rw [if_neg (not_le.mpr hlt)]
    exact h.closed (by omega)
  · intro hle
    rw [hcount, List.length_cons, ← hfailures] at hle
    rw [hcount, if_pos hle]
    exact ⟨_, rfl, rfl⟩

/-- Recording a query keeps the breaker in step with the records. -/
theorem record (h : BreakerOf records st) (p : RpcProvider) (outcome : Outcome) (now : ℚ) :
    BreakerOf (⟨p, outcome.raw.isSome, now⟩ :: records) (st.record now outcome) := by
  cases outcome with
  | vote raw =>
    have hcount : failuresSince (⟨p, true, now⟩ :: records) = [] := by simp [failuresSince]
    refine ⟨?_, fun _ => rfl, fun hle => ?_⟩
    · show 0 = (failuresSince (⟨p, true, now⟩ :: records)).length
      rw [hcount]
      rfl
    · change failureThreshold ≤ (failuresSince (⟨p, true, now⟩ :: records)).length at hle
      rw [hcount] at hle
      exact absurd hle (by decide)
  | wrongChain => exact h.recordFailure p now
  | failed => exact h.recordFailure p now

theorem circuitIsOpen_iff (h : BreakerOf records st) {now : ℚ} (hnow : 0 ≤ now) :
    st.circuitIsOpen now ↔ FailingAt now records := by
  unfold ProviderState.circuitIsOpen FailingAt
  rw [decide_eq_true_eq]
  rcases lt_or_ge (failuresSince records).length failureThreshold with hlt | hle
  · rw [h.closed hlt]
    exact iff_of_false (not_lt.mpr hnow) fun hfailing => absurd hfailing.1 (not_le.mpr hlt)
  · obtain ⟨last, hlast, huntil⟩ := h.opened hle
    rw [Option.mem_def] at hlast
    simp [huntil, hlast, hle]

end BreakerOf

/-! ## The breaker of a name -/

/-- Every breaker says what the records of its name say. -/
structure RoundsHold (s : Rounds) : Prop where
  clock_nonneg : 0 ≤ s.clock
  asked : ∀ {r i round p}, s.queryAt r i .asking = some (round, p) → (s.states p.name).isSome
  breaker : ∀ name now, BreakerOf (s.recordsNamed name) (stateFor s.states name now)

/-- The query of a round whose stage has not been set is the one it was. -/
theorem Rounds.queryAt_setStage {s s' : Rounds} {r r' : RoundId} {i j : ℕ} {round : ActiveRound}
    {stage asked : QueryStage} (hr : s.active r = some round)
    (hactive : s'.active = Function.update s.active r (some (round.setStage i stage)))
    {x : ActiveRound × RpcProvider} (h : s'.queryAt r' j asked = some x) :
    (r' = r ∧ j = i ∧ stage = asked ∧ round.validator.providers[i]? = some x.2) ∨
      ∃ round', s.queryAt r' j asked = some (round', x.2) := by
  obtain ⟨round', p⟩ := x
  obtain ⟨hround', hstage, hp⟩ := Rounds.queryAt_eq_some h
  rw [hactive] at hround'
  by_cases hrr : r' = r
  · subst hrr
    rw [Function.update_self] at hround'
    obtain rfl := Option.some.inj hround'
    by_cases hij : j = i
    · subst hij
      simp only [ActiveRound.setStage, Function.update_self] at hstage
      exact .inl ⟨rfl, rfl, hstage, hp⟩
    · simp only [ActiveRound.setStage, Function.update_of_ne hij] at hstage
      refine .inr ⟨round, ?_⟩
      rw [Rounds.queryAt, hr, Option.bind_some, if_pos hstage]
      exact congrArg (Option.map _) hp
  · rw [Function.update_of_ne hrr] at hround'
    refine .inr ⟨round', ?_⟩
    rw [Rounds.queryAt, hround', Option.bind_some, if_pos hstage]
    exact congrArg (Option.map _) hp

/-- The invariant holds at the start. -/
theorem RoundsHold.initial : RoundsHold .initial where
  clock_nonneg := le_rfl
  asked := by
    intro r i round p h
    cases h
  breaker := fun _ now => BreakerOf.fresh now

/-- Replacing the state of one name. -/
theorem stateFor_update (states : ProviderStates) (name name' : String) (st : ProviderState)
    (now : ℚ) : stateFor (Function.update states name (some st)) name' now =
      if name' = name then st else stateFor states name' now := by
  by_cases hname : name' = name
  · simp [stateFor, hname]
  · simp [stateFor, hname]

/-- **Every event keeps the breakers in step with the records.** -/
theorem RoundsHold.step {s s' : Rounds} {e : RoundEvent} (h : RoundsHold s)
    (hs : Rounds.step s e = some s') : RoundsHold s' := by
  cases e with
  | call r v contractAddress holderAddress =>
    simp only [Rounds.step] at hs
    split_ifs at hs with hfree
    cases hs
    refine ⟨h.clock_nonneg, fun {r' i round p} hquery => ?_, h.breaker⟩
    obtain ⟨hround, hstage, hp⟩ := Rounds.queryAt_eq_some hquery
    by_cases hrr : r' = r
    · subst hrr
      simp only [Function.update_self, Option.some.injEq] at hround
      subst hround
      cases hstage
    · simp only [Function.update_of_ne hrr] at hround
      have hold : s.queryAt r' i .asking = some (round, p) := by
        rw [Rounds.queryAt, hround, Option.bind_some, if_pos hstage, hp]
        rfl
      exact h.asked hold
  | start r i t =>
    obtain ⟨⟨round, p⟩, hquery, hs⟩ := Option.bind_eq_some_iff.mp hs
    obtain ⟨hround, -, hp⟩ := Rounds.queryAt_eq_some hquery
    simp only at hs
    split_ifs at hs with hclock
    cases hs
    refine ⟨?_, fun {r' j round' p'} hquery' => ?_, fun name now => ?_⟩
    · exact h.clock_nonneg.trans (hclock.trans (t.created_le.trans t.checked_le))
    · by_cases hname : p'.name = p.name
      · simp [Rounds.start, hname]
      · rcases Rounds.queryAt_setStage hround rfl hquery' with ⟨-, -, -, hp'⟩ | ⟨round'', hold⟩
        · rw [hp] at hp'
          exact absurd (congrArg RpcProvider.name (Option.some.inj hp')).symm hname
        · simpa only [Rounds.start, Function.update_of_ne hname] using h.asked hold
    · have hrecords : (s.start r round i p t).recordsNamed name = s.recordsNamed name := rfl
      have hstates : (s.start r round i p t).states = Function.update s.states p.name
          (some ((stateFor s.states p.name t.created).gate t).2) := rfl
      rw [hrecords, hstates, stateFor_update]
      split_ifs with hname
      · subst hname
        exact (h.breaker p.name t.created).gate t
      · exact h.breaker name now
  | finish r i client now =>
    obtain ⟨⟨round, p⟩, hquery, hs⟩ := Option.bind_eq_some_iff.mp hs
    obtain ⟨hround, -, hp⟩ := Rounds.queryAt_eq_some hquery
    simp only at hs
    split_ifs at hs with hclock
    cases hs
    obtain ⟨st, hst⟩ := Option.isSome_iff_exists.mp (h.asked hquery)
    have hstates : (s.finish r round i p client now).states =
        Function.update s.states p.name (some (st.record now (round.ask client))) := by
      rw [Rounds.finish, hst]
      rfl
    refine ⟨h.clock_nonneg.trans hclock, fun {r' j round' p'} hquery' => ?_, fun name at' => ?_⟩
    · by_cases hname : p'.name = p.name
      · simp [hstates, hname]
      · rcases Rounds.queryAt_setStage hround rfl hquery' with ⟨-, -, -, hp'⟩ | ⟨round'', hold⟩
        · rw [hp] at hp'
          exact absurd (congrArg RpcProvider.name (Option.some.inj hp')).symm hname
        · simpa only [hstates, Function.update_of_ne hname] using h.asked hold
    · have hold := h.breaker name at'
      rw [hstates, stateFor_update]
      by_cases hname : name = p.name
      · subst hname
        rw [stateFor, hst, Option.getD_some] at hold
        simpa [Rounds.recordsNamed, Rounds.finish] using hold.record p (round.ask client) now
      · have hrecords : (s.finish r round i p client now).recordsNamed name =
            s.recordsNamed name := by
          simp [Rounds.recordsNamed, Rounds.finish, Ne.symm hname]
        rw [if_neg hname, hrecords]
        exact hold

/-- The circuit breaker skips the query of an endpoint that starts now. -/
def Rounds.Skips (s : Rounds) (p : RpcProvider) (t : Readings) : Prop :=
  ((stateFor s.states p.name t.created).gate t).1 = .circuitOpen

/-- **A circuit follows the record of its name**, in every state that a run reaches. -/
theorem RoundsHold.skips_iff {s : Rounds} (h : RoundsHold s) (p : RpcProvider) {t : Readings}
    (ht : s.clock ≤ t.created) : s.Skips p t ↔ FailingAt t.checked (s.recordsNamed p.name) := by
  have hnow : 0 ≤ t.checked := h.clock_nonneg.trans (ht.trans t.created_le)
  rw [Rounds.Skips, ProviderState.gate_eq_circuitOpen]
  exact (h.breaker p.name t.created).circuitIsOpen_iff hnow

theorem RoundsHold.of_run {ok : Rounds → RoundEvent → Prop} {es : List RoundEvent} {s : Rounds}
    (h : Run Rounds.step ok .initial es s) : RoundsHold s :=
  h.invariant (fun _ _ _ hold _ hs => hold.step hs) .initial

/-! ## One endpoint for each name -/

/-- A round is only called on one of these validators. -/
def Calls (validators : Set RpcConsensusValidator) : Rounds → RoundEvent → Prop
  | _, .call _ v _ _ => v ∈ validators
  | _, _ => True

theorem RoundsHold.of_exec {es : List RoundEvent} {s : Rounds}
    (h : exec Rounds.step .initial es = some s) : RoundsHold s :=
  exec_invariant (fun _ _ _ hold hs => hold.step hs) h .initial

/-- Every name in the pools stands for one endpoint. -/
def OneEndpoint (validators : Set RpcConsensusValidator) : Prop :=
  ∀ v ∈ validators, ∀ v' ∈ validators, ∀ p ∈ v.providers, ∀ p' ∈ v'.providers,
    p.name = p'.name → p = p'

/-- The process only knows of these validators. -/
structure OnlyOf (validators : Set RpcConsensusValidator) (s : Rounds) : Prop where
  active : ∀ {r round}, s.active r = some round → round.validator ∈ validators
  history : ∀ q ∈ s.history, ∃ v ∈ validators, q.provider ∈ v.providers

theorem OnlyOf.step {validators : Set RpcConsensusValidator} {s s' : Rounds} {e : RoundEvent}
    (h : OnlyOf validators s) (hcall : Calls validators s e) (hs : Rounds.step s e = some s') :
    OnlyOf validators s' := by
  have hset : ∀ {r i stage round}, s.active r = some round → ∀ {r' round'},
      Function.update s.active r (some (round.setStage i stage)) r' = some round' →
        round'.validator ∈ validators := by
    intro r i stage round hround r' round' hround'
    by_cases hrr : r' = r
    · subst hrr
      rw [Function.update_self, Option.some.injEq] at hround'
      subst hround'
      exact (h.active hround :)
    · rw [Function.update_of_ne hrr] at hround'
      exact h.active hround'
  cases e with
  | call r v contractAddress holderAddress =>
    simp only [Rounds.step] at hs
    split_ifs at hs
    cases hs
    refine ⟨fun {r' round} hround => ?_, h.history⟩
    by_cases hrr : r' = r
    · subst hrr
      simp only [Function.update_self, Option.some.injEq] at hround
      subst hround
      exact hcall
    · simp only [Function.update_of_ne hrr] at hround
      exact h.active hround
  | start r i t =>
    obtain ⟨⟨round, p⟩, hquery, hs⟩ := Option.bind_eq_some_iff.mp hs
    obtain ⟨hround, -, -⟩ := Rounds.queryAt_eq_some hquery
    simp only at hs
    split_ifs at hs
    cases hs
    exact ⟨hset hround, h.history⟩
  | finish r i client now =>
    obtain ⟨⟨round, p⟩, hquery, hs⟩ := Option.bind_eq_some_iff.mp hs
    obtain ⟨hround, -, hp⟩ := Rounds.queryAt_eq_some hquery
    simp only at hs
    split_ifs at hs
    cases hs
    refine ⟨hset hround, fun q hq => ?_⟩
    rcases List.mem_cons.mp hq with rfl | hq
    · exact ⟨round.validator, h.active hround, List.mem_of_getElem? hp⟩
    · exact h.history q hq

/-- The records of a name are those of its only endpoint. -/
theorem OnlyOf.recordsNamed_eq {validators : Set RpcConsensusValidator} {s : Rounds}
    (h : OnlyOf validators s) (hone : OneEndpoint validators) {v : RpcConsensusValidator}
    (hv : v ∈ validators) {p : RpcProvider} (hp : p ∈ v.providers) :
    s.recordsNamed p.name = s.recordsOf p := by
  refine List.filter_congr fun q hq => ?_
  obtain ⟨v', hv', hq'⟩ := h.history q hq
  have hiff : q.provider.name = p.name ↔ q.provider = p :=
    ⟨hone v' hv' v hv q.provider hq' p hp, congrArg RpcProvider.name⟩
  simp [hiff]

/-! ## Two endpoints with one name -/

/-- So many rounds in which the provider at a position does not answer. -/
def failedRounds (v : RpcConsensusValidator) (i k : ℕ) : List RoundEvent :=
  (List.range k).flatMap fun r =>
    [.call r v "" "", .start r i (.at 0), .finish r i (fun _ _ => none) 0]

/-- The process after these rounds. -/
structure AfterFailures (p : RpcProvider) (k : ℕ) (s : Rounds) : Prop where
  clock : s.clock = 0
  unused : ∀ r, k ≤ r → s.active r = none
  history : s.history = List.replicate k ⟨p, false, 0⟩
  tokens : (stateFor s.states p.name 0).tokens = 8 - k
  lastRefill : (stateFor s.states p.name 0).lastRefill = 0

/-- A closed circuit and a full token admit a query. -/
theorem ProviderState.gate_at {st : ProviderState} {now : ℚ}
    (hclosed : st.circuitIsOpen now = false) (hrefill : st.lastRefill = now) (hone : 1 ≤ st.tokens)
    (hburst : st.tokens ≤ rateLimitBurst) :
    st.gate (.at now) = (.admitted, { st with tokens := st.tokens - 1 }) := by
  have htoken : st.tryConsumeToken now = (true, { st with tokens := st.tokens - 1 }) := by
    simp only [tryConsumeToken, hrefill, sub_self, zero_mul, add_zero, min_eq_right hburst,
      if_neg (not_lt.mpr hone)]
  simp only [gate, Readings.at, hclosed, htoken, Bool.false_eq_true, if_false]

/-- One more round whose query is admitted and fails. -/
theorem AfterFailures.succ {v : RpcConsensusValidator} {i : ℕ} {p : RpcProvider}
    (hp : v.providers[i]? = some p) {k : ℕ} (hk : k < failureThreshold) {s : Rounds}
    (hold : RoundsHold s) (h : AfterFailures p k s) :
    ∃ s', exec Rounds.step s
        [.call k v "" "", .start k i (.at 0), .finish k i (fun _ _ => none) 0] = some s' ∧
      AfterFailures p (k + 1) s' := by
  have hrecords : s.recordsNamed p.name = List.replicate k ⟨p, false, 0⟩ := by
    simp [Rounds.recordsNamed, h.history]
  have hclosed : (stateFor s.states p.name 0).circuitIsOpen 0 = false := by
    rw [← Bool.not_eq_true, (hold.breaker p.name 0).circuitIsOpen_iff le_rfl, hrecords]
    rintro ⟨hle, -⟩
    have : (failuresSince (List.replicate k (⟨p, false, 0⟩ : QueryRecord))).length ≤ k :=
      (List.takeWhile_sublist _).length_le.trans (by simp)
    omega
  have hk' : (k : ℚ) + 1 ≤ 5 := by exact_mod_cast hk
  have hk0 : (0 : ℚ) ≤ k := Nat.cast_nonneg k
  have hgate := ProviderState.gate_at hclosed h.lastRefill (by rw [h.tokens]; linarith)
    (by rw [h.tokens, rateLimitBurst]; linarith)
  let st := (stateFor s.states p.name 0)
  -- the round is called, and its query is admitted
  let round : ActiveRound := ⟨v, "", "", fun _ => .waiting⟩
  let called : Rounds := { s with active := Function.update s.active k (some round) }
  have hcall : Rounds.step s (.call k v "" "") = some called := by
    simp [Rounds.step, h.unused k le_rfl, called, round]
  have hwaiting : called.queryAt k i .waiting = some (round, p) := by
    simp [Rounds.queryAt, called, round, hp]
  let started := called.start k round i p (.at 0)
  have hstart : Rounds.step called (.start k i (.at 0)) = some started := by
    have hclock : called.clock ≤ (Readings.at 0).created := h.clock.le
    simp only [Rounds.step, hwaiting, Option.bind_some, if_pos hclock, started]
  have hstarted : started =
      { s with
        states := Function.update s.states p.name (some { st with tokens := st.tokens - 1 })
        clock := 0
        active := Function.update called.active k (some (round.setStage i .asking)) } := by
    have hgated : (stateFor called.states p.name (Readings.at 0).created).gate (.at 0) =
        (.admitted, { st with tokens := st.tokens - 1 }) := hgate
    simp only [started, Rounds.start, hgated, if_true]
    rfl
  -- it fails
  have hasking : started.queryAt k i .asking = some (round.setStage i .asking, p) := by
    simp [Rounds.queryAt, hstarted, ActiveRound.setStage, round, hp]
  let failed := started.finish k (round.setStage i .asking) i p (fun _ _ => none) 0
  have hfinish : Rounds.step started (.finish k i (fun _ _ => none) 0) = some failed := by
    have hclock : started.clock ≤ 0 := by rw [hstarted]
    simp only [Rounds.step, hasking, Option.bind_some, if_pos hclock, failed]
  have houtcome : (round.setStage i .asking).ask (fun _ _ => none) = .failed := rfl
  have hfailed : (stateFor failed.states p.name 0) =
      ({ st with tokens := st.tokens - 1 } : ProviderState).recordFailure 0 := by
    simp [failed, Rounds.finish, houtcome, hstarted, stateFor, ProviderState.record]
  refine ⟨failed, ?_, ⟨rfl, fun r hr => ?_, ?_, ?_, ?_⟩⟩
  · simp only [exec_cons, exec_nil, hcall, hstart, hfinish, Option.bind_some]
  · have hne : r ≠ k := by omega
    simp only [failed, Rounds.finish, hstarted, called, Function.update_of_ne hne]
    exact h.unused r (by omega)
  · simp [failed, Rounds.finish, houtcome, hstarted, h.history, Outcome.raw,
      List.replicate_succ]
  · rw [hfailed, ProviderState.recordFailure]
    split_ifs <;> simp [st, h.tokens] <;> ring
  · rw [hfailed, ProviderState.recordFailure]
    split_ifs <;> exact h.lastRefill

/-- A silent provider gets through so many rounds of failures. -/
theorem exists_afterFailures {v : RpcConsensusValidator} {i : ℕ} {p : RpcProvider}
    (hp : v.providers[i]? = some p) {k : ℕ} (hk : k ≤ failureThreshold) :
    ∃ s, exec Rounds.step .initial (failedRounds v i k) = some s ∧ AfterFailures p k s := by
  induction k with
  | zero =>
    refine ⟨.initial, rfl, rfl, fun _ _ => rfl, rfl, ?_, rfl⟩
    simp [stateFor, Rounds.initial, ProviderState.fresh, rateLimitBurst]
  | succ k ih =>
    obtain ⟨s, hs, hafter⟩ := ih (by omega)
    have hold : RoundsHold s := .of_exec hs
    obtain ⟨s', hs', hafter'⟩ := hafter.succ hp (by omega) hold
    refine ⟨s', ?_, hafter'⟩
    rw [failedRounds, List.range_succ, List.flatMap_append, exec_append, ← failedRounds, hs,
      Option.bind_some, List.flatMap_singleton]
    exact hs'

/-- The failures of an endpoint silence another one with the same name. -/
theorem exists_silenced {v v' : RpcConsensusValidator} {i j : ℕ} {p p' : RpcProvider}
    (hp : v.providers[i]? = some p) (hp' : v'.providers[j]? = some p') (hname : p.name = p'.name)
    (hne : p ≠ p') :
    ∃ s round, exec Rounds.step .initial
        (failedRounds v i failureThreshold ++ [.call failureThreshold v' "" ""]) = some s ∧
      s.queryAt failureThreshold j .waiting = some (round, p') ∧ s.clock = 0 ∧
      s.Skips p' (.at 0) ∧ s.recordsOf p' = [] := by
  obtain ⟨s, hs, h⟩ := exists_afterFailures hp le_rfl
  have hold : RoundsHold s := .of_exec hs
  let round : ActiveRound := ⟨v', "", "", fun _ => .waiting⟩
  let called : Rounds :=
    { s with active := Function.update s.active failureThreshold (some round) }
  have hcall : Rounds.step s (.call failureThreshold v' "" "") = some called := by
    simp [Rounds.step, h.unused failureThreshold le_rfl, called, round]
  refine ⟨called, round, ?_, ?_, h.clock, ?_, ?_⟩
  · rw [exec_append, hs, Option.bind_some, exec_cons, hcall]
    rfl
  · simp [Rounds.queryAt, called, round, hp']
  · have hskips : s.Skips p' (.at 0) := by
      have hrecords : s.recordsNamed p'.name = List.replicate failureThreshold ⟨p, false, 0⟩ := by
        simp [Rounds.recordsNamed, h.history, hname]
      rw [hold.skips_iff p' h.clock.le, hrecords]
      simp [FailingAt, failuresSince, failureThreshold, List.replicate, Readings.at,
        cooldownSeconds]
    exact hskips
  · simp [Rounds.recordsOf, called, h.history, hne]

/-- **Circuits follow endpoints exactly when no two endpoints share a name**: in every run on these
validators, a query is skipped by the circuit if and only if enough queries of its endpoint have
failed since the last success, the last of them recently. -/
theorem circuits_follow_endpoints_iff (validators : Set RpcConsensusValidator) :
    (∀ es s, Run Rounds.step (Calls validators) .initial es s → ∀ r i round p t,
      s.queryAt r i .waiting = some (round, p) → s.clock ≤ t.created →
        (s.Skips p t ↔ FailingAt t.checked (s.recordsOf p))) ↔ OneEndpoint validators := by
  constructor
  · intro hfollow v hv v' hv' p hp p' hp' hname
    by_contra hne
    obtain ⟨i, hi⟩ := List.mem_iff_getElem?.mp hp
    obtain ⟨j, hj⟩ := List.mem_iff_getElem?.mp hp'
    obtain ⟨s, round, hs, hquery, hclock, hskips, hrecords⟩ := exists_silenced hi hj hname hne
    have hcalls : ∀ e ∈ failedRounds v i failureThreshold ++ [.call failureThreshold v' "" ""],
        ∀ s, Calls validators s e := by
      intro e he s
      rcases List.mem_append.mp he with he | he
      · obtain ⟨r, -, he⟩ := List.mem_flatMap.mp he
        simp only [List.mem_cons, List.not_mem_nil, or_false] at he
        rcases he with rfl | rfl | rfl
        · exact hv
        · trivial
        · trivial
      · obtain rfl := List.mem_singleton.mp he
        exact hv'
    have hfailing := (hfollow _ s (Run.of_exec_of_forall hcalls hs) _ _ _ _ (.at 0) hquery
      hclock.le).mp hskips
    rw [hrecords] at hfailing
    exact absurd hfailing.1 (by decide)
  · intro hone es s hrun r i round p t hquery ht
    have honly : OnlyOf validators s :=
      hrun.invariant (fun _ _ _ honly hcall hs => honly.step hcall hs)
        ⟨nofun, nofun⟩
    obtain ⟨hround, -, hp⟩ := Rounds.queryAt_eq_some hquery
    rw [(RoundsHold.of_run hrun).skips_iff p ht,
      honly.recordsNamed_eq hone (honly.active hround) (List.mem_of_getElem? hp)]

/-! ## Two chains -/

/-- The validators of two chains, without any key. -/
def bscValidator : RpcConsensusValidator :=
  .ofPair ⟨"publicnode", "https://bsc-rpc.publicnode.com"⟩ ⟨"ankr", "https://rpc.ankr.com/bsc"⟩ 56

/-- Its Ethereum counterpart, with the same provider names. -/
def ethereumValidator : RpcConsensusValidator :=
  .ofPair ⟨"publicnode", "https://ethereum-rpc.publicnode.com"⟩
    ⟨"ankr", "https://rpc.ankr.com/eth"⟩ 1

/-- A round of a chain whose first provider does not answer, and one in which both do. -/
def sampleChainRound (v : RpcConsensusValidator) (contract : String) (first : Client)
    (chainId : String) (r : RoundId) : List RoundEvent :=
  [.call r v contract "0xab", .start r 0 (.at r), .start r 1 (.at r), .finish r 0 first r,
    .finish r 1 (.scripted chainId "0x0") r]

/-- A round on BSC whose baseline endpoint is dead. -/
def deadBscRound : RoundId → List RoundEvent :=
  sampleChainRound bscValidator "0x55d398326f99059ff775485246999027b3197955" (fun _ _ => none)
    "0x38"

/-- A round on Ethereum in which both endpoints answer. -/
def fineEthereumRound : RoundId → List RoundEvent :=
  sampleChainRound ethereumValidator "0xdac17f958d2ee523a2206206994597c13d831ec7"
    (.scripted "0x1" "0x0") "0x1"

/-- The endpoint that a query is about to ask, whether its circuit is open, and its records. -/
def Rounds.circuitAt (s : Rounds) (r : RoundId) (i : ℕ) (now : ℚ) :
    Option (RpcProvider × Admission × List QueryRecord) :=
  (s.queryAt r i .waiting).map fun (_, p) =>
    (p, ((stateFor s.states p.name now).gate (.at now)).1, s.recordsOf p)

/-- Five failures on BSC silence the endpoint of Ethereum that has never been asked; and five
failures on BSC between successes on Ethereum leave the circuit of the dead endpoint closed. -/
theorem chains_share_circuits :
    evmValidator {} .bsc "https://bsc-rpc.publicnode.com" = .ok bscValidator ∧
    evmValidator {} .ethereum "https://ethereum-rpc.publicnode.com" = .ok ethereumValidator ∧
    ((exec Rounds.step .initial ((List.range 5).flatMap deadBscRound ++
        [.call 5 ethereumValidator "0xdac17f958d2ee523a2206206994597c13d831ec7" "0xab"])).bind
      fun s => s.circuitAt 5 0 5) =
        some (⟨"publicnode", "https://ethereum-rpc.publicnode.com"⟩, .circuitOpen, []) ∧
    ((exec Rounds.step .initial
        ((List.range 5).flatMap (fun r => deadBscRound (2 * r) ++ fineEthereumRound (2 * r + 1)) ++
          [.call 10 bscValidator "0x55d398326f99059ff775485246999027b3197955" "0xab"])).bind
      fun s => (s.circuitAt 10 0 10).map fun x => (x.1, x.2.1, decide (FailingAt 10 x.2.2))) =
        some (⟨"publicnode", "https://bsc-rpc.publicnode.com"⟩, .admitted, true) := by
  refine ⟨rfl, rfl, ?_, ?_⟩
  · decide +kernel
  · decide +kernel

end Gateway
