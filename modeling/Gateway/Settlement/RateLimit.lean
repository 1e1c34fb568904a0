import Gateway.Foundations.TokenBucket
import Gateway.Settlement.Breaker
import Gateway.Settlement.Queries
import Gateway.Settlement.Quorum

/-!
# Rate limits

The limiter of a provider is a token bucket of eight tokens that gains eight a second
(`ProviderState.bucket`), and admits a call exactly when no window that ends with the call is too
full (`exactLimiter`). In every run of the process the queries of a name that are admitted
are the admitted calls of such a bucket, so that a window of `T` seconds holds at most `8 + 8 * T`
of them, and they send at most four requests each (`rate_limit_exact`).
-/

namespace Gateway

open Foundations

/-! ## The limiter of one provider -/

namespace ProviderState

/-- The part of the state that the limiter uses. -/
def bucket (s : ProviderState) : TokenBucket ℚ := ⟨s.tokens, s.lastRefill⟩

/-- The state after calls of `try_consume_token` at these times. -/
def consumeAll (s : ProviderState) (times : List ℚ) : ProviderState :=
  times.foldl (fun s now => (s.tryConsumeToken now).2) s

/-- Which of the calls return `True`. -/
def consumed : ProviderState → List ℚ → List Bool
  | _, [] => []
  | s, now :: times => (s.tryConsumeToken now).1 :: consumed (s.tryConsumeToken now).2 times

/-- A call draws from the bucket. -/
theorem tryConsumeToken_bucket (now : ℚ) (s : ProviderState) :
    (s.tryConsumeToken now).1 =
        (s.bucket.draw rateLimitBurst rateLimitPerSecond now).1 ∧
      (s.tryConsumeToken now).2.bucket =
        (s.bucket.draw rateLimitBurst rateLimitPerSecond now).2 := by
  by_cases h : min rateLimitBurst (s.tokens + (now - s.lastRefill) * rateLimitPerSecond) < 1
  · simp [tryConsumeToken, TokenBucket.draw, TokenBucket.level, bucket, h]
  · simp [tryConsumeToken, TokenBucket.draw, TokenBucket.level, bucket, h]

theorem bucket_consumeAll (s : ProviderState) (times : List ℚ) :
    (s.consumeAll times).bucket =
      s.bucket.drawAll rateLimitBurst rateLimitPerSecond times := by
  induction times generalizing s with
  | nil => rfl
  | cons now times ih =>
    have hcons : s.consumeAll (now :: times) = (s.tryConsumeToken now).2.consumeAll times := rfl
    rw [hcons, ih, (tryConsumeToken_bucket now s).2]
    rfl

theorem consumed_eq (s : ProviderState) (times : List ℚ) :
    s.consumed times =
      TokenBucket.admissions rateLimitBurst rateLimitPerSecond s.bucket times := by
  induction times generalizing s with
  | nil => rfl
  | cons now times ih =>
    obtain ⟨hfirst, hrest⟩ := tryConsumeToken_bucket now s
    rw [consumed, TokenBucket.admissions, ih, hfirst, hrest]

/-- What follows in a query does not touch the bucket. -/
theorem bucket_record (now : ℚ) (s : ProviderState) (outcome : Outcome) :
    (s.record now outcome).bucket = s.bucket := by
  have hfailure : (s.recordFailure now).bucket = s.bucket := by
    simp only [recordFailure]
    split_ifs <;> rfl
  cases outcome with
  | vote raw => rfl
  | wrongChain => exact hfailure
  | failed => exact hfailure

end ProviderState

/-- The number of the calls from one on, up to another one, that were admitted. -/
def admittedAmong (admitted : List Bool) (j k : ℕ) : ℕ := ((admitted.take k).drop j).count true

/-- What the limiter of a new state does with calls at these times: the tokens stay between none and
eight, and a call is admitted exactly when no window that begins with a call and ends with this one
is too full. -/
structure ExactLimiter (created : ℚ) (times : List ℚ) : Prop where
  tokens_nonneg : ∀ k, 0 ≤ ((ProviderState.fresh created).consumeAll (times.take k)).tokens
  tokens_le : ∀ k, ((ProviderState.fresh created).consumeAll (times.take k)).tokens ≤ 8
  admitted_iff : ∀ k now, times[k]? = some now →
    (((ProviderState.fresh created).consumed times)[k]? = some true ↔
      ∀ j ≤ k, ∀ start, times[j]? = some start →
        (admittedAmong ((ProviderState.fresh created).consumed times) j k : ℚ) + 1 ≤
          8 + 8 * (now - start))

theorem rateLimitPerSecond_nonneg : 0 ≤ rateLimitPerSecond := by norm_num [rateLimitPerSecond]

theorem rateLimitBurst_nonneg : 0 ≤ rateLimitBurst := by norm_num [rateLimitBurst]

/-- **The limiter is exactly a token bucket.** -/
theorem exactLimiter {created : ℚ} {times : List ℚ}
    (hsorted : (created :: times).Pairwise (· ≤ ·)) : ExactLimiter created times := by
  have hfull : (ProviderState.fresh created).bucket.tokens = rateLimitBurst := rfl
  have hbounds : ∀ k, 0 ≤ ((ProviderState.fresh created).consumeAll (times.take k)).tokens ∧
      ((ProviderState.fresh created).consumeAll (times.take k)).tokens ≤ 8 := by
    intro k
    have htaken : (created :: times.take k).Pairwise (· ≤ ·) :=
      hsorted.sublist ((List.take_sublist k times).cons_cons created)
    have hbounds := TokenBucket.drawAll_bounds (rateLimitBurst_nonneg.trans hfull.ge) hfull.le
      rateLimitPerSecond_nonneg htaken
    rw [← ProviderState.bucket_consumeAll] at hbounds
    exact hbounds
  refine ⟨fun k => (hbounds k).1, fun k => (hbounds k).2, fun k now hnow => ?_⟩
  rw [ProviderState.consumed_eq,
    TokenBucket.admissions_of_full hfull rateLimitPerSecond_nonneg hsorted hnow]
  refine forall_congr' fun j => forall_congr' fun _ => forall_congr' fun start =>
    forall_congr' fun _ => ?_
  rw [mul_comm (8 : ℚ)]
  rfl

/-! ## The limiter of a name -/

/-- A call of `try_consume_token` by a query. -/
structure TokenDraw where
  round : RoundId
  position : ℕ
  time : ℚ
  admitted : Bool
  deriving DecidableEq

namespace Rounds

/-- The call for a name that an event makes: a query starts, and its circuit is closed. -/
def drawAt (name : String) (s : Rounds) : RoundEvent → Option TokenDraw
  | .start r i t =>
    (s.queryAt r i .waiting).bind fun (_, p) =>
      let st := stateFor s.states name t.created
      if p.name = name ∧ st.circuitIsOpen t.checked = false then
        some ⟨r, i, t.drawn, (st.tryConsumeToken t.drawn).1⟩
      else none
  | _ => none

/-- The calls for a name in a run. -/
def draws (name : String) : Rounds → List RoundEvent → List TokenDraw
  | _, [] => []
  | s, e :: es => (s.drawAt name e).toList ++ (s.step e).elim [] fun s' => draws name s' es

/-- The requests of a query that have been sent when an event ends it. -/
def requestsAt (r : RoundId) (i : ℕ) (s : Rounds) : RoundEvent → ℕ
  | .finish r' i' client _ =>
    if r' = r ∧ i' = i then
      (s.queryAt r i .asking).elim 0 fun (round, _) =>
        (askUpTo round.validator.expectedChainId round.contractAddress
          (balanceOfData round.holderAddress) client 2 0).2
    else 0
  | _ => 0

/-- The requests of a query in a run. -/
def requests (r : RoundId) (i : ℕ) : Rounds → List RoundEvent → ℕ
  | _, [] => 0
  | s, e :: es => s.requestsAt r i e + (s.step e).elim 0 fun s' => requests r i s' es

/-- A query has ended. -/
def Answered (s : Rounds) (r : RoundId) (i : ℕ) : Prop :=
  ∃ round raw, s.active r = some round ∧ round.stage i = .answered raw

/-- A query whose stage is not `answered` is not this one. -/
theorem Answered.setStage {s : Rounds} {r r' : RoundId} {i j : ℕ} (h : s.Answered r i)
    {stage stage' : QueryStage} {round : ActiveRound} {p : RpcProvider}
    (hquery : s.queryAt r' j stage' = some (round, p)) (hstage : ∀ raw, stage' ≠ .answered raw)
    {s' : Rounds}
    (hactive : s'.active = Function.update s.active r' (some (round.setStage j stage))) :
    s'.Answered r i := by
  obtain ⟨round', raw, hround', hanswered⟩ := h
  obtain ⟨hround, hj, -⟩ := queryAt_eq_some hquery
  rw [Answered, hactive]
  by_cases hrr : r = r'
  · subst hrr
    obtain rfl := Option.some.inj (hround.symm.trans hround')
    have hij : i ≠ j := by
      rintro rfl
      exact hstage raw (hj.symm.trans hanswered)
    refine ⟨_, raw, Function.update_self .., ?_⟩
    simp only [ActiveRound.setStage, Function.update_of_ne hij]
    exact hanswered
  · exact ⟨round', raw, by rw [Function.update_of_ne hrr, hround'], hanswered⟩

theorem Answered.step {s s' : Rounds} {r : RoundId} {i : ℕ} (h : s.Answered r i)
    {e : RoundEvent} (hs : s.step e = some s') : s'.Answered r i := by
  cases e with
  | call r' v contractAddress holderAddress =>
    simp only [Rounds.step] at hs
    split_ifs at hs with hfree
    cases hs
    obtain ⟨round, raw, hround, hanswered⟩ := h
    have hrr : r ≠ r' := by
      rintro rfl
      rw [hround] at hfree
      cases hfree
    exact ⟨round, raw, (Function.update_of_ne hrr _ _).trans hround, hanswered⟩
  | start r' j t =>
    obtain ⟨⟨round, p⟩, hquery, hs⟩ := Option.bind_eq_some_iff.mp hs
    simp only at hs
    split_ifs at hs
    cases hs
    exact h.setStage hquery (by simp) rfl
  | finish r' j client now =>
    obtain ⟨⟨round, p⟩, hquery, hs⟩ := Option.bind_eq_some_iff.mp hs
    simp only at hs
    split_ifs at hs
    cases hs
    exact h.setStage hquery (by simp) rfl

/-- A query that has ended sends nothing more. -/
theorem Answered.requests_eq_zero {s s' : Rounds} {r : RoundId} {i : ℕ} (h : s.Answered r i)
    {es : List RoundEvent} (hs : exec Rounds.step s es = some s') : s.requests r i es = 0 := by
  induction es generalizing s with
  | nil => rfl
  | cons e es ih =>
    obtain ⟨t, ht, hes⟩ := Option.bind_eq_some_iff.mp hs
    have hrest := ih (h.step ht) hes
    rw [requests, ht, Option.elim_some, hrest]
    obtain ⟨round, raw, hround, hanswered⟩ := h
    cases e with
    | call r' v contractAddress holderAddress => rfl
    | start r' j t => rfl
    | finish r' j client now =>
      simp only [requestsAt]
      split_ifs with hsame
      · simp [queryAt, hround, hanswered]
      · rfl

/-- **A query sends at most four requests** in a run. -/
theorem requests_le {s s' : Rounds} {es : List RoundEvent} (hs : exec step s es = some s')
    (r : RoundId) (i : ℕ) : s.requests r i es ≤ 4 := by
  induction es generalizing s with
  | nil => exact Nat.zero_le _
  | cons e es ih =>
    obtain ⟨t, ht, hes⟩ := Option.bind_eq_some_iff.mp hs
    have hrest := ih hes
    rw [requests, ht, Option.elim_some]
    cases e with
    | call r' v contractAddress holderAddress => simpa [requestsAt] using hrest
    | start r' j t => simpa [requestsAt] using hrest
    | finish r' j client now =>
      simp only [requestsAt]
      split_ifs with hsame
      · obtain ⟨rfl, rfl⟩ := hsame
        obtain ⟨⟨round, p⟩, hquery, ht⟩ := Option.bind_eq_some_iff.mp ht
        simp only at ht
        split_ifs at ht
        cases ht
        -- the query has ended, so that these requests are all
        have hanswered : (s.finish r' round j p client now).Answered r' j :=
          ⟨_, _, Function.update_self .., Function.update_self ..⟩
        rw [hanswered.requests_eq_zero hes, hquery, Nat.add_zero, Option.elim_some]
        exact requests_askUpTo_le _ _ _ _
      · simpa using hrest

/-! ## Every run draws from one bucket -/

/-- No bucket has been refilled later than now. -/
def RefilledBefore (s : Rounds) : Prop :=
  ∀ name st, s.states name = some st → st.lastRefill ≤ s.clock

theorem refilledBefore_initial : initial.RefilledBefore := nofun

/-- The bucket of a name: a full one, from now on, before the name has been asked for. -/
structure BucketOf (s : Rounds) (name : String) (b : TokenBucket ℚ) : Prop where
  known : ∀ st, s.states name = some st → st.bucket = b
  unknown : s.states name = none → s.clock ≤ b.lastRefill ∧ b.tokens = rateLimitBurst

/-- The state that a query finds has the bucket of its name. -/
theorem bucketOf_stateFor (s : Rounds) (name : String) {now : ℚ} (hnow : s.clock ≤ now) :
    s.BucketOf name (stateFor s.states name now).bucket := by
  unfold stateFor
  constructor
  · intro st hst
    rw [hst]
    rfl
  · intro hnone
    rw [hnone]
    exact ⟨hnow, rfl⟩

theorem RefilledBefore.stateFor_le {s : Rounds} (h : s.RefilledBefore) (name : String) {now : ℚ}
    (hnow : s.clock ≤ now) : (stateFor s.states name now).lastRefill ≤ now := by
  unfold stateFor
  cases hst : s.states name with
  | none => exact le_rfl
  | some st => exact (h name st hst).trans hnow

end Rounds

theorem ProviderState.lastRefill_gate_le {st : ProviderState} {t : Readings}
    (h : st.lastRefill ≤ t.created) : (st.gate t).2.lastRefill ≤ t.drawn := by
  have hle : t.created ≤ t.drawn := t.created_le.trans t.checked_le
  have htoken : (st.tryConsumeToken t.drawn).2.lastRefill = t.drawn := by
    simp only [ProviderState.tryConsumeToken]
    split_ifs <;> rfl
  unfold ProviderState.gate
  split_ifs
  · exact h.trans hle
  · cases hconsume : st.tryConsumeToken t.drawn with
    | mk admitted st' =>
      rw [hconsume] at htoken
      cases admitted <;> exact htoken.le

theorem Rounds.RefilledBefore.step {s s' : Rounds} (h : s.RefilledBefore) {e : RoundEvent}
    (hs : s.step e = some s') : s'.RefilledBefore := by
  intro name st hst
  cases e with
  | call r v contractAddress holderAddress =>
    simp only [Rounds.step] at hs
    split_ifs at hs
    cases hs
    exact h name st hst
  | start r i t =>
    obtain ⟨⟨round, p⟩, hquery, hs⟩ := Option.bind_eq_some_iff.mp hs
    simp only at hs
    split_ifs at hs with hclock
    cases hs
    by_cases hname : name = p.name
    · subst hname
      simp only [Rounds.start, Function.update_self, Option.some.injEq] at hst
      subst hst
      exact ProviderState.lastRefill_gate_le (h.stateFor_le p.name hclock)
    · simp only [Rounds.start, Function.update_of_ne hname] at hst
      exact (h name st hst).trans (hclock.trans (t.created_le.trans t.checked_le))
  | finish r i client now =>
    obtain ⟨⟨round, p⟩, hquery, hs⟩ := Option.bind_eq_some_iff.mp hs
    simp only at hs
    split_ifs at hs with hclock
    cases hs
    by_cases hname : name = p.name
    · subst hname
      simp only [Rounds.finish, Function.update_self, Option.map_eq_some_iff] at hst
      obtain ⟨st', hst', rfl⟩ := hst
      have hrefill : (st'.record now (round.ask client)).lastRefill = st'.lastRefill :=
        congrArg TokenBucket.lastRefill (st'.bucket_record now (round.ask client))
      rw [hrefill]
      exact (h _ st' hst').trans hclock
    · simp only [Rounds.finish, Function.update_of_ne hname] at hst
      exact (h name st hst).trans hclock

/-- What a gate makes of the bucket: a call draws from it, unless the circuit is open. -/
theorem ProviderState.bucket_gate (t : Readings) (st : ProviderState) :
    (st.gate t).2.bucket = if st.circuitIsOpen t.checked then st.bucket else
      (st.bucket.draw rateLimitBurst rateLimitPerSecond t.drawn).2 := by
  obtain ⟨-, hbucket⟩ := st.tryConsumeToken_bucket t.drawn
  unfold ProviderState.gate
  split_ifs
  · rfl
  · cases hconsume : st.tryConsumeToken t.drawn with
    | mk admitted st' =>
      rw [hconsume] at hbucket
      cases admitted <;> exact hbucket

namespace Rounds

/-- An event that leaves the bucket of a name alone. -/
theorem BucketOf.of_same {s s' : Rounds} {name : String} {b : TokenBucket ℚ}
    (h : s'.BucketOf name b) (hclock : s.clock ≤ s'.clock)
    (hsame : (s'.states name).map ProviderState.bucket =
      (s.states name).map ProviderState.bucket) : s.BucketOf name b := by
  constructor
  · intro st hst
    rw [hst] at hsame
    obtain ⟨st', hst', hbucket⟩ := Option.map_eq_some_iff.mp hsame
    rw [← hbucket]
    exact h.known st' hst'
  · intro hnone
    rw [hnone] at hsame
    obtain ⟨hle, htokens⟩ := h.unknown (Option.map_eq_none_iff.mp hsame)
    exact ⟨hclock.trans hle, htokens⟩

/-- **An event draws from the bucket of a name, or leaves it alone.** -/
theorem BucketOf.step {s s' : Rounds} (hrefilled : s.RefilledBefore) {e : RoundEvent}
    (hs : s.step e = some s') {name : String} {b' : TokenBucket ℚ} (h : s'.BucketOf name b') :
    (s.drawAt name e = none ∧ s.BucketOf name b') ∨
      ∃ b draw, s.drawAt name e = some draw ∧ s.BucketOf name b ∧ b.lastRefill ≤ draw.time ∧
        b.draw rateLimitBurst rateLimitPerSecond draw.time = (draw.admitted, b') := by
  cases e with
  | call r v contractAddress holderAddress =>
    simp only [Rounds.step] at hs
    split_ifs at hs
    cases hs
    exact .inl ⟨rfl, h.of_same le_rfl rfl⟩
  | start r i t =>
    obtain ⟨⟨round, p⟩, hquery, hs⟩ := Option.bind_eq_some_iff.mp hs
    simp only at hs
    split_ifs at hs with hclock
    cases hs
    have hle : s.clock ≤ (s.start r round i p t).clock :=
      hclock.trans (t.created_le.trans t.checked_le)
    by_cases hname : p.name = name
    · subst hname
      have hstart : (s.start r round i p t).states p.name =
          some ((stateFor s.states p.name t.created).gate t).2 := Function.update_self ..
      have hbucket := h.known _ hstart
      rw [ProviderState.bucket_gate] at hbucket
      have hold := s.bucketOf_stateFor p.name hclock
      by_cases hopen : (stateFor s.states p.name t.created).circuitIsOpen t.checked
      · rw [if_pos hopen] at hbucket
        rw [hbucket] at hold
        refine .inl ⟨?_, hold⟩
        simp [drawAt, hquery, hopen]
      · rw [if_neg hopen] at hbucket
        obtain ⟨hadmitted, -⟩ :=
          (stateFor s.states p.name t.created).tryConsumeToken_bucket t.drawn
        let b := (stateFor s.states p.name t.created).bucket
        let admitted := (b.draw rateLimitBurst rateLimitPerSecond t.drawn).1
        refine .inr ⟨b, ⟨r, i, t.drawn, admitted⟩, ?_, hold, ?_, Prod.ext rfl hbucket⟩
        · simp [drawAt, hquery, hopen, hadmitted, admitted, b]
        · exact (hrefilled.stateFor_le p.name hclock).trans (t.created_le.trans t.checked_le)
    · refine .inl ⟨by simp [drawAt, hquery, hname], h.of_same hle ?_⟩
      simp only [Rounds.start, Function.update_of_ne (Ne.symm hname)]
  | finish r i client now =>
    obtain ⟨⟨round, p⟩, hquery, hs⟩ := Option.bind_eq_some_iff.mp hs
    simp only at hs
    split_ifs at hs with hclock
    cases hs
    refine .inl ⟨rfl, h.of_same hclock ?_⟩
    by_cases hname : p.name = name
    · subst hname
      simp only [Rounds.finish, Function.update_self, Option.map_map]
      congr 1
      funext st
      exact st.bucket_record now (round.ask client)
    · simp only [Rounds.finish, Function.update_of_ne (Ne.symm hname)]

/-- **The queries of a name are calls of one bucket**, in the order of time. -/
theorem exists_bucket {s s' : Rounds} (hrefilled : s.RefilledBefore) {es : List RoundEvent}
    (hs : exec step s es = some s') (name : String) :
    ∃ b, s.BucketOf name b ∧
      (b.lastRefill :: (s.draws name es).map TokenDraw.time).Pairwise (· ≤ ·) ∧
      (s.draws name es).map (fun d => (d.time, d.admitted)) =
        b.calls rateLimitBurst rateLimitPerSecond ((s.draws name es).map TokenDraw.time) := by
  induction es generalizing s with
  | nil =>
    exact ⟨_, s.bucketOf_stateFor name le_rfl, List.pairwise_singleton _ _, rfl⟩
  | cons e es ih =>
    obtain ⟨t, ht, hes⟩ := Option.bind_eq_some_iff.mp hs
    obtain ⟨b', hb', hsorted, hcalls⟩ := ih (hrefilled.step ht) hes
    rcases hb'.step hrefilled ht with ⟨hnone, hb⟩ | ⟨b, draw, hdraw, hb, hle, hafter⟩
    · have hdraws : s.draws name (e :: es) = t.draws name es := by
        rw [draws, hnone, ht]
        rfl
      rw [hdraws]
      exact ⟨b', hb, hsorted, hcalls⟩
    · have hdraws : s.draws name (e :: es) = draw :: t.draws name es := by
        rw [draws, hdraw, ht]
        rfl
      have hlast : b'.lastRefill = draw.time := by
        rw [← TokenBucket.draw_lastRefill rateLimitBurst rateLimitPerSecond draw.time b, hafter]
      rw [hlast] at hsorted
      rw [hdraws, List.map_cons, List.map_cons]
      refine ⟨b, hb, List.pairwise_cons.mpr ⟨fun time htime => ?_, hsorted⟩, ?_⟩
      · rcases List.mem_cons.mp htime with rfl | hmem
        · exact hle
        · exact hle.trans (List.rel_of_pairwise_cons hsorted hmem)
      · rw [TokenBucket.calls_cons, hafter, hcalls]

/-- A query that starts is admitted exactly when its call draws a token. -/
theorem drawAt_admitted {s : Rounds} {r : RoundId} {i : ℕ} {t : Readings} {round : ActiveRound}
    {p : RpcProvider} (hquery : s.queryAt r i .waiting = some (round, p)) :
    ((stateFor s.states p.name t.created).gate t).1 = .admitted ↔
      s.drawAt p.name (.start r i t) = some ⟨r, i, t.drawn, true⟩ := by
  rw [ProviderState.gate_eq_admitted, ProviderState.Admits, drawAt, hquery, Option.bind_some]
  by_cases hopen : (stateFor s.states p.name t.created).circuitIsOpen t.checked
  · simp [hopen]
  · simp [hopen]

/-- The queries of a name that were admitted in a window. -/
def admittedIn (name : String) (start stop : ℚ) (s : Rounds) (es : List RoundEvent) :
    List TokenDraw :=
  (s.draws name es).filter fun d => d.admitted && (decide (start ≤ d.time) && decide (d.time ≤ stop))

theorem length_admittedIn_le {s s' : Rounds} (hrefilled : s.RefilledBefore)
    (hnew : ∀ name, s.states name = none) {es : List RoundEvent}
    (hs : exec Rounds.step s es = some s') (name : String) {start stop : ℚ} (hle : start ≤ stop) :
    ((s.admittedIn name start stop es).length : ℚ) ≤
      rateLimitBurst + (stop - start) * rateLimitPerSecond := by
  obtain ⟨b, hb, hsorted, hcalls⟩ := exists_bucket hrefilled hs name
  obtain ⟨-, htokens⟩ := hb.unknown (hnew name)
  have hcount := TokenBucket.countP_window_le (rateLimitBurst_nonneg.trans htokens.ge)
    rateLimitBurst_nonneg rateLimitPerSecond_nonneg hsorted hle
  rw [← hcalls, List.countP_map, List.countP_eq_length_filter] at hcount
  exact hcount

/-- The queries of a name are the calls of one limiter, which is made when the first of them
starts. -/
theorem exists_created {es : List RoundEvent} {s : Rounds}
    (hs : exec Rounds.step initial es = some s) (name : String) :
    ∃ created, (created :: (initial.draws name es).map TokenDraw.time).Pairwise (· ≤ ·) ∧
      (initial.draws name es).map TokenDraw.admitted =
        (ProviderState.fresh created).consumed ((initial.draws name es).map TokenDraw.time) := by
  obtain ⟨b, hb, hsorted, hcalls⟩ := exists_bucket refilledBefore_initial hs name
  obtain ⟨-, htokens⟩ := hb.unknown rfl
  have hfresh : (ProviderState.fresh b.lastRefill).bucket = b := by
    rw [ProviderState.bucket, ProviderState.fresh, ← htokens]
  refine ⟨b.lastRefill, hsorted, ?_⟩
  rw [ProviderState.consumed_eq, hfresh, ← TokenBucket.map_snd_calls, ← hcalls, List.map_map]
  rfl

end Rounds

/-- **The rate limiter is exactly a token bucket.** In every run, of any rounds at once, the queries
of a provider's name are the calls of one such limiter; a window of `T` seconds holds at most
`8 + 8 * T` that are admitted, and they send at most four times as many requests. -/
theorem rate_limit_exact :
    (∀ (created : ℚ) (times : List ℚ), (created :: times).Pairwise (· ≤ ·) →
      ExactLimiter created times) ∧
    ∀ es s, exec Rounds.step Rounds.initial es = some s → ∀ name : String,
      (∃ created, ExactLimiter created ((Rounds.initial.draws name es).map TokenDraw.time) ∧
        (Rounds.initial.draws name es).map TokenDraw.admitted =
          (ProviderState.fresh created).consumed
            ((Rounds.initial.draws name es).map TokenDraw.time)) ∧
      ∀ start T : ℚ, 0 ≤ T →
        ((Rounds.initial.admittedIn name start (start + T) es).length : ℚ) ≤ 8 + 8 * T ∧
          ((Rounds.initial.admittedIn name start (start + T) es).map fun d =>
            Rounds.initial.requests d.round d.position es).sum ≤
              4 * (Rounds.initial.admittedIn name start (start + T) es).length := by
  refine ⟨fun created times => exactLimiter,
    fun es s hs name => ⟨?_, fun start T hT => ⟨?_, ?_⟩⟩⟩
  · obtain ⟨created, hsorted, hadmitted⟩ := Rounds.exists_created hs name
    exact ⟨created, exactLimiter hsorted, hadmitted⟩
  · have hle := Rounds.length_admittedIn_le Rounds.refilledBefore_initial (fun _ => rfl) hs name
      (le_add_of_nonneg_right hT : start ≤ start + T)
    rw [add_sub_cancel_left, mul_comm] at hle
    exact hle
  · generalize Rounds.initial.admittedIn name start (start + T) es = admitted
    induction admitted with
    | nil => exact le_rfl
    | cons d admitted ih =>
      have hd := Rounds.requests_le hs d.round d.position
      rw [List.map_cons, List.sum_cons, List.length_cons]
      omega

/-- Two calls half a second after another; and a round of three queries, one for each name. -/
theorem rate_limit_exact_sample : ExactLimiter 0 [1 / 2, 1] ∧
    ((Rounds.initial.admittedIn "a" 0 (0 + 1) sampleRound).length : ℚ) ≤ 8 + 8 * 1 := by
  obtain ⟨s, -, hs, -⟩ := exec_sampleRound
  refine ⟨rate_limit_exact.1 0 [1 / 2, 1] ?_,
    ((rate_limit_exact.2 sampleRound s hs "a").2 0 1 (by norm_num)).1⟩
  norm_num

end Gateway
