import Gateway.Settlement.Breaker
import Gateway.Settlement.Throughput

/-!
# A provider that keeps failing is left alone

A circuit that has opened lets one query through after a minute, and if that fails too then the next
one a minute later. So a provider whose queries all fail costs at most five queries and one more for
each minute (`failing_provider_spared`), as long as its queries do not overlap: those that are on
their way when the circuit opens are not called back.
-/

namespace Gateway

open Foundations

namespace Rounds

/-! ## Queries on their way -/

/-- The query of a round at a position is on its way, to a provider of this name. -/
def AsksFor (name : String) (s : Rounds) (r : RoundId) (i : ℕ) : Prop :=
  ∃ round p, s.queryAt r i .asking = some (round, p) ∧ p.name = name

variable {name : String} {s s' : Rounds} {r r' : RoundId} {i j : ℕ} {round : ActiveRound}
  {p : RpcProvider}

/-- The queries on their way, after one has come to another stage. -/
theorem asksFor_setStage {stage : QueryStage} (hr : s.active r = some round)
    (hp : round.validator.providers[i]? = some p)
    (hactive : s'.active = Function.update s.active r (some (round.setStage i stage))) :
    s'.AsksFor name r' j ↔
      if r' = r ∧ j = i then stage = .asking ∧ p.name = name else s.AsksFor name r' j := by
  unfold AsksFor queryAt
  rw [hactive]
  by_cases hrr : r' = r
  · subst hrr
    rw [Function.update_self, hr]
    by_cases hij : j = i
    · subst hij
      simp [ActiveRound.setStage, hp]
    · simp [ActiveRound.setStage, hij]
  · simp [hrr]

/-- The condition of the runs below: the queries of a name fail, and none of them begins while
another is on its way. -/
def FailsAlone (name : String) (s : Rounds) : RoundEvent → Prop
  | .call _ _ _ _ => True
  | .start r i _ => ∀ round p, s.queryAt r i .waiting = some (round, p) → p.name = name →
      ∀ r' j, ¬ s.AsksFor name r' j
  | .finish r i client _ => ∀ round p, s.queryAt r i .asking = some (round, p) → p.name = name →
      (round.ask client).raw = none

/-- When the admitted queries of a name began. -/
def admittedTimes (name : String) (s : Rounds) (es : List RoundEvent) : List ℚ :=
  ((s.draws name es).filter TokenDraw.admitted).map TokenDraw.time

theorem admittedTimes_concat {es : List RoundEvent} {e : RoundEvent} {s₀ s₁ : Rounds}
    (h : exec step s₀ es = some s) (hs : s.step e = some s₁) (name : String) :
    s₀.admittedTimes name (es ++ [e]) = s₀.admittedTimes name es ++
      ((s.drawAt name e).toList.filter TokenDraw.admitted).map TokenDraw.time := by
  have hlast : s.draws name [e] = (s.drawAt name e).toList := by
    rw [draws, hs, Option.elim_some, draws, List.append_nil]
  rw [admittedTimes, draws_append, h, Option.elim_some, hlast, List.filter_append, List.map_append]
  rfl

theorem of_drawAt_start {t : Readings} {d : TokenDraw}
    (h : s.drawAt name (.start r i t) = some d) :
    d.round = r ∧ d.position = i ∧ d.time = t.drawn := by
  obtain ⟨⟨round, p⟩, -, h⟩ := Option.bind_eq_some_iff.mp h
  simp only at h
  split_ifs at h
  cases h
  exact ⟨rfl, rfl, rfl⟩

/-! ## The invariant -/

/-- All queries of a name have failed, with these beginnings: each has been recorded but the one on
its way, and from the fifth one on they are a minute apart. -/
structure Spared (name : String) (s : Rounds) (times : List ℚ) : Prop where
  rounds : RoundsHold s
  failed : ∀ q ∈ s.recordsNamed name, q.succeeded = false
  alone : ∀ r i r' j, s.AsksFor name r i → s.AsksFor name r' j → r = r' ∧ i = j
  busy : ∀ r i, s.AsksFor name r i → times.length = (s.recordsNamed name).length + 1
  idle : (∀ r i, ¬ s.AsksFor name r i) → times.length = (s.recordsNamed name).length ∧
    ∀ q ∈ (s.recordsNamed name).head?, ∀ a ∈ times, a ≤ q.time
  begun : ∀ a ∈ times, a ≤ s.clock
  spaced : (times.drop 4).Pairwise fun a b => a + cooldownSeconds ≤ b

namespace Spared

variable {times : List ℚ}

theorem initial (name : String) : Spared name initial [] where
  rounds := .initial
  failed := by simp [recordsNamed, Rounds.initial]
  alone := by
    rintro r i r' j ⟨round, p, h, -⟩
    cases h
  busy := by
    rintro r i ⟨round, p, h, -⟩
    cases h
  idle := by simp [recordsNamed, Rounds.initial]
  begun := by simp
  spaced := by simp

/-- Nothing happens to the queries of the name. -/
theorem congr (h : Spared name s times) (hrounds : RoundsHold s') (hclock : s.clock ≤ s'.clock)
    (hrecords : s'.recordsNamed name = s.recordsNamed name)
    (hasks : ∀ r i, s'.AsksFor name r i ↔ s.AsksFor name r i) : Spared name s' times where
  rounds := hrounds
  failed := by
    rw [hrecords]
    exact h.failed
  alone := by
    intro r i r' j
    rw [hasks, hasks]
    exact h.alone r i r' j
  busy := by
    intro r i
    rw [hasks, hrecords]
    exact h.busy r i
  idle := by
    intro hidle
    rw [hrecords]
    exact h.idle fun r i hr => hidle r i ((hasks r i).mpr hr)
  begun := fun a ha => (h.begun a ha).trans hclock
  spaced := h.spaced

/-- A query that is let through begins a minute after the last failure, if there have been five. -/
theorem cooled (h : Spared name s times) (hidle : ∀ r i, ¬ s.AsksFor name r i) {t : Readings}
    (ht : s.clock ≤ t.created)
    (hopen : (stateFor s.states name t.created).circuitIsOpen t.checked = false)
    (hfive : failureThreshold ≤ times.length) {a : ℚ} (ha : a ∈ times) :
    a + cooldownSeconds ≤ t.drawn := by
  obtain ⟨hcount, hlast⟩ := h.idle hidle
  have hsince : failuresSince (s.recordsNamed name) = s.recordsNamed name := by
    apply List.takeWhile_eq_self_iff.mpr
    intro q hq
    simp [h.failed q hq]
  have hnow : 0 ≤ t.checked := h.rounds.clock_nonneg.trans (ht.trans t.created_le)
  have hnot : ¬ FailingAt t.checked (s.recordsNamed name) := by
    rw [← (h.rounds.breaker name t.created).circuitIsOpen_iff hnow, hopen]
    simp
  rw [FailingAt, hsince, ← hcount] at hnot
  cases hhead : (s.recordsNamed name).head? with
  | none =>
    rw [List.head?_eq_none_iff] at hhead
    rw [hhead, List.length_nil, List.length_eq_zero_iff] at hcount
    rw [hcount] at ha
    cases ha
  | some q =>
    have hafter : q.time + cooldownSeconds ≤ t.checked := by
      by_contra hlt
      exact hnot ⟨hfive, by simpa [hhead] using hlt⟩
    have hbefore := hlast q hhead a ha
    have hdrawn := t.checked_le
    linarith

/-- A round is called. -/
theorem call (h : Spared name s times) (hrounds : RoundsHold s') (hfree : s.active r = none)
    (hround : ∀ i, round.stage i = .waiting)
    (hs : s' = { s with active := Function.update s.active r (some round) }) :
    Spared name s' times := by
  subst hs
  refine h.congr hrounds le_rfl rfl fun r' i => ?_
  unfold AsksFor queryAt
  by_cases hrr : r' = r
  · subst hrr
    simp [hfree, hround i]
  · simp [Function.update_of_ne hrr]

/-- A query of the name begins. -/
theorem start (h : Spared name s times) {t : Readings} (hrounds : RoundsHold s')
    (hs : s.start r round i p t = s') (hquery : s.queryAt r i .waiting = some (round, p))
    (hname : p.name = name) (hidle : ∀ r i, ¬ s.AsksFor name r i) (ht : s.clock ≤ t.created) :
    Spared name s' (times ++
      ((s.drawAt name (.start r i t)).toList.filter TokenDraw.admitted).map TokenDraw.time) := by
  obtain ⟨hround, -, hp⟩ := queryAt_eq_some hquery
  have hclock : s.clock ≤ s'.clock := by
    rw [← hs]
    exact ht.trans (t.created_le.trans t.checked_le)
  subst hname
  have hrecords : s'.recordsNamed p.name = s.recordsNamed p.name := by
    rw [← hs]
    rfl
  have hadmitted := drawAt_admitted (t := t) hquery
  have hasks : ∀ r' j, s'.AsksFor p.name r' j ↔ r' = r ∧ j = i ∧
      ((stateFor s.states p.name t.created).gate t).1 = .admitted := by
    intro r' j
    rw [← hs, asksFor_setStage hround hp rfl]
    split_ifs with hat hgate
    · simp [hat, hgate]
    · simp [hgate]
    · exact iff_of_false (hidle r' j) fun hr => hat ⟨hr.1, hr.2.1⟩
  by_cases hgate : ((stateFor s.states p.name t.created).gate t).1 = .admitted
  · -- the query is on its way
    simp only [hadmitted.mp hgate, Option.toList_some, List.filter_cons_of_pos, List.filter_nil,
      List.map_cons, List.map_nil]
    obtain ⟨hclosed, -⟩ := ProviderState.gate_eq_admitted.mp hgate
    obtain ⟨hcount, -⟩ := h.idle hidle
    refine ⟨hrounds, by rw [hrecords]; exact h.failed, ?_, ?_, ?_, ?_, ?_⟩
    · intro r₁ i₁ r₂ i₂ h₁ h₂
      obtain ⟨rfl, rfl, -⟩ := (hasks r₁ i₁).mp h₁
      obtain ⟨rfl, rfl, -⟩ := (hasks r₂ i₂).mp h₂
      exact ⟨rfl, rfl⟩
    · intro _ _ _
      rw [hrecords, List.length_append, hcount, List.length_singleton]
    · intro hnone
      exact absurd ((hasks r i).mpr ⟨rfl, rfl, hgate⟩) (hnone r i)
    · intro a ha
      rcases List.mem_append.mp ha with ha | ha
      · exact (h.begun a ha).trans hclock
      · obtain rfl := List.mem_singleton.mp ha
        rw [← hs]
        exact le_rfl
    · rw [List.drop_append, List.pairwise_append]
      refine ⟨h.spaced, ?_, fun a ha b hb => ?_⟩
      · exact (List.pairwise_singleton _ _).sublist (List.drop_sublist _ _)
      · obtain rfl := List.mem_singleton.mp (List.mem_of_mem_drop hb)
        have hlong : 4 < times.length := by
          by_contra hshort
          rw [List.drop_eq_nil_of_le (by omega)] at ha
          cases ha
        exact h.cooled hidle ht (by simpa using hclosed) hlong (List.mem_of_mem_drop ha)
  · have hnone : (s.drawAt p.name (.start r i t)).toList.filter TokenDraw.admitted = [] := by
      rw [List.filter_eq_nil_iff]
      intro d hd hadm
      rw [Option.mem_toList] at hd
      obtain ⟨hr, hi, htime⟩ := of_drawAt_start hd
      refine hgate (hadmitted.mpr (hd.trans ?_))
      rw [← hr, ← hi, ← htime, ← hadm]
    rw [hnone, List.map_nil, List.append_nil]
    refine h.congr hrounds hclock hrecords fun r' j => ?_
    exact iff_of_false (fun hr => hgate ((hasks r' j).mp hr).2.2) (hidle r' j)

/-- A query of the name fails. -/
theorem finish (h : Spared name s times) {client : Client} {now : ℚ} (hrounds : RoundsHold s')
    (hs : s.finish r round i p client now = s') (hquery : s.queryAt r i .asking = some (round, p))
    (hname : p.name = name) (hfailed : (round.ask client).raw = none) (hnow : s.clock ≤ now) :
    Spared name s' times := by
  obtain ⟨hround, -, hp⟩ := queryAt_eq_some hquery
  have hasked : s.AsksFor name r i := ⟨round, p, hquery, hname⟩
  have hrecords : s'.recordsNamed name = ⟨p, false, now⟩ :: s.recordsNamed name := by
    rw [← hs, recordsNamed, Rounds.finish, List.filter_cons_of_pos (by simp [hname]), hfailed]
    rfl
  have hidle : ∀ r' j, ¬ s'.AsksFor name r' j := by
    intro r' j hr'
    rw [← hs, asksFor_setStage hround hp rfl] at hr'
    split_ifs at hr' with hat
    · cases hr'.1
    · exact hat (h.alone r' j r i hr' hasked)
  refine ⟨hrounds, ?_, fun r₁ i₁ _ _ h₁ => ?_, fun r₁ i₁ h₁ => ?_, fun _ => ⟨?_, ?_⟩, ?_, h.spaced⟩
  · rw [hrecords]
    intro q hq
    rcases List.mem_cons.mp hq with rfl | hq
    · rfl
    · exact h.failed q hq
  · exact absurd h₁ (hidle r₁ i₁)
  · exact absurd h₁ (hidle r₁ i₁)
  · rw [hrecords, List.length_cons, h.busy r i hasked]
  · rw [hrecords]
    rintro q ⟨⟩ a ha
    exact (h.begun a ha).trans hnow
  · intro a ha
    rw [← hs]
    exact (h.begun a ha).trans hnow

/-- **Every event keeps the queries of the name apart.** -/
theorem step (h : Spared name s times) {e : RoundEvent} (hfails : FailsAlone name s e)
    (hs : s.step e = some s') : Spared name s' (times ++
      ((s.drawAt name e).toList.filter TokenDraw.admitted).map TokenDraw.time) := by
  have hrounds := h.rounds.step hs
  cases e with
  | call r v contractAddress holderAddress =>
    have hsame : times ++ ((s.drawAt name (.call r v contractAddress holderAddress)).toList.filter
        TokenDraw.admitted).map TokenDraw.time = times := List.append_nil times
    rw [hsame]
    simp only [Rounds.step] at hs
    split_ifs at hs with hfree
    exact h.call hrounds (Option.isNone_iff_eq_none.mp hfree) (fun _ => rfl)
      (Option.some.inj hs).symm
  | start r i t =>
    obtain ⟨⟨round, p⟩, hquery, hs⟩ := Option.bind_eq_some_iff.mp hs
    simp only at hs
    split_ifs at hs with hclock
    by_cases hname : p.name = name
    · exact h.start hrounds (Option.some.inj hs) hquery hname (hfails round p hquery hname) hclock
    · -- a query of another name
      obtain ⟨hround, hstage, hp⟩ := queryAt_eq_some hquery
      have hdraw : s.drawAt name (.start r i t) = none := by
        simp [drawAt, hquery, hname]
      rw [hdraw, Option.toList_none, List.filter_nil, List.map_nil, List.append_nil]
      obtain rfl := Option.some.inj hs
      refine h.congr hrounds (hclock.trans (t.created_le.trans t.checked_le)) rfl fun r' j => ?_
      rw [asksFor_setStage hround hp rfl]
      by_cases hat : r' = r ∧ j = i
      · rw [if_pos hat]
        obtain ⟨rfl, rfl⟩ := hat
        refine iff_of_false (fun hr => hname hr.2) ?_
        rintro ⟨round', p', hquery', -⟩
        obtain ⟨hround', hstage', -⟩ := queryAt_eq_some hquery'
        rw [← Option.some.inj (hround.symm.trans hround'), hstage] at hstage'
        cases hstage'
      · rw [if_neg hat]
  | finish r i client now =>
    have hsame : times ++ ((s.drawAt name (.finish r i client now)).toList.filter
        TokenDraw.admitted).map TokenDraw.time = times := List.append_nil times
    rw [hsame]
    obtain ⟨⟨round, p⟩, hquery, hs⟩ := Option.bind_eq_some_iff.mp hs
    simp only at hs
    split_ifs at hs with hclock
    by_cases hname : p.name = name
    · exact h.finish hrounds (Option.some.inj hs) hquery hname (hfails round p hquery hname) hclock
    · obtain ⟨hround, -, hp⟩ := queryAt_eq_some hquery
      obtain rfl := Option.some.inj hs
      refine h.congr hrounds hclock ?_ fun r' j => ?_
      · simp [recordsNamed, Rounds.finish, hname]
      · rw [asksFor_setStage hround hp rfl]
        split_ifs with hat
        · obtain ⟨rfl, rfl⟩ := hat
          refine iff_of_false (fun hr => hname hr.2) ?_
          rintro ⟨round', p', hquery', hname'⟩
          rw [hquery] at hquery'
          cases hquery'
          exact hname hname'
        · rfl

theorem of_run {es : List RoundEvent} (h : Run Rounds.step (FailsAlone name) .initial es s) :
    Spared name s (Rounds.initial.admittedTimes name es) := by
  induction es using List.reverseRecOn generalizing s with
  | nil =>
    cases h
    exact .initial name
  | append_singleton es e ih =>
    obtain ⟨s₀, hes, he⟩ := h.of_append
    cases he with
    | cons hfails hs hnil =>
      cases hnil
      rw [admittedTimes_concat hes.exec_eq hs]
      exact (ih hes).step hfails hs

end Spared

end Rounds

/-- **A provider that keeps failing is left alone.** In every run in which the queries of a name
fail and do not overlap, a window holds at most five of them and one for each minute. -/
theorem failing_provider_spared {name : String} {es : List RoundEvent} {s : Rounds}
    (run : Run Rounds.step (Rounds.FailsAlone name) .initial es s) {start stop : ℚ}
    (hle : start ≤ stop) :
    ((Rounds.initial.admittedIn name start stop es).length : ℚ) ≤ 5 + (stop - start) / 60 := by
  have hspared := Rounds.Spared.of_run run
  let window := fun a : ℚ => decide (start ≤ a) && decide (a ≤ stop)
  have hcount : (Rounds.initial.admittedIn name start stop es).length =
      ((Rounds.initial.admittedTimes name es).filter window).length := by
    rw [Rounds.admittedTimes, List.filter_map, List.length_map, List.filter_filter,
      Rounds.admittedIn]
    congr 1
    apply List.filter_congr
    intro d _
    simp [window, Bool.and_comm]
  have hsplit := List.take_append_drop 4 (Rounds.initial.admittedTimes name es)
  rw [hcount, ← hsplit, List.filter_append, List.length_append, Nat.cast_add]
  have hfirst :
      ((((Rounds.initial.admittedTimes name es).take 4).filter window).length : ℚ) ≤ 4 := by
    have hlen := List.length_filter_le window ((Rounds.initial.admittedTimes name es).take 4)
    have htake := List.length_take_le 4 (Rounds.initial.admittedTimes name es)
    exact_mod_cast hlen.trans htake
  have hwindow : ∀ a ∈ ((Rounds.initial.admittedTimes name es).drop 4).filter window,
      start ≤ a ∧ a ≤ stop := fun a ha => by simpa [window] using (List.mem_filter.mp ha).2
  have hrest := length_le_of_spaced (hspared.spaced.filter window) hwindow
    (by norm_num [cooldownSeconds]) hle
  rw [cooldownSeconds] at hrest
  linarith

/-! ### A silent provider -/

/-- Five failures open the circuit. The sixth round skips the provider, and the seventh one, after
a minute, asks it again. -/
def silentRun : List RoundEvent :=
  failedRounds sampleValidator 0 5 ++
    [.call 5 sampleValidator "" "", .start 5 0 (.at 59), .call 6 sampleValidator "" "",
      .start 6 0 (.at 60), .finish 6 0 (fun _ _ => none) 60]

/-- Is the provider silent, and asked by none of the seven rounds when another one begins? -/
def Rounds.isSilent (s : Rounds) : RoundEvent → Bool
  | .start _ _ _ => (List.range 7).all fun r => (s.queryAt r 0 .asking).isNone
  | .finish r i client _ =>
    (s.queryAt r i .asking).all fun (round, _) => (round.ask client).raw.isNone
  | _ => true

theorem failsAlone_of_isSilent {es : List RoundEvent} {s : Rounds} {e : RoundEvent}
    (hes : es <+: silentRun) (hs : exec Rounds.step .initial es = some s) (h : s.isSilent e) :
    s.FailsAlone "a" e := by
  cases e with
  | call => trivial
  | start r i t =>
    rintro round p - - r' j ⟨round', p', hquery, -⟩
    obtain ⟨hround', hstage, hp'⟩ := Rounds.queryAt_eq_some hquery
    obtain ⟨t', ht', -⟩ := Rounds.exists_draw_of_asked hs hround' (.inl hstage) hp'
    -- only these rounds ask, and only the first provider
    have hmem := hes.subset ht'
    simp only [silentRun, failedRounds, List.mem_append, List.mem_flatMap, List.mem_range,
      List.mem_cons, List.not_mem_nil, or_false, reduceCtorEq, false_or,
      RoundEvent.start.injEq] at hmem
    have hbound : r' < 7 ∧ j = 0 := by
      rcases hmem with ⟨k, hk, rfl, rfl, -⟩ | ⟨rfl, rfl, -⟩ | ⟨rfl, rfl, -⟩
      · exact ⟨hk.trans (by norm_num), rfl⟩
      · exact ⟨by norm_num, rfl⟩
      · exact ⟨by norm_num, rfl⟩
    obtain ⟨hlt, rfl⟩ := hbound
    simp only [Rounds.isSilent, List.all_eq_true, List.mem_range] at h
    have hnone := h r' hlt
    rw [hquery] at hnone
    cases hnone
  | finish r i client now =>
    intro round p hquery _
    simpa [Rounds.isSilent, hquery] using h

/-- The bound is met: six queries in a minute. -/
theorem failing_provider_spared_silent :
    (Rounds.initial.admittedIn "a" 0 60 silentRun).length = 6 ∧
      ((Rounds.initial.admittedIn "a" 0 60 silentRun).length : ℚ) ≤ 5 + (60 - 0) / 60 := by
  have hrun : (exec (restrict Rounds.isSilent Rounds.step) .initial silentRun).isSome := by
    decide +kernel
  obtain ⟨s, hs⟩ := Option.isSome_iff_exists.mp hrun
  have hreached := (Run.of_exec_restrict hs).reached (exec_nil Rounds.initial)
  have run : Run Rounds.step (Rounds.FailsAlone "a") .initial silentRun s :=
    hreached.mono fun _ _ ⟨hsilent, _, hes, hexec⟩ => failsAlone_of_isSilent hes hexec hsilent
  refine ⟨by decide +kernel, failing_provider_spared run (by norm_num)⟩

end Gateway
