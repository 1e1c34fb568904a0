import Mathlib.Data.List.Basic

/-!
# Runs of a partial transition function

A system is given by a partial function `step : σ → ε → Option σ`: an event either leads from a
state to the next one or is not enabled there. `exec` performs a list of events; `Run step ok`
is the same as a relation, in which every event moreover meets a condition `ok` in the state
before it. A restriction on the runs that a theorem is about (one process at a time, no event
on a stale copy) is such a condition, so that the induction over a run is done here once:
`Run.invariant` for a property of states, `Run.rel` for a relation between an earlier and a
later state, `Run.history` for one between the state and what has been noted on the way, and
`Run.strengthen` when an invariant shows that a weaker condition implies a stronger one.
-/

namespace Foundations

variable {σ ε : Type*}

/-- Perform the events in order; `none` when one of them is not enabled. -/
def exec (step : σ → ε → Option σ) : σ → List ε → Option σ
  | s, [] => some s
  | s, e :: es => (step s e).bind fun s' => exec step s' es

/-- `Run step ok s es s'`: the events `es` lead from `s` to `s'`, and each of them meets `ok` in
the state before it. -/
inductive Run (step : σ → ε → Option σ) (ok : σ → ε → Prop) : σ → List ε → σ → Prop
  | nil (s : σ) : Run step ok s [] s
  | cons {s s' s'' : σ} {e : ε} {es : List ε} :
      ok s e → step s e = some s' → Run step ok s' es s'' → Run step ok s (e :: es) s''

/-- A history that the system does not keep itself: what `note` makes of it at each event. -/
def history {η : Type*} (step : σ → ε → Option σ) (note : σ → ε → η → η) : σ → η → List ε → η
  | _, h, [] => h
  | s, h, e :: es =>
    match step s e with
    | none => h
    | some s' => history step note s' (note s e h) es

/-- The transition function of the events that pass a check. -/
def restrict (check : σ → ε → Bool) (step : σ → ε → Option σ) (s : σ) (e : ε) : Option σ :=
  if check s e then step s e else none

variable {step : σ → ε → Option σ} {ok : σ → ε → Prop}

@[simp] theorem exec_nil (s : σ) : exec step s [] = some s := rfl

@[simp] theorem exec_cons (s : σ) (e : ε) (es : List ε) :
    exec step s (e :: es) = (step s e).bind fun s' => exec step s' es := rfl

theorem exec_eq_foldlM (s : σ) (es : List ε) : exec step s es = es.foldlM step s := by
  induction es generalizing s with
  | nil => rfl
  | cons e es ih =>
    rw [exec_cons, List.foldlM_cons]
    congr 1
    funext s'
    exact ih s'

theorem exec_append (s : σ) (es fs : List ε) :
    exec step s (es ++ fs) = (exec step s es).bind fun s' => exec step s' fs := by
  induction es generalizing s with
  | nil => rfl
  | cons e es ih =>
    simp only [List.cons_append, exec_cons, Option.bind_assoc]
    congr 1
    funext s'
    exact ih s'

/-- A property that every event preserves holds after the events. -/
theorem exec_invariant {Inv : σ → Prop} (hstep : ∀ s e s', Inv s → step s e = some s' → Inv s')
    {s s' : σ} {es : List ε} (h : exec step s es = some s') (h0 : Inv s) : Inv s' := by
  induction es generalizing s with
  | nil =>
    obtain rfl : s = s' := by simpa using h
    exact h0
  | cons e es ih =>
    obtain ⟨t, ht, h⟩ := Option.bind_eq_some_iff.mp h
    exact ih h (hstep s e t h0 ht)

namespace Run

theorem exec_eq {s s' : σ} {es : List ε} (h : Run step ok s es s') :
    exec step s es = some s' := by
  induction h with
  | nil => rfl
  | cons _ hs _ ih => rw [exec_cons, hs, Option.bind_some, ih]

/-- Performing events that are admissible everywhere is an admissible run. -/
theorem of_exec_of_forall {s s' : σ} {es : List ε} (hok : ∀ e ∈ es, ∀ s, ok s e)
    (h : exec step s es = some s') : Run step ok s es s' := by
  induction es generalizing s with
  | nil =>
    obtain rfl : s = s' := by simpa using h
    exact nil s
  | cons e es ih =>
    obtain ⟨t, ht, h'⟩ := Option.bind_eq_some_iff.mp h
    exact cons (hok e (by simp) s) ht (ih (fun e' he' => hok e' (by simp [he'])) h')

/-- Performing events that pass a check is a run of such events. -/
theorem of_exec_restrict {check : σ → ε → Bool} {s s' : σ} {es : List ε}
    (h : exec (restrict check step) s es = some s') :
    Run step (fun s e => check s e) s es s' := by
  induction es generalizing s with
  | nil =>
    obtain rfl : s = s' := by simpa using h
    exact nil s
  | cons e es ih =>
    obtain ⟨t, ht, h'⟩ := Option.bind_eq_some_iff.mp h
    unfold restrict at ht
    split_ifs at ht with hc
    exact cons hc ht (ih h')

theorem mono {ok' : σ → ε → Prop} (himp : ∀ s e, ok s e → ok' s e) {s s' : σ} {es : List ε}
    (h : Run step ok s es s') : Run step ok' s es s' := by
  induction h with
  | nil s => exact nil s
  | cons ho hs _ ih => exact cons (himp _ _ ho) hs ih

/-- The events of a run that meet a condition, and a second one, meet both. -/
theorem inter {ok' : σ → ε → Prop} {s s' : σ} {es : List ε} (h : Run step ok s es s')
    (h' : Run step ok' s es s') : Run step (fun s e => ok s e ∧ ok' s e) s es s' := by
  induction h with
  | nil s => exact nil s
  | cons ho hs _ ih =>
    cases h' with
    | cons ho' hs' hr' =>
      obtain rfl := Option.some.inj (hs.symm.trans hs')
      exact cons ⟨ho, ho'⟩ hs (ih hr')

theorem of_append {s s'' : σ} {es fs : List ε} (h : Run step ok s (es ++ fs) s'') :
    ∃ s', Run step ok s es s' ∧ Run step ok s' fs s'' := by
  induction es generalizing s with
  | nil => exact ⟨s, nil s, h⟩
  | cons e es ih =>
    cases h with
    | cons ho hs hr =>
      obtain ⟨s', h₁, h₂⟩ := ih hr
      exact ⟨s', cons ho hs h₁, h₂⟩

/-- Every event of a run happens in a state that the run has come to by then. -/
theorem reached {s₀ s s' : σ} {es₀ es : List ε} (h : Run step ok s es s')
    (h0 : exec step s₀ es₀ = some s) :
    Run step (fun t e => ok t e ∧ ∃ es₁, es₁ <+: es₀ ++ es ∧ exec step s₀ es₁ = some t) s es s' := by
  induction h generalizing es₀ with
  | nil s => exact nil s
  | @cons s t s'' e es ho hs hr ih =>
    have ht : exec step s₀ (es₀ ++ [e]) = some t := by
      rw [exec_append, h0, Option.bind_some, exec_cons, hs, Option.bind_some, exec_nil]
    have hrest := ih ht
    rw [List.append_assoc, List.singleton_append] at hrest
    exact cons ⟨ho, es₀, List.prefix_append _ _, h0⟩ hs hrest

/-- A property that every admissible event preserves holds at the end of a run. -/
theorem invariant {Inv : σ → Prop} (hstep : ∀ s e s', Inv s → ok s e → step s e = some s' → Inv s')
    {s s' : σ} {es : List ε} (h : Run step ok s es s') (h0 : Inv s) : Inv s' := by
  induction h with
  | nil => exact h0
  | cons ho hs _ ih => exact ih (hstep _ _ _ h0 ho hs)

/-- A relation between the state and a history that every admissible event preserves holds at the
end of a run. -/
theorem history {η : Type*} {note : σ → ε → η → η} {Inv : σ → η → Prop}
    (hstep : ∀ s e s' h, Inv s h → ok s e → step s e = some s' → Inv s' (note s e h))
    {s s' : σ} {es : List ε} {h : η} (run : Run step ok s es s') (h0 : Inv s h) :
    Inv s' (Foundations.history step note s h es) := by
  induction run generalizing h with
  | nil => exact h0
  | cons ho hs _ ih =>
    simp only [Foundations.history, hs]
    exact ih (hstep _ _ _ _ h0 ho hs)

/-- A reflexive and transitive relation that holds across every admissible event from a state
with the invariant holds between the ends of a run. -/
theorem rel {Inv : σ → Prop} {R : σ → σ → Prop}
    (hstep : ∀ s e s', Inv s → ok s e → step s e = some s' → Inv s') (hrefl : ∀ s, R s s)
    (htrans : ∀ s s' s'', R s s' → R s' s'' → R s s'')
    (hR : ∀ s e s', Inv s → ok s e → step s e = some s' → R s s')
    {s s' : σ} {es : List ε} (h : Run step ok s es s') (h0 : Inv s) : R s s' := by
  induction h with
  | nil => exact hrefl _
  | cons ho hs _ ih => exact htrans _ _ _ (hR _ _ _ h0 ho hs) (ih (hstep _ _ _ h0 ho hs))

theorem append {s s' s'' : σ} {es fs : List ε} (h : Run step ok s es s')
    (h' : Run step ok s' fs s'') : Run step ok s (es ++ fs) s'' := by
  induction h with
  | nil s => exact h'
  | cons ho hs _ ih => exact cons ho hs (ih h')

/-- **A simulation lifts to runs**: if every admissible event, from a state with the invariant, is a
run of another system between the abstractions of the states, then so is every run. -/
theorem simulates {τ δ : Type*} {step' : τ → δ → Option τ} {ok' : τ → δ → Prop} {Inv : σ → Prop}
    (abs : σ → τ)
    (hstep : ∀ s e s', Inv s → ok s e → step s e = some s' →
      Inv s' ∧ ∃ ds, Run step' ok' (abs s) ds (abs s'))
    {s s' : σ} {es : List ε} (h : Run step ok s es s') (h0 : Inv s) :
    Inv s' ∧ ∃ ds, Run step' ok' (abs s) ds (abs s') := by
  induction h with
  | nil s => exact ⟨h0, [], nil (abs s)⟩
  | cons ho hs _ ih =>
    obtain ⟨h1, ds, hds⟩ := hstep _ _ _ h0 ho hs
    obtain ⟨h2, ds', hds'⟩ := ih h1
    exact ⟨h2, ds ++ ds', hds.append hds'⟩

/-- Under an invariant a condition may be replaced by one it implies there. -/
theorem strengthen {Inv : σ → Prop} {ok' : σ → ε → Prop}
    (hstep : ∀ s e s', Inv s → ok s e → step s e = some s' → Inv s')
    (himp : ∀ s e s', Inv s → ok s e → step s e = some s' → ok' s e)
    {s s' : σ} {es : List ε} (h : Run step ok s es s') (h0 : Inv s) : Run step ok' s es s' := by
  induction h with
  | nil s => exact nil s
  | cons ho hs _ ih => exact cons (himp _ _ _ h0 ho hs) hs (ih (hstep _ _ _ h0 ho hs))

end Run

end Foundations
