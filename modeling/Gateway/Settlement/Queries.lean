import Gateway.Settlement.Providers

/-!
# One query

`queryOne` is `_query_one` with its control flow: a loop of two attempts, each of which may raise at
either request or while it reads a reply, and which returns from inside the `try`. Whatever the
client answers, the query does not raise, and after it has been admitted it sends at most four
requests and makes one record (`query_one_votes`). It is the sequence of the three parts that
concurrent rounds interleave: `gate`, `ask` and `record` (`queryOne_eq`).
-/

namespace Gateway

open Foundations

/-! ## The program -/

/-- Where an attempt has raised. -/
inductive QueryError
  /-- At a request, or at its `json()`. -/
  | request
  | readingChainId
  | readingBalance

/-- What a query does. -/
inductive QueryAction
  | request (request : RpcRequest)
  | recordSuccess
  | recordFailure
  deriving DecidableEq

namespace QueryAction

/-- Is it a request to the provider? -/
def isRequest : QueryAction → Bool
  | .request _ => true
  | _ => false

end QueryAction

/-- The state of the provider, and what the query has done so far. -/
structure QueryContext where
  state : ProviderState
  actions : List QueryAction

/-- The number of requests that have been sent. -/
def QueryContext.sent (context : QueryContext) : ℕ := context.actions.countP QueryAction.isRequest

/-- A part of a query: it raises or returns, and changes the context. -/
abbrev QueryM := ExceptT QueryError (StateM QueryContext)

namespace QueryM

/-- `client.post(…)` and `json()`. -/
def post (client : Client) (request : RpcRequest) : QueryM Json := do
  let context ← get
  set { context with actions := context.actions ++ [QueryAction.request request] }
  match client context.sent request with
  | some reply => pure reply
  | none => throw QueryError.request

/-- `state.record_success()`. -/
def recordSuccess : QueryM Unit :=
  modify fun context =>
    { state := context.state.recordSuccess, actions := context.actions ++ [.recordSuccess] }

/-- `state.record_failure()`. -/
def recordFailure (now : ℚ) : QueryM Unit :=
  modify fun context =>
    { state := context.state.recordFailure now, actions := context.actions ++ [.recordFailure] }

section Body

variable (expectedChainId : ℤ) (toAddress data : String) (client : Client) (now : ℚ)

/-- The body of the `try`. -/
def body : QueryM (Option String) := do
  let chainIdReply ← post client .ethChainId
  let some reportedChainId := chainIdOf chainIdReply | throw QueryError.readingChainId
  if reportedChainId ≠ expectedChainId then
    recordFailure now
    return none
  let balanceReply ← post client (.ethCall toAddress data)
  let some result := balanceOf balanceReply | throw QueryError.readingBalance
  recordSuccess
  return some result

/-- The loop, with so many attempts left, and what follows it. -/
def attempts : ℕ → QueryM (Option String)
  | 0 => do
    recordFailure now
    return none
  | n + 1 => tryCatch (body expectedChainId toAddress data client now) fun _ => attempts n

/-- `_query_one`, without the name that it returns beside the vote. -/
def queryOne (t : Readings) : QueryM (Option String) := do
  let context ← get
  if context.state.circuitIsOpen t.checked then return none
  let (admitted, state) := context.state.tryConsumeToken t.drawn
  set { context with state }
  if !admitted then return none
  attempts expectedChainId toAddress data client now 2

end Body

/-- Run a part of a query. -/
def exec {α : Type} (x : QueryM α) (context : QueryContext) :
    Except QueryError α × QueryContext :=
  (ExceptT.run x).run context

section Exec

variable {α β : Type} {context : QueryContext}

@[simp] theorem exec_pure (a : α) : exec (pure a) context = (.ok a, context) := rfl

@[simp] theorem exec_throw (error : QueryError) :
    exec (throw error : QueryM α) context = (.error error, context) := rfl

theorem exec_bind_of_ok {x : QueryM α} {f : α → QueryM β} {a : α} {context' : QueryContext}
    (h : exec x context = (.ok a, context')) : exec (x >>= f) context = exec (f a) context' := by
  simp only [exec] at h
  simp only [exec, ExceptT.run_bind, StateT.run_bind, h]
  rfl

theorem exec_bind_of_error {x : QueryM α} {f : α → QueryM β} {error : QueryError}
    {context' : QueryContext} (h : exec x context = (.error error, context')) :
    exec (x >>= f) context = (.error error, context') := by
  simp only [exec] at h
  simp only [exec, ExceptT.run_bind, StateT.run_bind, h]
  rfl

theorem exec_tryCatch_of_ok {x : QueryM α} {handle : QueryError → QueryM α} {a : α}
    {context' : QueryContext} (h : exec x context = (.ok a, context')) :
    exec (tryCatch x handle) context = (.ok a, context') := by
  simp only [exec] at h
  simp only [exec, ExceptT.run_tryCatch, StateT.run_bind, h]
  rfl

theorem exec_tryCatch_of_error {x : QueryM α} {handle : QueryError → QueryM α}
    {error : QueryError} {context' : QueryContext}
    (h : exec x context = (.error error, context')) :
    exec (tryCatch x handle) context = exec (handle error) context' := by
  simp only [exec] at h
  simp only [exec, ExceptT.run_tryCatch, StateT.run_bind, h]
  rfl

theorem exec_get (context : QueryContext) : exec get context = (.ok context, context) := rfl

theorem exec_set (context context' : QueryContext) :
    exec (set context') context = (.ok PUnit.unit, context') := rfl

theorem exec_recordSuccess (context : QueryContext) : exec recordSuccess context =
    (.ok (), { state := context.state.recordSuccess
               actions := context.actions ++ [.recordSuccess] }) := rfl

theorem exec_recordFailure (now : ℚ) (context : QueryContext) :
    exec (recordFailure now) context =
      (.ok (), { state := context.state.recordFailure now
                 actions := context.actions ++ [.recordFailure] }) := rfl

/-- The context after an action that leaves the state alone. -/
def sending (context : QueryContext) (request : RpcRequest) : QueryContext :=
  { context with actions := context.actions ++ [.request request] }

theorem exec_post_of_some {client : Client} {request : RpcRequest} {reply : Json}
    (h : client context.sent request = some reply) :
    exec (post client request) context = (.ok reply, sending context request) := by
  unfold post
  rw [exec_bind_of_ok (exec_get context), exec_bind_of_ok (exec_set context _), h]
  rfl

theorem exec_post_of_none {client : Client} {request : RpcRequest}
    (h : client context.sent request = none) :
    exec (post client request) context = (.error .request, sending context request) := by
  unfold post
  rw [exec_bind_of_ok (exec_get context), exec_bind_of_ok (exec_set context _), h]
  rfl

end Exec

end QueryM

/-! ## Replies -/

/-- The balance reply is an object without an `error` whose result is a valid word. -/
theorem balanceOf_eq_some {reply : Json} {raw : String} : balanceOf reply = some raw ↔
    ∃ payload, reply = .obj payload ∧ payload.lookup "error" = none ∧
      payload.lookup "result" = some (.str raw) ∧ isValidHexUint raw := by
  constructor
  · intro h
    have hvalid := isValidHexUint_of_balanceOf h
    unfold balanceOf at h
    split at h
    · rename_i payload hreply
      split_ifs at h with herror
      split at h
      · rename_i result hresult
        split_ifs at h
        obtain rfl : result = raw := Option.some.inj h
        have herror' : payload.lookup "error" = none := by
          rwa [← Option.not_isSome_iff_eq_none]
        cases hlookup : payload.lookup "result" with
        | none =>
          rw [hlookup] at hresult
          cases hresult
        | some value =>
          obtain rfl : value = .str result := by simpa [hlookup] using hresult
          refine ⟨payload, ?_, herror', hlookup, hvalid⟩
          by_cases htruthy : reply.truthy
          · rwa [Json.orElse, if_pos htruthy] at hreply
          · rw [Json.orElse, if_neg htruthy] at hreply
            cases hreply
            cases hlookup
      · cases h
    · cases h
  · rintro ⟨payload, rfl, herror, hresult, hvalid⟩
    have htruthy : (Json.obj payload).orElse (.obj []) = .obj payload := by
      cases payload with
      | nil => rfl
      | cons x xs => rfl
    simp [balanceOf, htruthy, herror, hresult, hvalid]

section Attempts

variable (expectedChainId : ℤ) (toAddress data : String) (client : Client)

/-- The chain id that the client reports when so many requests have been sent before; `none` when
the request or the reading of its reply raises. -/
def reportedChainId (sent : ℕ) : Option ℤ := (client sent .ethChainId).bind chainIdOf

/-- An attempt that begins after so many requests votes: in it the client reports the expected chain
and, right after, a valid balance. -/
def VotesAt (sent : ℕ) (raw : String) : Prop :=
  reportedChainId client sent = some expectedChainId ∧
    ∃ payload, client (sent + 1) (.ethCall toAddress data) = some (.obj payload) ∧
      payload.lookup "error" = none ∧ payload.lookup "result" = some (.str raw) ∧
        isValidHexUint raw

/-- It ends with a wrong chain id. -/
def WrongChainAt (sent : ℕ) : Prop :=
  ∃ chainId, reportedChainId client sent = some chainId ∧ chainId ≠ expectedChainId

/-- It raises, after so many requests of its own: at the chain id, or at the balance. -/
def RaisesAt (sent requests : ℕ) : Prop :=
  (requests = 1 ∧ reportedChainId client sent = none) ∨
    (requests = 2 ∧ reportedChainId client sent = some expectedChainId ∧
      ∀ raw, ¬ VotesAt expectedChainId toAddress data client sent raw)

variable {expectedChainId toAddress data client}

theorem votesAt_iff {sent : ℕ} {raw : String} :
    VotesAt expectedChainId toAddress data client sent raw ↔
      reportedChainId client sent = some expectedChainId ∧
        (client (sent + 1) (.ethCall toAddress data)).bind balanceOf = some raw := by
  refine and_congr_right fun _ => ?_
  rw [Option.bind_eq_some_iff]
  constructor
  · rintro ⟨payload, hclient, hpayload⟩
    exact ⟨_, hclient, balanceOf_eq_some.mpr ⟨payload, rfl, hpayload⟩⟩
  · rintro ⟨reply, hclient, hreply⟩
    obtain ⟨payload, rfl, hpayload⟩ := balanceOf_eq_some.mp hreply
    exact ⟨payload, hclient, hpayload⟩

variable (expectedChainId toAddress data client) in
/-- An attempt votes, ends with a wrong chain id, or raises. -/
theorem attempt_cases (sent : ℕ) :
    (∃ raw, VotesAt expectedChainId toAddress data client sent raw) ∨
      WrongChainAt expectedChainId client sent ∨
      RaisesAt expectedChainId toAddress data client sent 1 ∨
      RaisesAt expectedChainId toAddress data client sent 2 := by
  cases hchain : reportedChainId client sent with
  | none => exact .inr (.inr (.inl (.inl ⟨rfl, hchain⟩)))
  | some chainId =>
    by_cases heq : chainId = expectedChainId
    · subst heq
      by_cases hvotes : ∃ raw, VotesAt chainId toAddress data client sent raw
      · exact .inl hvotes
      · exact .inr (.inr (.inr (.inr ⟨rfl, hchain, not_exists.mp hvotes⟩)))
    · exact .inr (.inl ⟨chainId, hchain, heq⟩)

end Attempts

/-! ## The course of a query -/

/-- The first requests of an attempt. -/
def firstRequests (toAddress data : String) (k : ℕ) : List QueryAction :=
  [QueryAction.request .ethChainId, .request (.ethCall toAddress data)].take k

/-- An attempt that raises has sent as many requests as that says. -/
theorem RaisesAt.countP_firstRequests {expectedChainId : ℤ} {toAddress data : String}
    {client : Client} {sent k : ℕ}
    (h : RaisesAt expectedChainId toAddress data client sent k) :
    (firstRequests toAddress data k).countP QueryAction.isRequest = k := by
  rcases h with ⟨rfl, -⟩ | ⟨rfl, -⟩ <;> rfl

namespace QueryM

section Course

variable (expectedChainId : ℤ) (toAddress data : String) (client : Client)

/-- The actions and the vote of a query that has so many attempts left, after so many requests. -/
inductive Course : ℕ → ℕ → List QueryAction → Option String → Prop
  | votes {n sent : ℕ} {raw : String} :
      VotesAt expectedChainId toAddress data client sent raw →
      Course (n + 1) sent (firstRequests toAddress data 2 ++ [.recordSuccess]) (some raw)
  | wrongChain {n sent : ℕ} : WrongChainAt expectedChainId client sent →
      Course (n + 1) sent (firstRequests toAddress data 1 ++ [.recordFailure]) none
  | retry {n sent k : ℕ} {actions : List QueryAction} {vote : Option String} :
      RaisesAt expectedChainId toAddress data client sent k → Course n (sent + k) actions vote →
      Course (n + 1) sent (firstRequests toAddress data k ++ actions) vote
  | exhausted {sent : ℕ} : Course 0 sent [.recordFailure] none

end Course

/-- What the record of a query makes of the provider's state. -/
def recorded (now : ℚ) (state : ProviderState) (vote : Option String) : ProviderState :=
  if vote.isSome then state.recordSuccess else state.recordFailure now

section Body

variable {expectedChainId : ℤ} {toAddress data : String} {client : Client} {now : ℚ}
  {context : QueryContext}

@[simp] theorem sent_sending (context : QueryContext) (request : RpcRequest) :
    (sending context request).sent = context.sent + 1 := by
  simp [QueryContext.sent, sending, QueryAction.isRequest]

/-- The context after a query has gone on with some actions. -/
def extend (context : QueryContext) (state : ProviderState) (actions : List QueryAction) :
    QueryContext where
  state := state
  actions := context.actions ++ actions

theorem exec_body_of_votes {raw : String}
    (h : VotesAt expectedChainId toAddress data client context.sent raw) :
    exec (body expectedChainId toAddress data client now) context =
      (.ok (some raw), extend context context.state.recordSuccess
        (firstRequests toAddress data 2 ++ [.recordSuccess])) := by
  obtain ⟨hchain, hbalance⟩ := votesAt_iff.mp h
  obtain ⟨chainReply, hfirst, hchain⟩ := Option.bind_eq_some_iff.mp hchain
  obtain ⟨balanceReply, hsecond, hbalance⟩ := Option.bind_eq_some_iff.mp hbalance
  rw [← sent_sending context .ethChainId] at hsecond
  unfold body
  rw [exec_bind_of_ok (exec_post_of_some hfirst)]
  simp only [hchain, ne_eq, not_true_eq_false, if_false]
  rw [exec_bind_of_ok (exec_post_of_some hsecond)]
  simp only [hbalance]
  rw [exec_bind_of_ok (exec_recordSuccess _), exec_pure]
  simp [extend, sending, firstRequests]

theorem exec_body_of_wrongChain (h : WrongChainAt expectedChainId client context.sent) :
    exec (body expectedChainId toAddress data client now) context =
      (.ok none, extend context (context.state.recordFailure now)
        (firstRequests toAddress data 1 ++ [.recordFailure])) := by
  obtain ⟨chainId, hchain, hne⟩ := h
  obtain ⟨chainReply, hfirst, hchain⟩ := Option.bind_eq_some_iff.mp hchain
  unfold body
  rw [exec_bind_of_ok (exec_post_of_some hfirst)]
  simp only [hchain, ne_eq, hne, not_false_eq_true, if_true]
  rw [exec_bind_of_ok (exec_recordFailure now _), exec_pure]
  simp [extend, sending, firstRequests]

/-- An attempt that raises at the chain id has only asked for it. -/
theorem exec_body_of_no_chainId (h : reportedChainId client context.sent = none) :
    ∃ error, exec (body expectedChainId toAddress data client now) context =
      (.error error, extend context context.state (firstRequests toAddress data 1)) := by
  unfold body
  cases hfirst : client context.sent .ethChainId with
  | none =>
    refine ⟨.request, ?_⟩
    rw [exec_bind_of_error (exec_post_of_none hfirst)]
    rfl
  | some chainReply =>
    have hchain : chainIdOf chainReply = none := by
      rwa [reportedChainId, hfirst, Option.bind_some] at h
    refine ⟨.readingChainId, ?_⟩
    rw [exec_bind_of_ok (exec_post_of_some hfirst)]
    simp only [hchain]
    rfl

/-- An attempt that raises at the balance has asked for both. -/
theorem exec_body_of_no_balance (h : reportedChainId client context.sent = some expectedChainId)
    (hno : ∀ raw, ¬ VotesAt expectedChainId toAddress data client context.sent raw) :
    ∃ error, exec (body expectedChainId toAddress data client now) context =
      (.error error, extend context context.state (firstRequests toAddress data 2)) := by
  obtain ⟨chainReply, hfirst, hchain⟩ := Option.bind_eq_some_iff.mp h
  have hsent := sent_sending context .ethChainId
  have hextend : sending (sending context .ethChainId) (.ethCall toAddress data) =
      extend context context.state (firstRequests toAddress data 2) := by
    simp [extend, sending, firstRequests]
  unfold body
  rw [exec_bind_of_ok (exec_post_of_some hfirst)]
  simp only [hchain, ne_eq, not_true_eq_false, if_false]
  cases hsecond : client (context.sent + 1) (.ethCall toAddress data) with
  | none =>
    refine ⟨.request, ?_⟩
    rw [exec_bind_of_error (exec_post_of_none (by rw [hsent, hsecond])), hextend]
  | some balanceReply =>
    have hbalance : balanceOf balanceReply = none := by
      rw [Option.eq_none_iff_forall_not_mem]
      intro raw hraw
      refine hno raw (votesAt_iff.mpr ⟨h, ?_⟩)
      rw [hsecond]
      exact hraw
    refine ⟨.readingBalance, ?_⟩
    rw [exec_bind_of_ok (exec_post_of_some (by rw [hsent, hsecond]))]
    simp only [hbalance]
    rw [exec_throw, hextend]

variable (now) in
theorem exec_body_of_raises {k : ℕ}
    (h : RaisesAt expectedChainId toAddress data client context.sent k) :
    ∃ error, exec (body expectedChainId toAddress data client now) context =
      (.error error, extend context context.state (firstRequests toAddress data k)) := by
  rcases h with ⟨rfl, hchain⟩ | ⟨rfl, hchain, hno⟩
  · exact exec_body_of_no_chainId hchain
  · exact exec_body_of_no_balance hchain hno

theorem sent_extend_of_raises {k : ℕ}
    (h : RaisesAt expectedChainId toAddress data client context.sent k) :
    (extend context context.state (firstRequests toAddress data k)).sent = context.sent + k := by
  rw [QueryContext.sent, extend, List.countP_append, h.countP_firstRequests]
  rfl

variable (now context) in
/-- **The loop takes its course**, and returns its vote; it does not raise. -/
theorem exec_attempts {n : ℕ} {actions : List QueryAction} {vote : Option String}
    (h : Course expectedChainId toAddress data client n context.sent actions vote) :
    exec (attempts expectedChainId toAddress data client now n) context =
      (.ok vote, extend context (recorded now context.state vote) actions) := by
  induction n generalizing context actions with
  | zero =>
    cases h
    rfl
  | succ n ih =>
    cases h with
    | votes hvotes =>
      rw [attempts, exec_tryCatch_of_ok (exec_body_of_votes hvotes)]
      rfl
    | wrongChain hwrong =>
      rw [attempts, exec_tryCatch_of_ok (exec_body_of_wrongChain hwrong)]
      rfl
    | retry hraises hcourse =>
      obtain ⟨error, hbody⟩ := exec_body_of_raises now hraises
      rw [← sent_extend_of_raises hraises] at hcourse
      rw [attempts, exec_tryCatch_of_error hbody, ih _ hcourse]
      simp [extend]

end Body

end QueryM

/-! ## What a course does -/

section Exclusive

variable {expectedChainId : ℤ} {toAddress data : String} {client : Client} {sent k : ℕ}
  {raw : String}

theorem VotesAt.unique {raw' : String}
    (h : VotesAt expectedChainId toAddress data client sent raw)
    (h' : VotesAt expectedChainId toAddress data client sent raw') : raw = raw' := by
  obtain ⟨-, hbalance⟩ := votesAt_iff.mp h
  obtain ⟨-, hbalance'⟩ := votesAt_iff.mp h'
  exact Option.some.inj (hbalance.symm.trans hbalance')

theorem VotesAt.not_wrongChainAt (h : VotesAt expectedChainId toAddress data client sent raw) :
    ¬ WrongChainAt expectedChainId client sent := by
  rintro ⟨chainId, hchain, hne⟩
  exact hne (Option.some.inj (hchain.symm.trans h.1))

theorem RaisesAt.not_votesAt (h : RaisesAt expectedChainId toAddress data client sent k) :
    ¬ VotesAt expectedChainId toAddress data client sent raw := by
  intro hvotes
  rcases h with ⟨-, hchain⟩ | ⟨-, -, hno⟩
  · rw [hvotes.1] at hchain
    cases hchain
  · exact hno raw hvotes

theorem RaisesAt.not_wrongChainAt (h : RaisesAt expectedChainId toAddress data client sent k) :
    ¬ WrongChainAt expectedChainId client sent := by
  rintro ⟨chainId, hchain, hne⟩
  rcases h with ⟨-, hchain'⟩ | ⟨-, hchain', -⟩
  · rw [hchain] at hchain'
    cases hchain'
  · exact hne (Option.some.inj (hchain.symm.trans hchain'))

theorem RaisesAt.unique {k' : ℕ} (h : RaisesAt expectedChainId toAddress data client sent k)
    (h' : RaisesAt expectedChainId toAddress data client sent k') : k = k' := by
  rcases h with ⟨rfl, hchain⟩ | ⟨rfl, hchain, -⟩ <;>
    rcases h' with ⟨rfl, hchain'⟩ | ⟨rfl, hchain', -⟩
  · rfl
  · rw [hchain] at hchain'
    cases hchain'
  · rw [hchain] at hchain'
    cases hchain'
  · rfl

end Exclusive

namespace QueryM.Course

variable {expectedChainId : ℤ} {toAddress data : String} {client : Client} {n sent : ℕ}
  {actions actions' : List QueryAction} {vote vote' : Option String}

/-- Whatever the client answers, there is a course. -/
theorem exists_course (expectedChainId : ℤ) (toAddress data : String) (client : Client)
    (n sent : ℕ) :
    ∃ actions vote, Course expectedChainId toAddress data client n sent actions vote := by
  induction n generalizing sent with
  | zero => exact ⟨_, _, .exhausted⟩
  | succ n ih =>
    rcases attempt_cases expectedChainId toAddress data client sent with ⟨raw, h⟩ | h | h | h
    · exact ⟨_, _, .votes h⟩
    · exact ⟨_, _, .wrongChain h⟩
    · obtain ⟨actions, vote, hcourse⟩ := ih (sent + 1)
      exact ⟨_, _, .retry h hcourse⟩
    · obtain ⟨actions, vote, hcourse⟩ := ih (sent + 2)
      exact ⟨_, _, .retry h hcourse⟩

/-- Each attempt sends at most two requests. -/
theorem requests_le (h : Course expectedChainId toAddress data client n sent actions vote) :
    actions.countP QueryAction.isRequest ≤ 2 * n := by
  induction h with
  | @votes n sent raw _ =>
    show 2 ≤ 2 * (n + 1)
    omega
  | @wrongChain n sent _ =>
    show 1 ≤ 2 * (n + 1)
    omega
  | @retry n sent k actions vote hraises _ ih =>
    have hk : k ≤ 2 := by rcases hraises with ⟨rfl, -⟩ | ⟨rfl, -⟩ <;> omega
    rw [List.countP_append, hraises.countP_firstRequests]
    omega
  | exhausted => exact le_rfl

/-- **There is one record**, and it is a success exactly when there is a vote. -/
theorem records (h : Course expectedChainId toAddress data client n sent actions vote) :
    actions.filter (fun action => !action.isRequest) =
      [if vote.isSome then .recordSuccess else .recordFailure] := by
  induction h with
  | votes _ => rfl
  | wrongChain _ => rfl
  | retry hraises _ ih =>
    rw [List.filter_append, ih]
    rcases hraises with ⟨rfl, -⟩ | ⟨rfl, -⟩ <;> rfl
  | exhausted => rfl

/-- The replies of the client fix the course. -/
theorem unique (h : Course expectedChainId toAddress data client n sent actions vote)
    (h' : Course expectedChainId toAddress data client n sent actions' vote') :
    actions = actions' ∧ vote = vote' := by
  induction h generalizing actions' vote' with
  | votes hvotes =>
    cases h' with
    | votes hvotes' => exact ⟨rfl, congrArg some (hvotes.unique hvotes')⟩
    | wrongChain hwrong => exact absurd hwrong hvotes.not_wrongChainAt
    | retry hraises _ => exact absurd hvotes hraises.not_votesAt
  | wrongChain hwrong =>
    cases h' with
    | votes hvotes => exact absurd hwrong hvotes.not_wrongChainAt
    | wrongChain _ => exact ⟨rfl, rfl⟩
    | retry hraises _ => exact absurd hwrong hraises.not_wrongChainAt
  | retry hraises _ ih =>
    cases h' with
    | votes hvotes => exact absurd hvotes hraises.not_votesAt
    | wrongChain hwrong => exact absurd hwrong hraises.not_wrongChainAt
    | retry hraises' hcourse =>
      obtain rfl := hraises.unique hraises'
      obtain ⟨rfl, rfl⟩ := ih hcourse
      exact ⟨rfl, rfl⟩
  | exhausted =>
    cases h'
    exact ⟨rfl, rfl⟩

/-- Two attempts vote in the first, or in the second after a first that raised. -/
theorem vote_iff (h : Course expectedChainId toAddress data client 2 sent actions vote)
    {raw : String} : vote = some raw ↔
      VotesAt expectedChainId toAddress data client sent raw ∨
        ∃ k, RaisesAt expectedChainId toAddress data client sent k ∧
          VotesAt expectedChainId toAddress data client (sent + k) raw := by
  constructor
  · rintro rfl
    cases h with
    | votes hvotes => exact .inl hvotes
    | retry hraises hcourse =>
      cases hcourse with
      | votes hvotes => exact .inr ⟨_, hraises, hvotes⟩
      | retry _ hcourse => cases hcourse
  · rintro (hvotes | ⟨k, hraises, hvotes⟩)
    · exact (h.unique (.votes hvotes)).2
    · exact (h.unique (.retry hraises (.votes hvotes))).2

end QueryM.Course

/-! ## The parts of a query -/

section Parts

variable {expectedChainId : ℤ} {toAddress data : String} {client : Client} {n sent : ℕ}
  {actions : List QueryAction} {vote : Option String}

theorem VotesAt.attempt_eq {raw : String}
    (h : VotesAt expectedChainId toAddress data client sent raw) :
    attempt expectedChainId toAddress data client sent = (.vote raw, sent + 2) := by
  obtain ⟨hchain, hbalance⟩ := votesAt_iff.mp h
  rw [reportedChainId] at hchain
  simp [attempt, hchain, hbalance]

theorem WrongChainAt.attempt_eq (h : WrongChainAt expectedChainId client sent) :
    attempt expectedChainId toAddress data client sent = (.wrongChain, sent + 1) := by
  obtain ⟨chainId, hchain, hne⟩ := h
  rw [reportedChainId] at hchain
  simp [attempt, hchain, hne]

theorem RaisesAt.attempt_eq {k : ℕ}
    (h : RaisesAt expectedChainId toAddress data client sent k) :
    attempt expectedChainId toAddress data client sent = (.failed, sent + k) := by
  rcases h with ⟨rfl, hchain⟩ | ⟨rfl, hchain, hno⟩
  · rw [reportedChainId] at hchain
    simp [attempt, hchain]
  · have hbalance : (client (sent + 1) (.ethCall toAddress data)).bind balanceOf = none := by
      rw [Option.eq_none_iff_forall_not_mem]
      intro raw hraw
      exact hno raw (votesAt_iff.mpr ⟨hchain, hraw⟩)
    rw [reportedChainId] at hchain
    simp [attempt, hchain, hbalance]

/-- A course is what `askUpTo` computes: the outcome, and the number of requests. -/
theorem QueryM.Course.askUpTo_eq
    (h : QueryM.Course expectedChainId toAddress data client n sent actions vote) :
    ∃ outcome : Outcome, outcome.raw = vote ∧
      askUpTo expectedChainId toAddress data client n sent =
        (outcome, sent + actions.countP QueryAction.isRequest) := by
  induction h with
  | votes hvotes =>
    refine ⟨.vote _, rfl, ?_⟩
    simp only [askUpTo, hvotes.attempt_eq]
    rfl
  | wrongChain hwrong =>
    refine ⟨.wrongChain, rfl, ?_⟩
    simp only [askUpTo, hwrong.attempt_eq]
    rfl
  | retry hraises _ ih =>
    obtain ⟨outcome, hraw, hask⟩ := ih
    refine ⟨outcome, hraw, ?_⟩
    simp only [askUpTo, hraises.attempt_eq, hask, List.countP_append,
      hraises.countP_firstRequests, Nat.add_assoc]
  | exhausted => exact ⟨.failed, rfl, rfl⟩

theorem recorded_raw (now : ℚ) (state : ProviderState) (outcome : Outcome) :
    QueryM.recorded now state outcome.raw = state.record now outcome := by
  cases outcome <;> rfl

/-- A query is admitted: its circuit is closed, and there is a token. -/
def ProviderState.Admits (state : ProviderState) (t : Readings) : Prop :=
  state.circuitIsOpen t.checked = false ∧ (state.tryConsumeToken t.drawn).1 = true

theorem ProviderState.gate_eq_admitted {state : ProviderState} {t : Readings} :
    (state.gate t).1 = .admitted ↔ state.Admits t := by
  unfold ProviderState.gate ProviderState.Admits
  split_ifs with hopen
  · simp [hopen]
  · split <;> simp_all

/-- A query that is not admitted does nothing but look at the state. -/
theorem exec_queryOne_of_not_admits {now : ℚ} {t : Readings} {state : ProviderState}
    (h : ¬ state.Admits t) :
    (QueryM.queryOne expectedChainId toAddress data client now t).exec ⟨state, []⟩ =
      (.ok none, ⟨(state.gate t).2, []⟩) := by
  unfold QueryM.queryOne
  rw [QueryM.exec_bind_of_ok (QueryM.exec_get _)]
  by_cases hopen : state.circuitIsOpen t.checked
  · simp only [hopen, if_true, ProviderState.gate]
    rfl
  · have htoken : (state.tryConsumeToken t.drawn).1 = false := by
      rw [← Bool.not_eq_true]
      exact fun htrue => h ⟨Bool.eq_false_iff.mpr hopen, htrue⟩
    obtain ⟨state', hconsume⟩ : ∃ state', state.tryConsumeToken t.drawn = (false, state') :=
      ⟨_, Prod.ext htoken rfl⟩
    simp only [if_neg hopen, ProviderState.gate, hconsume]
    rfl

/-- A query that is admitted takes its course. -/
theorem exec_queryOne_of_admits {now : ℚ} {t : Readings} {state : ProviderState}
    (h : state.Admits t)
    (hcourse : QueryM.Course expectedChainId toAddress data client 2 0 actions vote) :
    (QueryM.queryOne expectedChainId toAddress data client now t).exec ⟨state, []⟩ =
      (.ok vote, ⟨QueryM.recorded now (state.gate t).2 vote, actions⟩) := by
  obtain ⟨hclosed, htoken⟩ := h
  obtain ⟨state', hconsume⟩ : ∃ state', state.tryConsumeToken t.drawn = (true, state') :=
    ⟨_, Prod.ext htoken rfl⟩
  have hgate : (state.gate t).2 = state' := by
    simp only [ProviderState.gate, hclosed, hconsume, Bool.false_eq_true, if_false]
  have hattempts := QueryM.exec_attempts now ⟨state', []⟩ hcourse
  unfold QueryM.queryOne
  rw [QueryM.exec_bind_of_ok (QueryM.exec_get _), hgate]
  simp only [hclosed, hconsume, Bool.false_eq_true, if_false]
  exact hattempts

/-- A query sends at most four requests. -/
theorem requests_askUpTo_le (expectedChainId : ℤ) (toAddress data : String) (client : Client) :
    (askUpTo expectedChainId toAddress data client 2 0).2 ≤ 4 := by
  obtain ⟨actions, vote, hcourse⟩ :=
    QueryM.Course.exists_course expectedChainId toAddress data client 2 0
  obtain ⟨outcome, -, hask⟩ := hcourse.askUpTo_eq
  have hle := hcourse.requests_le
  rw [hask]
  omega

end Parts

/-- **A query is its gate, its attempts and its record**, one after the other. -/
theorem queryOne_eq (expectedChainId : ℤ) (toAddress data : String) (client : Client)
    (t : Readings) (now : ℚ) (state : ProviderState) :
    ∃ vote after,
      (QueryM.queryOne expectedChainId toAddress data client now t).exec ⟨state, []⟩ =
        (.ok vote, after) ∧
      ((state.gate t).1 = .admitted →
        vote = (ask expectedChainId toAddress data client).raw ∧
        after.state = (state.gate t).2.record now (ask expectedChainId toAddress data client) ∧
        after.sent = (askUpTo expectedChainId toAddress data client 2 0).2) ∧
      ((state.gate t).1 ≠ .admitted → vote = none ∧ after = ⟨(state.gate t).2, []⟩) := by
  by_cases hadmits : state.Admits t
  · obtain ⟨actions, vote, hcourse⟩ :=
      QueryM.Course.exists_course expectedChainId toAddress data client 2 0
    obtain ⟨outcome, hraw, hask⟩ := hcourse.askUpTo_eq
    refine ⟨vote, _, exec_queryOne_of_admits hadmits hcourse, fun _ => ?_, fun hne => ?_⟩
    · rw [ask, hask]
      refine ⟨hraw.symm, ?_, by rw [QueryContext.sent, Nat.zero_add]⟩
      rw [← hraw, recorded_raw]
    · exact absurd (ProviderState.gate_eq_admitted.mpr hadmits) hne
  · refine ⟨none, _, exec_queryOne_of_not_admits hadmits, fun hgate => ?_, fun _ => ⟨rfl, rfl⟩⟩
    exact absurd (ProviderState.gate_eq_admitted.mp hgate) hadmits

/-! ## Votes -/

/-- The records among the actions of a query. -/
def QueryContext.records (context : QueryContext) : List QueryAction :=
  context.actions.filter fun action => !action.isRequest

/-- What an admitted query does with its attempts. -/
structure AdmittedQuery (expectedChainId : ℤ) (toAddress data : String) (client : Client)
    (now : ℚ) (gated : ProviderState) (vote : Option String) (after : QueryContext) : Prop where
  sent_le : after.sent ≤ 4
  one_record : (after.records = [.recordSuccess] ∧ after.state = gated.recordSuccess) ∨
    (after.records = [.recordFailure] ∧ after.state = gated.recordFailure now)
  vote_iff_success : vote.isSome ↔ after.records = [.recordSuccess]
  vote_iff : ∀ raw, vote = some raw ↔
    VotesAt expectedChainId toAddress data client 0 raw ∨
      ∃ k, RaisesAt expectedChainId toAddress data client 0 k ∧
        VotesAt expectedChainId toAddress data client k raw
  wrong_chain : WrongChainAt expectedChainId client 0 → vote = none ∧
    after.actions = [.request .ethChainId, .recordFailure]
  wrong_chain_retry : ∀ k, RaisesAt expectedChainId toAddress data client 0 k →
    WrongChainAt expectedChainId client k → vote = none ∧
      after.actions = firstRequests toAddress data k ++ [.request .ethChainId, .recordFailure]

/-- **What `_query_one` counts as a vote**: it never raises; it sends nothing when it is not
admitted, and leaves the breaker alone; otherwise it makes one record after at most four requests,
and votes exactly when that record is a success, in an attempt that saw the expected chain and a
valid balance one after the other. -/
theorem query_one_votes (expectedChainId : ℤ) (toAddress data : String) (client : Client)
    (t : Readings) (now : ℚ) (state : ProviderState) :
    ∃ vote after,
      (QueryM.queryOne expectedChainId toAddress data client now t).exec ⟨state, []⟩ =
        (.ok vote, after) ∧
      (¬ state.Admits t → vote = none ∧ after.actions = [] ∧
        after.state.consecutiveFailures = state.consecutiveFailures ∧
        after.state.circuitOpenUntil = state.circuitOpenUntil) ∧
      (state.Admits t → AdmittedQuery expectedChainId toAddress data client now
        (state.tryConsumeToken t.drawn).2 vote after) := by
  by_cases hadmits : state.Admits t
  · obtain ⟨actions, vote, hcourse⟩ :=
      QueryM.Course.exists_course expectedChainId toAddress data client 2 0
    have hgate : (state.gate t).2 = (state.tryConsumeToken t.drawn).2 := by
      rw [ProviderState.gate, hadmits.1]
      cases hconsume : state.tryConsumeToken t.drawn with
      | mk admitted state' => cases admitted <;> rfl
    refine ⟨vote, _, exec_queryOne_of_admits hadmits hcourse, fun hno => absurd hadmits hno,
      fun _ => ?_⟩
    rw [hgate]
    have hrecords := hcourse.records
    refine ⟨hcourse.requests_le, ?_, ?_, fun raw => ?_, fun hwrong => ?_, fun k hraises hwrong => ?_⟩
    · cases vote with
      | none => exact .inr ⟨hrecords, rfl⟩
      | some raw => exact .inl ⟨hrecords, rfl⟩
    · rw [QueryContext.records, hrecords]
      cases vote <;> simp
    · simpa only [Nat.zero_add] using hcourse.vote_iff
    · obtain ⟨hactions, hvote⟩ := hcourse.unique (.wrongChain hwrong)
      exact ⟨hvote, hactions⟩
    · rw [← Nat.zero_add k] at hwrong
      obtain ⟨hactions, hvote⟩ := hcourse.unique (.retry hraises (.wrongChain hwrong))
      exact ⟨hvote, hactions⟩
  · refine ⟨none, _, exec_queryOne_of_not_admits hadmits, fun _ => ?_,
      fun h => absurd h hadmits⟩
    exact ⟨rfl, rfl, ProviderState.gate_breaker t state⟩

end Gateway
