import Mathlib.Logic.Function.Basic
import Gateway.Foundations.Json

/-!
# RPC providers

One provider of a consensus round: the pool it belongs to, the state that the process keeps under
its name, and one query. A query is admitted by the provider's circuit breaker and token bucket
(`ProviderState.gate`); it then asks for the chain id and the balance, at most twice (`ask`); and
it is recorded as a success or as a failure (`ProviderState.record`). The three parts have names of
their own because the queries of concurrent rounds interleave between them.

Times are readings of the monotonic clock in seconds.
-/

namespace Gateway

open Foundations

/-! ## Pools -/

/-- One independent RPC endpoint. -/
structure RpcProvider where
  name : String
  url : String
  deriving DecidableEq

/-- The settings that the pools depend on. -/
structure Settings where
  alchemyApiKey : String := ""
  quicknodeEthereumUrl : String := ""
  quicknodeBscUrl : String := ""
  quicknodePolygonUrl : String := ""
  ankrApiKey : String := ""

/-- `_ALCHEMY_SUBDOMAIN`. -/
def alchemySubdomain : List (String × String) :=
  [("ethereum", "eth-mainnet"), ("binance-smart-chain", "bnb-mainnet"),
    ("polygon-pos", "polygon-mainnet")]

/-- `_ANKR_PATH`. -/
def ankrPath : List (String × String) :=
  [("ethereum", "eth"), ("binance-smart-chain", "bsc"), ("polygon-pos", "polygon")]

/-- `_QUICKNODE_SETTING`, with the settings themselves instead of their names. -/
def quicknodeSetting : List (String × (Settings → String)) :=
  [("ethereum", Settings.quicknodeEthereumUrl), ("binance-smart-chain", Settings.quicknodeBscUrl),
    ("polygon-pos", Settings.quicknodePolygonUrl)]

/-- `build_evm_providers_for_chain`. -/
def buildEvmProvidersForChain (settings : Settings) (chain baselineUrl : String) :
    List RpcProvider :=
  let alchemy :=
    match alchemySubdomain.lookup chain with
    | some subdomain =>
      if settings.alchemyApiKey ≠ "" then
        [⟨"alchemy", "https://" ++ subdomain ++ ".g.alchemy.com/v2/" ++ settings.alchemyApiKey⟩]
      else []
    | none => []
  let quicknodeUrl := ((quicknodeSetting.lookup chain).map fun setting => setting settings).getD ""
  let quicknode := if quicknodeUrl ≠ "" then [⟨"quicknode", quicknodeUrl⟩] else []
  let ankr :=
    match ankrPath.lookup chain with
    | some path =>
      if settings.ankrApiKey ≠ "" then
        [⟨"ankr", "https://rpc.ankr.com/" ++ path ++ "/" ++ settings.ankrApiKey⟩]
      else [⟨"ankr", "https://rpc.ankr.com/" ++ path⟩]
    | none => []
  ⟨"publicnode", baselineUrl⟩ :: (alchemy ++ quicknode ++ ankr)

/-- A pool for a known chain has two providers even without any key. -/
theorem two_le_length_buildEvmProvidersForChain (settings : Settings) {chain path : String}
    (baselineUrl : String) (h : ankrPath.lookup chain = some path) :
    2 ≤ (buildEvmProvidersForChain settings chain baselineUrl).length := by
  unfold buildEvmProvidersForChain
  simp only [h, List.length_cons, List.length_append]
  split_ifs <;> simp

/-! ## Provider states -/

/-- `_FAILURE_THRESHOLD`. -/
def failureThreshold : ℕ := 5

/-- `_COOLDOWN_SECONDS`. -/
def cooldownSeconds : ℚ := 60

/-- `_RATE_LIMIT_PER_SECOND`. -/
def rateLimitPerSecond : ℚ := 8

/-- `_RATE_LIMIT_BURST`. -/
def rateLimitBurst : ℚ := 8

/-- `_ProviderState`. -/
structure ProviderState where
  consecutiveFailures : ℕ
  circuitOpenUntil : ℚ
  tokens : ℚ
  lastRefill : ℚ
  deriving DecidableEq

/-- The readings of the clock when a query starts: when the provider's state is created, if it is
new, when its circuit is looked at, and when a token is drawn. -/
structure Readings where
  created : ℚ
  checked : ℚ
  drawn : ℚ
  created_le : created ≤ checked
  checked_le : checked ≤ drawn

/-- All readings at one time. -/
def Readings.at (now : ℚ) : Readings := ⟨now, now, now, le_rfl, le_rfl⟩

/-- What becomes of a query before it is sent. -/
inductive Admission
  | circuitOpen
  | rateLimited
  | admitted
  deriving DecidableEq

namespace ProviderState

/-- A new `_ProviderState`. -/
def fresh (now : ℚ) : ProviderState where
  consecutiveFailures := 0
  circuitOpenUntil := 0
  tokens := rateLimitBurst
  lastRefill := now

/-- `_ProviderState.record_success`. -/
def recordSuccess (s : ProviderState) : ProviderState :=
  { s with consecutiveFailures := 0, circuitOpenUntil := 0 }

/-- `_ProviderState.record_failure`. -/
def recordFailure (now : ℚ) (s : ProviderState) : ProviderState :=
  let s := { s with consecutiveFailures := s.consecutiveFailures + 1 }
  if failureThreshold ≤ s.consecutiveFailures then
    { s with circuitOpenUntil := now + cooldownSeconds }
  else s

/-- `_ProviderState.circuit_is_open`. -/
def circuitIsOpen (now : ℚ) (s : ProviderState) : Bool := now < s.circuitOpenUntil

/-- Refill the bucket, and take a token from it if there is one. -/
def tryConsumeToken (now : ℚ) (s : ProviderState) : Bool × ProviderState :=
  let elapsed := now - s.lastRefill
  let s := { s with
    lastRefill := now
    tokens := min rateLimitBurst (s.tokens + elapsed * rateLimitPerSecond) }
  if s.tokens < 1 then (false, s) else (true, { s with tokens := s.tokens - 1 })

/-- The first part of `_query_one`: the circuit and the rate limit. -/
def gate (t : Readings) (s : ProviderState) : Admission × ProviderState :=
  if s.circuitIsOpen t.checked then (.circuitOpen, s)
  else
    match s.tryConsumeToken t.drawn with
    | (false, s) => (.rateLimited, s)
    | (true, s) => (.admitted, s)

/-- Drawing a token leaves the circuit breaker alone. -/
theorem tryConsumeToken_breaker (now : ℚ) (s : ProviderState) :
    (s.tryConsumeToken now).2.consecutiveFailures = s.consecutiveFailures ∧
      (s.tryConsumeToken now).2.circuitOpenUntil = s.circuitOpenUntil := by
  simp only [tryConsumeToken]
  split_ifs <;> exact ⟨rfl, rfl⟩

theorem gate_breaker (t : Readings) (s : ProviderState) :
    (s.gate t).2.consecutiveFailures = s.consecutiveFailures ∧
      (s.gate t).2.circuitOpenUntil = s.circuitOpenUntil := by
  have htoken := tryConsumeToken_breaker t.drawn s
  unfold gate
  split_ifs
  · exact ⟨rfl, rfl⟩
  · split <;> simp_all

theorem gate_eq_circuitOpen {t : Readings} {s : ProviderState} :
    (s.gate t).1 = .circuitOpen ↔ s.circuitIsOpen t.checked := by
  unfold gate
  split_ifs with h
  · simp [h]
  · split <;> simp [h]

end ProviderState

/-- `_provider_state`: one state for each provider name that has been asked for. -/
abbrev ProviderStates := String → Option ProviderState

/-- `_state_for`, when it is called at a time. -/
def stateFor (states : ProviderStates) (name : String) (now : ℚ) : ProviderState :=
  (states name).getD (.fresh now)

/-! ## Replies -/

/-- The two requests of a query. -/
inductive RpcRequest
  | ethChainId
  | ethCall (toAddress data : String)
  deriving DecidableEq

/-- What a client answers to the successive requests of a query; `none` is an exception, of the
request or of `json()`. -/
abbrev Client := ℕ → RpcRequest → Option Json

/-- A client that always reports the same chain id and balance. -/
def Client.scripted (chainId balance : String) : Client
  | _, .ethChainId => some (.obj [("result", .str chainId)])
  | _, .ethCall _ _ => some (.obj [("result", .str balance)])

/-- `_is_valid_hex_uint`. -/
def isValidHexUint (value : String) : Bool :=
  match value.toList with
  | '0' :: 'x' :: hexDigits =>
    hexDigits.isEmpty || (hexDigits.length ≤ 64 && (PyText.pyInt 16 hexDigits).isSome)
  | _ => false

/-- The chain id that a reply reports; `none` when reading it raises. -/
def chainIdOf (reply : Json) : Option ℤ :=
  ((reply.orElse (.obj [])).get? "result").bind fun
    | .str chainIdHex => PyText.pyInt 16 chainIdHex.toList
    | _ => none

/-- The raw balance that a reply reports; `none` when reading it raises. -/
def balanceOf (reply : Json) : Option String :=
  match reply.orElse (.obj []) with
  | .obj payload =>
    if (payload.lookup "error").isSome then none
    else
      match (payload.lookup "result").getD .null with
      | .str result => if isValidHexUint result then some result else none
      | _ => none
  -- `in` or `.get` raises on anything else
  | _ => none

/-- How an attempt of a query ends. -/
inductive Outcome
  | vote (raw : String)
  | wrongChain
  | failed
  deriving DecidableEq

/-- One attempt, when `sent` requests have been sent before it, with the number of requests that
have been sent after it. -/
def attempt (expectedChainId : ℤ) (toAddress data : String) (client : Client) (sent : ℕ) :
    Outcome × ℕ :=
  match (client sent .ethChainId).bind chainIdOf with
  | none => (.failed, sent + 1)
  | some reportedChainId =>
    if reportedChainId ≠ expectedChainId then (.wrongChain, sent + 1)
    else
      match (client (sent + 1) (.ethCall toAddress data)).bind balanceOf with
      | none => (.failed, sent + 2)
      | some raw => (.vote raw, sent + 2)

/-- Up to `attempts` attempts, until one does not fail. -/
def askUpTo (expectedChainId : ℤ) (toAddress data : String) (client : Client) :
    (attempts sent : ℕ) → Outcome × ℕ
  | 0, sent => (.failed, sent)
  | attempts + 1, sent =>
    match attempt expectedChainId toAddress data client sent with
    | (.failed, sent) => askUpTo expectedChainId toAddress data client attempts sent
    | (outcome, sent) => (outcome, sent)

/-- The loop of `_query_one`: one retry, no more. -/
def ask (expectedChainId : ℤ) (toAddress data : String) (client : Client) : Outcome :=
  (askUpTo expectedChainId toAddress data client 2 0).1

/-- What an outcome counts as in the round. -/
def Outcome.raw : Outcome → Option String
  | .vote raw => some raw
  | _ => none

/-- The record that `_query_one` makes of an outcome. -/
def ProviderState.record (now : ℚ) (s : ProviderState) : Outcome → ProviderState
  | .vote _ => s.recordSuccess
  | _ => s.recordFailure now

/-- A vote is a string that passed the sanity check. -/
theorem isValidHexUint_of_balanceOf {reply : Json} {raw : String} (h : balanceOf reply = some raw) :
    isValidHexUint raw := by
  unfold balanceOf at h
  split at h
  · split_ifs at h
    split at h
    · split_ifs at h with hvalid
      cases h
      exact hvalid
    · cases h
  · cases h

section Ask

variable {expectedChainId : ℤ} {toAddress data raw : String} {client : Client}

theorem isValidHexUint_of_attempt {sent : ℕ}
    (h : (attempt expectedChainId toAddress data client sent).1 = .vote raw) :
    isValidHexUint raw := by
  unfold attempt at h
  split at h
  · cases h
  · split_ifs at h
    split at h
    · cases h
    · rename_i hbalance
      cases h
      obtain ⟨reply, -, hreply⟩ := Option.bind_eq_some_iff.mp hbalance
      exact isValidHexUint_of_balanceOf hreply

/-- A vote comes from one attempt. -/
theorem attempt_of_askUpTo {attempts sent : ℕ}
    (h : (askUpTo expectedChainId toAddress data client attempts sent).1 = .vote raw) :
    ∃ sent', (attempt expectedChainId toAddress data client sent').1 = .vote raw := by
  induction attempts generalizing sent with
  | zero => cases h
  | succ attempts ih =>
    simp only [askUpTo] at h
    split at h
    · exact ih h
    · rename_i hattempt
      exact ⟨sent, by rw [hattempt]; exact h⟩

theorem isValidHexUint_of_ask
    (h : (ask expectedChainId toAddress data client).raw = some raw) : isValidHexUint raw := by
  unfold ask at h
  cases houtcome : (askUpTo expectedChainId toAddress data client 2 0).1 with
  | vote raw' =>
    rw [houtcome] at h
    obtain rfl : raw' = raw := Option.some.inj h
    obtain ⟨sent, hattempt⟩ := attempt_of_askUpTo houtcome
    exact isValidHexUint_of_attempt hattempt
  | wrongChain => rw [houtcome] at h; cases h
  | failed => rw [houtcome] at h; cases h

end Ask

end Gateway
