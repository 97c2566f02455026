import Wamn.Events.Wire
import Wamn.RunState.Queue

/-!
# The host's queue transactions

The host composes the statements of the run plane into one transaction per queue turn, a function
from the plane to its answer and the new plane. What the surroundings decide (clocks, rows locked by
others, jitter, a refused grant) is a `Turn`. Identity resolution and connection checkout come
before and change no row, so a `Session` starts with the runner name and release.
-/

namespace Wamn.Runtime

open Lib Lib.Json Lib.Text RunState Events

variable {J : Type}

/-! ## Errors -/

inductive ProductionClaimErrorType where
  | identity
  | wiringIdentity
  | storage
  | contract
  deriving DecidableEq

structure ProductionClaimError where
  errorType : ProductionClaimErrorType
  operation : String
  detail : String
  deriving DecidableEq

def storage {α : Type} (operation : String) (x : Except DbError α) :
    Except ProductionClaimError α :=
  x.mapError fun e => ⟨.storage, operation, e.detail⟩

def queryOne {α : Type} (operation : String) (x : Except DbError (Option α × Plane J)) :
    Except ProductionClaimError (α × Plane J) := do
  match ← storage operation x with
  | (some row, p) => pure (row, p)
  | (none, _) => throw ⟨.storage, operation, "query returned an unexpected number of rows"⟩

/-- The text of a failed narrowing integer conversion. -/
def outOfRange : String := "out of range integral type conversion attempted"

/-! ## Completions -/

/-- The caller result of a run. Only a response always names its node. -/
inductive ProductionCallerOutcome where
  | responded (body : Value) (httpStatus : UInt16) (releaseNodeId : String)
  | failed (body : Value) (httpStatus : UInt16) (releaseNodeId : Option String)
  deriving DecidableEq

namespace ProductionCallerOutcome

def outcomeType : ProductionCallerOutcome → CallerOutcomeType
  | responded .. => .responded
  | failed .. => .failed

def body : ProductionCallerOutcome → Value
  | responded body _ _ => body
  | failed body _ _ => body

def httpStatus : ProductionCallerOutcome → UInt16
  | responded _ status _ => status
  | failed _ status _ => status

def releaseNodeId : ProductionCallerOutcome → Option String
  | responded _ _ node => some node
  | failed _ _ node => node

end ProductionCallerOutcome

/-- The terminal fact of one router outcome. There is no third way to build one. -/
inductive ProductionCompletion where
  | completed (result : Value) (caller : Option ProductionCallerOutcome)
  | failed (result : Value) (failType : FailType) (caller : Option ProductionCallerOutcome)
  deriving DecidableEq

namespace ProductionCompletion

/-- The caller outcome released with the run, if a caller is attached. -/
def caller : ProductionCompletion → Option ProductionCallerOutcome
  | completed _ caller => caller
  | failed _ _ caller => caller

/-- The binds of the terminalization at the completion's instant. -/
def terminalization (instant : Instant) : ProductionCompletion → Terminalization
  | completed result _ => ⟨.completed, "router-completed", result, none, instant, rfl⟩
  | failed result failType _ => ⟨.failed, "router-failed", result, some failType, instant, rfl⟩

end ProductionCompletion

inductive ProductionCompletionResult where
  | terminalized
  | alreadyTerminal (status : RunStatus)
  | fenceLost
  | notFound
  deriving DecidableEq

inductive ProductionLeaseRenewal where
  | renewed
  | fenceLost
  deriving DecidableEq

inductive ProductionReapResult where
  | empty
  | reaped (runId : RunId)
  deriving DecidableEq

/-! ## Claims -/

/-- Candidate-only authority frozen on the run at admission. -/
structure ProductionCandidate where
  wiringHash : String
  bindingWorld : Value
  deriving DecidableEq

/-- What an event, manual or schedule workflow run froze at admission. -/
structure ProductionWorkflow where
  wiringHash : String
  executionPrincipalId : String
  executionRole : String
  nodeDigests : List (String × String)
  causation : Option Causation
  deriving DecidableEq

structure SelectedClaim where
  runId : RunId
  packageId : String
  hadPriorLease : Bool
  status : RunStatus
  payload : Value
  wiringId : String
  wiringVersion : ℤ
  routerCallerAttached : Bool
  durableCallerAttached : Bool
  candidate : Option ProductionCandidate
  servicePrincipalId : Option String
  workflow : Option ProductionWorkflow
  deriving DecidableEq

/-- A committed claim: the selected row and the generation of its lease. -/
structure ReadyClaim where
  selected : SelectedClaim
  leaseGeneration : ℤ
  deriving DecidableEq

/-- The outcome of a claim transaction that commits. -/
inductive ClaimTurn where
  /-- No eligible row was visible. -/
  | empty
  /-- A fresh lease for router execution. -/
  | ready (claim : ReadyClaim)
  /-- The grant was refused inside its own subtransaction, which is rolled back; the attempt
  advance before it commits and the claim fails with this error. -/
  | grantRefused (error : ProductionClaimError)
  deriving DecidableEq

/-- What the host-injected identity of a component gives a transaction. -/
structure Session where
  runner : String
  release : Option String
  executorAuthority : Bool

/-- What the surroundings decide: `now()`, the instant of the writing statement, the host's clock,
rows locked by others, `random()`, and a refusal of the grant. -/
structure Turn where
  now : Instant
  statementTimestamp : Instant
  hostTime : Instant
  locked : RunId → Bool
  random : ℚ
  grantRefusal : Option DbError

variable (session : Session) (pg : Postgres J) (r : Run J)

/-- The connected role must be a member of the executor's ACL role. -/
def requireExecutorAuthority : Except ProductionClaimError Unit :=
  ensure session.executorAuthority
    ⟨.identity, "check executor authority", "executor-platform-authority-required"⟩

/-- The error of a run whose stored grain is not one of the complete ones. -/
def corrupt (detail : String) : ProductionClaimError :=
  ⟨.contract, "decode production candidate", detail⟩

def decodeWiringIdentity (wiringId : Option String) (wiringVersion : Option ℤ) :
    Except ProductionClaimError (String × ℤ) :=
  match wiringId, wiringVersion with
  | some id, some version =>
    if id ≠ "" ∧ 0 < version then pure (id, version)
    else throw ⟨.wiringIdentity, "decode production candidate", "run-wiring-identity-corrupt"⟩
  | none, none =>
    throw ⟨.wiringIdentity, "decode production candidate", "run-wiring-identity-missing"⟩
  | _, _ => throw ⟨.wiringIdentity, "decode production candidate", "run-wiring-identity-corrupt"⟩

/-- A JSON object of strings, or none for any other value. -/
def stringMap (v : Value) : Option (List (String × String)) :=
  v.asObject.bind fun members =>
    members.mapM fun m => m.2.asString.map fun text => (m.1, text)

/-- The execution of an event, manual or schedule run; other grains carry none of its columns. -/
def decodeWorkflow : Except ProductionClaimError (Option ProductionWorkflow) :=
  match r.triggerSource.elim false TriggerSource.isWorkflow, r.wiringHash, r.executionPrincipalId,
      r.executionRole, r.nodeDigestsJson with
  -- No other grain carries a workflow column, not even one of them.
  | false, _, none, none, none => pure none
  | true, some wiringHash, some principal, some role, some digests =>
    if role = "" then throw (corrupt "run-workflow-execution-corrupt")
    else match (pg.toValue digests).toOption.bind stringMap with
      | none => throw (corrupt "run-workflow-execution-corrupt")
      | some nodeDigests => pure (some ⟨wiringHash, principal, role, nodeDigests, none⟩)
  | _, _, _, _, _ => throw (corrupt "run-workflow-execution-corrupt")

/-- The causation of a claimed workflow run, if its row stores a root and a depth. -/
def decodeCausation (id : RunId) (r : Run J) : Except ProductionClaimError (Option Causation) :=
  match r.eventRootRunId, r.eventDepth with
  | some root, some depth =>
    -- The claimed run is the writer of what it causes, under the root and depth it stores.
    if depth < 0 then throw ⟨.contract, "decode event depth", outOfRange⟩
    else pure (some ⟨id, root, depth.toNat⟩)
  | _, _ => pure none

/-- The candidate authority of a run, by its execution grain. -/
def decodeCandidate : Except ProductionClaimError (Option ProductionCandidate) :=
  match r.flowId, r.flowVersion, r.wiringHash, r.bindingWorldJson with
  -- The wiring grain, the flow grain, and the candidate grain with its frozen bindings.
  | none, none, some hash, none =>
    if hash ≠ "" then pure none else throw (corrupt "run-execution-grain-corrupt")
  | some flowId, some flowVersion, none, none =>
    if flowId ≠ "" ∧ 0 < flowVersion then pure none
    else throw (corrupt "run-execution-grain-corrupt")
  | none, none, some hash, some world =>
    if hash ≠ "" then do
      let value ← (pg.toValue world).mapError fun e =>
        corrupt ("candidate-binding-world-json-invalid: " ++ e)
      let bindingWorld ← (pg.candidateBindingWorld value).mapError corrupt
      pure (some ⟨hash, bindingWorld⟩)
    else throw (corrupt "run-execution-grain-corrupt")
  | _, _, _, _ => throw (corrupt "run-execution-grain-corrupt")

/-- The projection `router_caller_attached`: a caller waits for the router's answer. -/
def routerCallerAttached : Bool :=
  r.durableCallerAttached || (r.flowId.isNone && r.flowVersion.isNone &&
    (r.triggerSource = some .scenarioDraft || r.triggerSource = some .testCase))

def decodePayload : Except ProductionClaimError Value :=
  match r.inputJson with
  | none => throw ⟨.contract, "decode production claim row",
      "authoritative input: error deserializing column 3: a Postgres value was `NULL`"⟩
  | some json => (pg.toValue json).mapError fun e => corrupt ("authoritative input: " ++ e)

/-- The workflow execution of a run, with the causation it executes under. -/
def decodeExecution (s : Queued J) : Except ProductionClaimError (Option ProductionWorkflow) := do
  match ← decodeWorkflow pg s.run with
  | none => pure none
  | some w => do
    let causation ← decodeCausation s.runId s.run
    pure (some { w with causation := causation })

/-- The locked head as the host will execute it. -/
def decodeSelectedClaim (s : Queued J) : Except ProductionClaimError SelectedClaim := do
  let payload ← decodePayload pg s.run
  let wiring ← decodeWiringIdentity s.run.wiringId s.run.wiringVersion
  let candidate ← decodeCandidate pg s.run
  -- A candidate answers through the router alone, never through a durable caller row.
  ensure (candidate.isNone || (routerCallerAttached s.run && !s.run.durableCallerAttached))
    (corrupt "candidate-caller-grain-corrupt")
  let workflow ← decodeExecution pg s
  -- A workflow execution excludes the two other kinds of authority.
  ensure (workflow.isNone || (candidate.isNone && s.run.servicePrincipalId.isNone))
    (corrupt "run-execution-grain-corrupt")
  pure {
    runId := s.runId
    packageId := s.run.packageId
    hadPriorLease := s.entry.leaseExpiresAt.isSome
    status := s.run.status
    payload := payload
    wiringId := wiring.1
    wiringVersion := wiring.2
    routerCallerAttached := routerCallerAttached s.run
    durableCallerAttached := s.run.durableCallerAttached
    candidate := candidate
    servicePrincipalId := s.run.servicePrincipalId
    workflow := workflow }

/-- Clear the state of an abandoned attempt. -/
def clearAbandoned (selected : SelectedClaim) (p : Plane J) :
    Except ProductionClaimError (Plane J) :=
  if selected.hadPriorLease then do
    let (_, p') ← queryOne "clear pre-effect state" (clearPreEffectState pg selected.runId p)
    pure p'
  else pure p

section

variable (session : Session) (ttlMs : ℤ) (turn : Turn) (selected : SelectedClaim) (p : Plane J)

/-- The grant statement of a claim. A candidate run carries no release pin to verify. -/
def attemptGrant : Except DbError (Option ℤ × Plane J) :=
  let manifestDigest := if selected.candidate.isNone then session.release else none
  match turn.grantRefusal with
  | some refusal => throw refusal
  | none => grantProductionClaim pg selected.runId session.runner ttlMs manifestDigest
      turn.statementTimestamp p

/-- The grant inside its savepoint, to which a refusal rolls back; a grant of no row fails the
transaction. -/
def grantInSavepoint : Except ProductionClaimError (ClaimTurn × Plane J) :=
  match attemptGrant pg session ttlMs turn selected p with
  -- The attempt was counted outside of the savepoint, and stays counted.
  | .error refusal => pure (.grantRefused ⟨.storage, "grant production lease", refusal.detail⟩, p)
  | .ok (none, _) => throw ⟨.contract, "grant production lease",
      "claiming release digest does not match the run admission pin"⟩
  | .ok (some generation, p') => pure (.ready ⟨selected, generation⟩, p')

end

section

variable (session : Session) (scope : Scope) (ttlMs : ℤ) (turn : Turn) (p : Plane J)

/-- `claim_in_transaction`. -/
def claimInTransaction : Except ProductionClaimError (ClaimTurn × Plane J) := do
  requireExecutorAuthority session
  match p.lockFirst turn.locked (claimEligible scope session.release turn.now) with
  | none => pure (.empty, p)
  | some s => do
    let selected ← decodeSelectedClaim pg s
    ensure (!selected.status.isTerminal) ⟨.contract, "validate selected run", "queue row " ++
      selected.runId ++ " references non-runnable status " ++ selected.status.asSql⟩
    -- Both writes come before the savepoint: they survive a refused grant.
    let p₁ ← clearAbandoned pg selected p
    let (_, p₂) ← queryOne "advance crash evidence" (advanceClaimAttempts selected.runId p₁)
    grantInSavepoint pg session ttlMs turn selected p₂

/-- A nonempty set of nonempty, trimmed package ids without NUL. -/
def validPackageScope (packageIds : List String) : Bool :=
  !packageIds.isEmpty && packageIds.all fun id =>
    id ≠ "" && !(id.toList.head?.elim false isWhiteSpace) &&
      !(id.toList.getLast?.elim false isWhiteSpace) && !id.toList.contains '\x00'

def claimNext : Except ProductionClaimError (ClaimTurn × Plane J) := do
  ensure (validPackageScope scope.packageIds && scope.environment ≠ "" && 0 < ttlMs)
    ⟨.contract, "validate queue scope",
      "a nonempty canonical package set, environment, and positive lease TTL are required"⟩
  claimInTransaction pg session scope ttlMs turn p

end

/-! ## Renewal, deadline reports and completion -/

/-- Extend one claimed run's lease under its generation fence. -/
def renew (runId : RunId) (leaseGeneration ttlMs : ℤ) (turn : Turn)
    (p : Plane J) : Except ProductionClaimError (ProductionLeaseRenewal × Plane J) := do
  ensure (0 < leaseGeneration && 0 < ttlMs) ⟨.contract, "validate production lease renewal",
    "lease generation and TTL must be positive"⟩
  requireExecutorAuthority session
  let (renewed, p') := renewProductionLease runId session.runner leaseGeneration ttlMs
    turn.statementTimestamp p
  pure (if renewed.isSome then .renewed else .fenceLost, p')

/-- The fence a host presents: its own runner name, and the run it claimed for both ids. -/
def Session.fence (runId : RunId) (leaseGeneration : ℤ) : Fence :=
  ⟨runId, runId, session.runner, leaseGeneration⟩

/-- `record_deadline_adjustments`: store deadline changes before settlement. -/
def reportDeadlines (session : Session) (runId : RunId) (leaseGeneration : ℤ)
    (adjustments : Value) (p : Plane J) : Except ProductionClaimError (Bool × Plane J) := do
  ensure (0 < leaseGeneration)
    ⟨.contract, "validate production deadline report", "lease generation must be positive"⟩
  requireExecutorAuthority session
  storage "store deadline report"
    (recordDeadlineAdjustments pg (session.fence runId leaseGeneration) adjustments p)

def decodeHttpStatus : Option ℤ → Except ProductionClaimError (Option UInt16)
  | none => pure none
  | some n =>
    if 0 ≤ n ∧ n < 65536 then pure (some (UInt16.ofNat n.toNat))
    else throw ⟨.contract, "decode production caller outcome", outOfRange⟩

def decodeBody : Option J → Except ProductionClaimError (Option Value)
  | none => pure none
  | some json => do
    let body ← (pg.toValue json).mapError fun e =>
      ⟨.contract, "decode production caller outcome", e⟩
    pure (some body)

def unknownResult (code : ResultCode) : String :=
  "unknown or incomplete result \"" ++ code.asSql ++ "\""

def decodeCallerRelease (row : CallerReleaseRow J) :
    Except ProductionClaimError CallerReleaseResult := do
  let body ← decodeBody pg row.body
  let httpStatus ← decodeHttpStatus row.httpStatus
  match CallerReleaseResult.fromParts row.code row.runStatus row.kind body httpStatus
      row.releaseNodeId row.hash with
  | some result => pure result
  | none => throw ⟨.contract, "decode production caller release", unknownResult row.code⟩

def decodeTerminalization (answer : ResultCode × Option RunStatus) :
    Except ProductionClaimError TerminalizeResult :=
  match TerminalizeResult.fromParts answer.1 answer.2 with
  | some result => pure result
  | none => throw ⟨.contract, "decode production terminalization", unknownResult answer.1⟩

/-- The binds of the caller release of a completion at its instant. -/
def ProductionCallerOutcome.release (instant : Instant)
    (caller : ProductionCallerOutcome) : CallerRelease where
  kind := caller.outcomeType
  body := caller.body
  httpStatus := caller.httpStatus.toNat
  releaseNodeId := caller.releaseNodeId
  hash := pg.canonicalJsonSha256 caller.body
  instant := instant

/-- The stored outcome is the one this caller outcome would store. -/
def ProductionCallerOutcome.isStored (caller : ProductionCallerOutcome)
    (stored : StoredCallerOutcome) : Bool :=
  stored.exactlyMatches caller.outcomeType caller.body (some caller.httpStatus)
    caller.releaseNodeId (pg.canonicalJsonSha256 caller.body)

/-- The caller release of a completion, which goes on or answers at once. -/
def releaseForCompletion (f : Fence) (caller : ProductionCallerOutcome)
    (instant : Instant) (p : Plane J) :
    Except ProductionClaimError (Option ProductionCompletionResult × Plane J) := do
  let (row, p') ← storage "release production caller"
    (releaseCaller pg f (caller.release pg instant) p)
  match ← decodeCallerRelease pg row with
  | .released => pure (none, p')
  | .alreadyReleased stored =>
    -- A repeated completion goes on over its own outcome, and over no other.
    if caller.isStored pg stored then pure (none, p')
    else throw ⟨.contract, "release production caller", "production-caller-outcome-conflict"⟩
  | .runTerminal status => pure (some (.alreadyTerminal status), p')
  | .fenceLost => pure (some .fenceLost, p')
  | .notFound => pure (some .notFound, p')
  | .crossRunAuthority =>
    throw ⟨.contract, "release production caller", "production-cross-run-authority"⟩

def terminalizeForCompletion (f : Fence) (t : Terminalization) (p : Plane J) :
    Except ProductionClaimError (ProductionCompletionResult × Plane J) := do
  let (answer, p') ← storage "terminalize production run" (terminalize pg f t p)
  match ← decodeTerminalization answer with
  | .terminalized => pure (.terminalized, p')
  | .runTerminal status => pure (.alreadyTerminal status, p')
  | .fenceLost => pure (.fenceLost, p')
  | .notFound => pure (.notFound, p')
  | .callerUnreleased =>
    throw ⟨.contract, "terminalize production run", "production-caller-unreleased"⟩
  | .crossRunAuthority =>
    throw ⟨.contract, "terminalize production run", "production-cross-run-authority"⟩

section

variable (session : Session) (runId : RunId) (leaseGeneration : ℤ)
  (completion : ProductionCompletion) (turn : Turn) (p : Plane J)

/-- `complete_in_transaction`: release the caller, then terminalize, at one host instant. -/
def completeInTransaction : Except ProductionClaimError (ProductionCompletionResult × Plane J) := do
  requireExecutorAuthority session
  let f := session.fence runId leaseGeneration
  let t := completion.terminalization turn.hostTime
  match completion.caller with
  | none => terminalizeForCompletion pg f t p
  | some caller => do
    match ← releaseForCompletion pg f caller turn.hostTime p with
    -- An answer of the release ends the transaction, which commits without a write.
    | (some answer, p') => pure (answer, p')
    | (none, p') => terminalizeForCompletion pg f t p'

/-- Persist one router outcome and dequeue under the claim fence. -/
def complete : Except ProductionClaimError (ProductionCompletionResult × Plane J) := do
  ensure (0 < leaseGeneration)
    ⟨.contract, "validate production completion", "lease generation must be positive"⟩
  completeInTransaction pg session runId leaseGeneration completion turn p

end

/-! ## Claim release and janitor -/

/-- The identity an exhausted run is reported under. -/
inductive ExhaustedExecutionIdentity where
  | flow (flowId : String) (flowVersion : ℤ)
  | wiring (wiringId : String) (wiringVersion : ℤ)
  deriving DecidableEq

def jsonInt (n : ℤ) : Value :=
  .number (if 0 ≤ n then .posInt n.toNat else .negInt n)

def genericFailureOutcome (code : String) (identity : ExhaustedExecutionIdentity)
    (runId : RunId) : Value :=
  let coordinate := match identity with
    | .flow flowId flowVersion => Value.ofMembers [("code", .string code),
        ("flow-id", .string flowId), ("flow-version", jsonInt flowVersion),
        ("run-id", .string runId)]
    | .wiring wiringId wiringVersion => Value.ofMembers [("code", .string code),
        ("wiring-id", .string wiringId), ("wiring-version", jsonInt wiringVersion),
        ("run-id", .string runId)]
  .ofMembers [("error", coordinate)]

def requireColumn {α : Type} (field : String) (column : ℕ) :
    Option α → Except ProductionClaimError α
  | some value => pure value
  | none => throw ⟨.contract, "decode production claim row", field ++
      ": error deserializing column " ++ toString column ++ ": a Postgres value was `NULL`"⟩

section

variable (session : Session) (runId : RunId) (leaseGeneration : ℤ)

/-- `release_in_transaction`: give a claim back, or fail the run at the attempt limit. False: the
fence is lost. -/
def releaseInTransaction (turn : Turn) (p : Plane J) :
    Except ProductionClaimError (Bool × Plane J) := do
  requireExecutorAuthority session
  let (row, p₁) ← storage "release production claim" (releaseProductionClaim runId session.runner
    leaseGeneration turn.statementTimestamp turn.random p)
  match row with
  | none => pure (false, p₁)
  | some released =>
    if released.exhausted then do
      -- The last attempt: the release and the ending commit together, or not at all.
      let wiringId ← requireColumn "released wiring id" 1 released.wiringId
      let wiringVersion ← requireColumn "released wiring version" 2 released.wiringVersion
      let body := genericFailureOutcome FailType.retryExhausted.asSql
        (.wiring wiringId wiringVersion) runId
      let (_, p₂) ← queryOne "terminalize release exhaustion" (terminalizeExhausted pg
        .retryExhausted runId body (pg.canonicalJsonSha256 body) turn.hostTime p₁)
      pure (true, p₂)
    else pure (true, p₁)

def releaseClaim (turn : Turn) (p : Plane J) : Except ProductionClaimError (Bool × Plane J) := do
  ensure (0 < leaseGeneration)
    ⟨.contract, "validate production lease release", "lease generation must be positive"⟩
  releaseInTransaction pg session runId leaseGeneration turn p

/-- The identity of an exhausted run, by its execution grain. -/
def decodeExhaustedIdentity : Except ProductionClaimError ExhaustedExecutionIdentity :=
  match r.flowId, r.flowVersion, r.wiringId, r.wiringVersion with
  | some flowId, some flowVersion, _, _ =>
    if flowId ≠ "" ∧ 0 < flowVersion then pure (.flow flowId flowVersion)
    else throw ⟨.contract, "decode exhausted candidate", "run-execution-grain-corrupt"⟩
  | none, none, some wiringId, some wiringVersion =>
    if wiringId ≠ "" ∧ 0 < wiringVersion then pure (.wiring wiringId wiringVersion)
    else throw ⟨.contract, "decode exhausted candidate", "run-execution-grain-corrupt"⟩
  | _, _, _, _ => throw ⟨.contract, "decode exhausted candidate", "run-execution-grain-corrupt"⟩

/-- End at most one run whose crash budget is exhausted. -/
def reapInTransaction (scope : Scope) (graceMs : ℤ)
    (turn : Turn) (p : Plane J) : Except ProductionClaimError (ProductionReapResult × Plane J) := do
  requireExecutorAuthority session
  match p.lockFirst turn.locked (exhaustedEligible scope graceMs turn.now) with
  | none => pure (.empty, p)
  | some s => do
    -- A grain that does not decode fails the turn and leaves the row to the next one.
    let identity ← decodeExhaustedIdentity s.run
    ensure (!s.run.status.isTerminal) ⟨.contract, "validate exhausted candidate",
      "non-runnable status " ++ s.run.status.asSql⟩
    let body := genericFailureOutcome "infrastructure-failure" identity s.runId
    let (status, p') ← storage "terminalize exhausted run" (terminalizeExhausted pg
      .infrastructureFailure s.runId body (pg.canonicalJsonSha256 body) turn.hostTime p)
    match status with
    | none => throw ⟨.contract, "terminalize exhausted run",
        "selected run or queue row disappeared while locked"⟩
    | some status =>
      if status ≠ .infrastructureFailure then
        throw ⟨.contract, "terminalize exhausted run", "unexpected status \"" ++ status.asSql ++
          "\""⟩
      else pure (.reaped s.runId, p')

def reapExhausted (scope : Scope) (graceMs : ℤ)
    (turn : Turn) (p : Plane J) : Except ProductionClaimError (ProductionReapResult × Plane J) := do
  ensure (validPackageScope scope.packageIds && scope.environment ≠ "" && 0 ≤ graceMs)
    ⟨.contract, "validate janitor scope",
      "a nonempty canonical package set, environment, and non-negative janitor grace are required"⟩
  reapInTransaction pg session scope graceMs turn p

end

end Wamn.Runtime
