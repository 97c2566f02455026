import Mathlib.Data.List.MinMax
import Mathlib.Data.Prod.Lex
import Mathlib.Data.Rat.Floor
import Mathlib.Data.String.Basic
import Mathlib.Algebra.Order.Ring.WithTop
import Wamn.RunState.Transitions

/-!
# The statements of the durable queue

A run that waits for a replica has one row in a queue ordered by `(available_at, stream_seq,
run_id)`. The statements are functions on the plane; what the database refuses is a `DbError`.
Clocks, rows locked by others, and jitter are arguments.
-/

namespace Wamn.RunState

open List Lib Lib.Json

variable {J : Type}

/-- The retry delay, including jitter, never exceeds five minutes. -/
def MAX_RETRY_BACKOFF_MS : ℤ := 300000

def maxInt : ℤ := 2 ^ 31 - 1

def maxBigint : ℤ := 2 ^ 63 - 1

/-- A span of milliseconds in the unit of `Instant`. -/
def millis (ms : ℤ) : ℤ := ms * 1000

/-! ## Locking the head of the queue -/

structure Queued (J : Type) where
  runId : RunId
  run : Run J
  entry : QueueRow

/-- Instants are ordered as integers. The instance is fixed here so that the order of the queue
stays computable where the conditionally complete order of `ℤ` is in scope as well. -/
instance : Preorder Instant := Int.instLinearOrder.toPreorder

/-- The place of a queue row in `ORDER BY available_at, stream_seq, run_id`. -/
def Queued.position (s : Queued J) : WithTop Instant ×ₗ ℤ ×ₗ String :=
  toLex (s.entry.availableAt, toLex (s.entry.streamSeq, s.runId))

def Plane.queued (p : Plane J) : List (Queued J) :=
  p.queue.entries.filterMap fun e => (p.run e.1).map fun r => ⟨e.1, r, e.2⟩

/-- `ORDER BY … FOR UPDATE … SKIP LOCKED LIMIT 1`: lock the first eligible row that is free. -/
def Plane.lockFirst (p : Plane J) (locked : RunId → Bool) (eligible : Run J → QueueRow → Bool) :
    Option (Queued J) :=
  (p.queued.filter fun s => eligible s.run s.entry && !locked s.runId).argmin Queued.position

variable {p p' : Plane J} {locked : RunId → Bool} {eligible : Run J → QueueRow → Bool} {id : RunId}
  {r : Run J} {q : QueueRow} {pg : Postgres J} {owner key : String} {statementTimestamp : Instant}
  {generation : ℤ} {source : TriggerSource}

lemma Plane.mem_queued {s : Queued J} (h : s ∈ p.queued) :
    p.run s.runId = some s.run ∧ p.entry s.runId = some s.entry := by
  obtain ⟨e, he, hs⟩ := mem_filterMap.1 h
  obtain ⟨r, hr, rfl⟩ := Option.map_eq_some_iff.1 hs
  exact ⟨hr, AList.mem_lookup_iff.2 he⟩

lemma Plane.lockFirst_eq_some {s : Queued J} (h : p.lockFirst locked eligible = some s) :
    p.run s.runId = some s.run ∧ p.entry s.runId = some s.entry ∧
      eligible s.run s.entry = true := by
  have hmem := mem_filter.1 (argmin_mem h)
  obtain ⟨hr, hq⟩ := Plane.mem_queued hmem.1
  exact ⟨hr, hq, (Bool.and_eq_true _ _ ▸ hmem.2).1⟩

/-- The packages and the environment a host serves. -/
structure Scope where
  packageIds : List String
  environment : String

/-- `package_id = ANY($packages) AND environment = $environment`. -/
def Scope.covers (scope : Scope) (r : Run J) : Bool :=
  scope.packageIds.contains r.packageId && r.environment = scope.environment

/-- The WHERE clause of `select_production_claim_sql`, at the transaction instant `now`. -/
def claimEligible (scope : Scope) (manifestDigest : Option String) (now : Instant) (r : Run J)
    (q : QueueRow) : Bool :=
  -- Due, free, and with an attempt left. A row without a lease is taken whatever its count.
  scope.covers r && r.manifestDigest = manifestDigest && q.availableAt ≤ (now : WithTop Instant) &&
    q.leaseExpiresAt.elim true (· ≤ now) &&
    (q.attempts < q.maxAttempts || q.leaseExpiresAt.isNone)

/-- The WHERE clause of `select_exhausted_production_sql`, at `now`. -/
def exhaustedEligible (scope : Scope) (graceMs : ℤ) (now : Instant) (r : Run J) (q : QueueRow) :
    Bool :=
  -- Only a lease that ran out can exhaust a row; the grace leaves a slow holder its time.
  scope.covers r && q.leaseExpiresAt.elim false (· + millis graceMs ≤ now) &&
    q.maxAttempts ≤ q.attempts && r.runnable

/-! ## The statements of one claim -/

/-- The run without the state of its abandoned attempt. -/
def Run.withoutState (r : Run J) : Run J := { r with stateJson := none }

/-- `clear_pre_effect_state_sql`. It answers the run id, or no row for an unknown run. -/
def clearPreEffectState (pg : Postgres J) (id : RunId) (p : Plane J) :
    Except DbError (Option RunId × Plane J) :=
  match p.run id with
  | none => pure (none, p)
  | some r => do
    let p' ← p.updateRun pg id r.withoutState
    pure (some id, p')

/-- The queue row after its prior lease is counted. -/
def QueueRow.advanced (q : QueueRow) : QueueRow :=
  { q with attempts := q.attempts + if q.leaseExpiresAt.isSome then 1 else 0 }

/-- `advance_claim_attempts_sql`: count an expired lease. It answers the new count. -/
def advanceClaimAttempts (id : RunId) (p : Plane J) : Except DbError (Option ℤ × Plane J) :=
  match p.entry id with
  | none => pure (none, p)
  | some q =>
    -- `int` arithmetic raises an error where it overflows.
    if maxInt < q.advanced.attempts then throw .integerOutOfRange
    else pure (some q.advanced.attempts, p.putEntry id q.advanced)

def QueueRow.leased (q : QueueRow) (owner : String) (expiresAt : Instant) : QueueRow :=
  { q with
    leaseOwner := some owner
    leaseExpiresAt := some expiresAt
    leaseGeneration := q.leaseGeneration + 1 }

def Run.markedRunning (r : Run J) : Run J := { r with status := .running }

/-- The run is runnable, and the presented digest, if any, is its admission pin. -/
def Run.grantable (r : Run J) (manifestDigest : Option String) : Bool :=
  r.runnable && (manifestDigest.isNone || r.manifestDigest = manifestDigest)

/-- `grant_production_claim_sql`: the new generation, or no row when the run does not match; the
queue row is written either way. -/
def grantProductionClaim (pg : Postgres J) (id : RunId) (owner : String) (ttlMs : ℤ)
    (manifestDigest : Option String) (statementTimestamp : Instant) (p : Plane J) :
    Except DbError (Option ℤ × Plane J) :=
  match p.entry id with
  | none => pure (none, p)
  | some q =>
    let q' := q.leased owner (statementTimestamp + millis ttlMs)
    -- The lease is written first, and stays written where the run does not match.
    if maxBigint < q'.leaseGeneration then throw .bigintOutOfRange
    else match p.run id with
      | none => pure (none, p.putEntry id q')
      | some r =>
        if r.grantable manifestDigest then do
          let p' ← (p.putEntry id q').updateRun pg id r.markedRunning
          pure (some q'.leaseGeneration, p')
        else pure (none, p.putEntry id q')

lemma clearPreEffectState_eq_ok {cleared : Option RunId} (hr : p.run id = some r)
    (h : clearPreEffectState pg id p = .ok (cleared, p')) : p' = p.putRun id r.withoutState := by
  simp only [clearPreEffectState, hr] at h
  replace h := Plane.updateRun_bind_eq_ok h
  exact (congrArg Prod.snd (pure_eq_ok.1 h)).symm

lemma advanceClaimAttempts_eq_ok {attempts : Option ℤ} (hq : p.entry id = some q)
    (h : advanceClaimAttempts id p = .ok (attempts, p')) : p' = p.putEntry id q.advanced := by
  simp only [advanceClaimAttempts, hq] at h
  split at h
  · cases h
  · exact (congrArg Prod.snd (pure_eq_ok.1 h)).symm

/-- A granted claim leased the queue row one generation up and marked the runnable run running. -/
theorem grantProductionClaim_eq_ok {ttlMs : ℤ} {manifestDigest : Option String}
    (hr : p.run id = some r) (hq : p.entry id = some q)
    (h : grantProductionClaim pg id owner ttlMs manifestDigest statementTimestamp p =
      .ok (some generation, p')) : generation = q.leaseGeneration + 1 ∧
      p' = (p.putEntry id (q.leased owner (statementTimestamp + millis ttlMs))).putRun id
        r.markedRunning := by
  simp only [grantProductionClaim, hq, hr] at h
  split at h
  · cases h
  · split at h
    · replace h := Plane.updateRun_bind_eq_ok h
      obtain ⟨hgeneration, rfl⟩ := done_eq_ok.1 h
      exact ⟨(Option.some.inj hgeneration).symm, rfl⟩
    · cases h

/-! ## Renewing and releasing a lease -/

/-- The lease is held under the fence and has not expired at the statement instant. -/
def QueueRow.liveUnder (q : QueueRow) (owner : String) (generation : ℤ) (now : Instant) : Bool :=
  q.heldBy owner generation && q.leaseExpiresAt.elim false (now < ·)

def QueueRow.renewed (q : QueueRow) (expiresAt : Instant) : QueueRow :=
  { q with leaseExpiresAt := some expiresAt }

/-- `renew_production_lease_sql`: the new expiry, or no row when the fence is lost. -/
def renewProductionLease (id : RunId) (owner : String) (generation ttlMs : ℤ)
    (statementTimestamp : Instant) (p : Plane J) : Option Instant × Plane J :=
  match p.entry id with
  | none => (none, p)
  | some q =>
    -- A lease that has run out cannot be renewed, also where nobody else took it yet.
    if q.liveUnder owner generation statementTimestamp then
      (some (statementTimestamp + millis ttlMs),
        p.putEntry id (q.renewed (statementTimestamp + millis ttlMs)))
    else (none, p)

lemma QueueRow.liveUnder_iff {now : Instant} : q.liveUnder owner generation now = true ↔
      q.leaseOwner = some owner ∧ q.leaseGeneration = generation ∧
        ∃ expiresAt, q.leaseExpiresAt = some expiresAt ∧ now < expiresAt := by
  cases h : q.leaseExpiresAt <;> simp [QueueRow.liveUnder, QueueRow.heldBy, h, and_assoc]

/-- A renewal writes nothing, or the holder of the live lease moved its expiry. -/
theorem renewProductionLease_cases (id : RunId) (owner : String) (generation ttlMs : ℤ)
    (statementTimestamp : Instant) (p : Plane J) :
    (renewProductionLease id owner generation ttlMs statementTimestamp p).2 = p ∨
      ∃ q, p.entry id = some q ∧ q.liveUnder owner generation statementTimestamp = true ∧
        (renewProductionLease id owner generation ttlMs statementTimestamp p).2 =
          p.putEntry id (q.renewed (statementTimestamp + millis ttlMs)) := by
  cases hq : p.entry id with
  | none => left; simp [renewProductionLease, hq]
  | some q =>
    by_cases hlive : q.liveUnder owner generation statementTimestamp = true
    · right; exact ⟨q, rfl, hlive, by simp [renewProductionLease, hq, hlive]⟩
    · left; simp [renewProductionLease, hq, hlive]

/-- The delay of a released claim in microseconds: a second doubled per spent attempt, capped, with
up to a fifth of jitter. -/
def backoff (attempts : ℤ) (random : ℚ) : ℤ :=
  -- The exponent is capped at nine, where one second doubled passes the cap anyway.
  round (min (MAX_RETRY_BACKOFF_MS : ℚ) (1000 * 2 ^ min attempts 9 * (1 + random / 5)) * 1000)

/-- The queue row after a release: one more attempt spent, no lease. -/
def QueueRow.returned (q : QueueRow) (availableAt : Instant) : QueueRow :=
  { q with
    attempts := q.attempts + 1
    leaseOwner := none
    leaseExpiresAt := none
    availableAt := availableAt }

structure ReleasedRow where
  exhausted : Bool
  wiringId : Option String
  wiringVersion : Option ℤ

/-- `release_production_claim_sql`, after a credential or pool failure. -/
def releaseProductionClaim (id : RunId) (owner : String) (generation : ℤ)
    (statementTimestamp : Instant) (random : ℚ) (p : Plane J) :
    Except DbError (Option ReleasedRow × Plane J) :=
  match p.entry id, p.run id with
  | some q, some r =>
    if q.liveUnder owner generation statementTimestamp && r.runnable then
      -- The delay is computed from the attempts before this one is counted.
      let q' := q.returned (statementTimestamp + backoff q.attempts random)
      if maxInt < q'.attempts then throw .integerOutOfRange
      else pure (some ⟨q'.maxAttempts ≤ q'.attempts, r.wiringId, r.wiringVersion⟩,
        p.putEntry id q')
    else pure (none, p)
  | _, _ => pure (none, p)

/-- A release writes nothing, or the holder of the live lease gave it back and learns whether the
budget is spent. -/
theorem releaseProductionClaim_eq_ok {random : ℚ} {row : Option ReleasedRow}
    (h : releaseProductionClaim id owner generation statementTimestamp random p = .ok (row, p')) :
    (row = none ∧ p' = p) ∨
      ∃ q r, p.entry id = some q ∧ p.run id = some r ∧ r.runnable = true ∧
        q.liveUnder owner generation statementTimestamp = true ∧
        row = some ⟨q.maxAttempts ≤ q.attempts + 1, r.wiringId, r.wiringVersion⟩ ∧
        p' = p.putEntry id (q.returned (statementTimestamp + backoff q.attempts random)) := by
  unfold releaseProductionClaim at h
  split at h
  · rename_i q r hq hr
    split at h
    · rename_i hlive
      dsimp only at h
      split at h
      · cases h
      · obtain ⟨rfl, rfl⟩ := done_eq_ok.1 h
        obtain ⟨hlive, hrunnable⟩ := Bool.and_eq_true _ _ ▸ hlive
        exact .inr ⟨q, r, hq, hr, hrunnable, hlive, rfl, rfl⟩
    · obtain ⟨rfl, rfl⟩ := done_eq_ok.1 h
      exact .inl ⟨rfl, rfl⟩
  · obtain ⟨rfl, rfl⟩ := done_eq_ok.1 h
    exact .inl ⟨rfl, rfl⟩

/-! ## Ending exhausted runs -/

/-- Which of the two exhausted endings a run takes. -/
inductive Exhaustion where
  /-- `terminalize_exhausted_production_sql`: the janitor's verdict on a spent crash budget. -/
  | infrastructureFailure
  /-- `terminalize_released_production_sql`: the last attempt was a credential release. -/
  | retryExhausted
  deriving DecidableEq

def Exhaustion.status : Exhaustion → RunStatus
  | .infrastructureFailure => .infrastructureFailure
  | .retryExhausted => .failed

/-- The failure kind an ending writes; the janitor keeps the stored one. -/
def Exhaustion.failType : Exhaustion → Option FailType
  | .infrastructureFailure => none
  | .retryExhausted => some .retryExhausted

/-- The terminal reason: the failure kind if there is one, the status otherwise. -/
def Exhaustion.terminalReason (e : Exhaustion) : String :=
  e.failType.elim e.status.asSql FailType.asSql

/-- The failure becomes the result for a release, and for the janitor on a candidate run. -/
def Exhaustion.storesResult (e : Exhaustion) (r : Run J) : Bool :=
  e.failType.isSome ||
    (r.flowId.isNone && r.flowVersion.isNone && r.wiringHash.isSome && r.bindingWorldJson.isSome)

/-- The run that an exhausted ending writes. A caller that waits gets the failure. -/
def Run.withExhaustion (r : Run J) (e : Exhaustion) (body : J) (hash : String)
    (instant : Instant) : Run J :=
  { r with
    status := e.status
    terminalReason := some e.terminalReason
    -- `COALESCE` keeps the stored kind where the ending brings none.
    failType := e.failType.elim r.failType some
    resultJson := if e.storesResult r then some body else r.resultJson
    -- The six caller columns move together, and only for a caller that still waits.
    callerOutcomeType := if r.unreleasedAttached then some .failed else r.callerOutcomeType
    callerOutcomeJson := if r.unreleasedAttached then some body else r.callerOutcomeJson
    callerHttpStatus := if r.unreleasedAttached then some 500 else r.callerHttpStatus
    callerReleaseNodeId := if r.unreleasedAttached then none else r.callerReleaseNodeId
    callerOutcomeHash := if r.unreleasedAttached then some hash else r.callerOutcomeHash
    callerReleasedAt := if r.unreleasedAttached then some instant else r.callerReleasedAt
    updatedAt := instant }

/-- `terminalize_exhausted_sql`: end a locked exhausted run and dequeue it. It answers the status,
or no row. -/
def terminalizeExhausted (pg : Postgres J) (e : Exhaustion) (id : RunId) (body : Value)
    (hash : String) (instant : Instant) (p : Plane J) :
    Except DbError (Option RunStatus × Plane J) :=
  match p.run id with
  | none => pure (none, p)
  | some r =>
    if r.runnable then do
      let json ← pg.bind body
      let p' ← p.updateRun pg id (r.withExhaustion e json hash instant)
      -- The deleted queue row is joined to the answer, so that without one there is no row.
      match p.entry id with
      | none => pure (none, p')
      | some _ => pure (some e.status, p'.dequeue id)
    else pure (none, p)

/-- An exhausted ending with a status ended a queued runnable run and removed its queue row. -/
theorem terminalizeExhausted_eq_ok {e : Exhaustion} {body : Value} {hash : String}
    {instant : Instant} {status : RunStatus} (hr : p.run id = some r)
    (h : terminalizeExhausted pg e id body hash instant p = .ok (some status, p')) :
    r.runnable = true ∧ status = e.status ∧
      ∃ json, p' = (p.putRun id (r.withExhaustion e json hash instant)).dequeue id := by
  simp only [terminalizeExhausted, hr] at h
  split at h
  · rename_i hrunnable
    obtain ⟨json, -, h⟩ := bind_eq_ok.1 h
    replace h := Plane.updateRun_bind_eq_ok h
    split at h
    · cases h
    · obtain ⟨hstatus, rfl⟩ := done_eq_ok.1 h
      exact ⟨hrunnable, (Option.some.inj hstatus).symm, json, rfl⟩
  · cases h

/-! ## Admitting a run -/

/-- The columns an admission chooses. All others start at their defaults. -/
structure NewRun (J : Type) where
  flowId : Option String := none
  flowVersion : Option ℤ := none
  packageId : String
  environment : String
  registrationId : Option String := none
  eventSourceRunId : Option String := none
  eventRootRunId : Option String := none
  eventDepth : Option ℤ := none
  triggerSource : Option TriggerSource
  servicePrincipalId : Option String := none
  executionPrincipalId : Option String := none
  executionRole : Option String := none
  invokedBy : Option String := none
  invokedByUserId : Option String := none
  nodeDigestsJson : Option J := none
  wiringId : Option String := none
  wiringVersion : Option ℤ := none
  wiringHash : Option String := none
  bindingWorldJson : Option J := none
  manifestDigest : Option String := none
  inputJson : Option J := none
  idempotencyKey : Option String := none

/-- The stored row of an admission at the transaction instant: dispatched, with no outcome. -/
def NewRun.row (n : NewRun J) (now : Instant) : Run J where
  flowId := n.flowId
  flowVersion := n.flowVersion
  packageId := n.packageId
  environment := n.environment
  registrationId := n.registrationId
  eventSourceRunId := n.eventSourceRunId
  eventRootRunId := n.eventRootRunId
  eventDepth := n.eventDepth
  status := .dispatched
  triggerSource := n.triggerSource
  servicePrincipalId := n.servicePrincipalId
  executionPrincipalId := n.executionPrincipalId
  executionRole := n.executionRole
  invokedBy := n.invokedBy
  invokedByUserId := n.invokedByUserId
  nodeDigestsJson := n.nodeDigestsJson
  wiringId := n.wiringId
  wiringVersion := n.wiringVersion
  wiringHash := n.wiringHash
  bindingWorldJson := n.bindingWorldJson
  manifestDigest := n.manifestDigest
  inputJson := n.inputJson
  resultJson := none
  deadlineAdjustmentsJson := none
  stateJson := none
  idempotencyKey := n.idempotencyKey
  callerOutcomeType := none
  callerOutcomeJson := none
  callerHttpStatus := none
  callerReleaseNodeId := none
  callerOutcomeHash := none
  callerReleasedAt := none
  terminalReason := none
  failType := none
  createdAt := now
  updatedAt := now

/-- A conflict with the partial unique index `runs_idempotency`. -/
def Plane.keyTaken (p : Plane J) (key : Option String) : Bool :=
  key.isSome && p.runs.entries.any fun e => e.2.idempotencyKey = key

lemma Plane.mem_entries : (⟨id, r⟩ : Σ _ : RunId, Run J) ∈ p.runs.entries ↔ p.run id = some r :=
  AList.mem_lookup_iff.symm

lemma Plane.keyTaken_eq_true :
    p.keyTaken (some key) = true ↔ ∃ id r, p.run id = some r ∧ r.idempotencyKey = some key := by
  simp only [keyTaken, Option.isSome_some, Bool.true_and, any_eq_true, decide_eq_true_eq]
  constructor
  · rintro ⟨⟨id, r⟩, hmem, hkey⟩
    exact ⟨id, r, Plane.mem_entries.1 hmem, hkey⟩
  · rintro ⟨id, r, hr, hkey⟩
    exact ⟨⟨id, r⟩, Plane.mem_entries.2 hr, hkey⟩

/-- `INSERT INTO runs … ON CONFLICT (env_key, idempotency_key) … DO NOTHING RETURNING run_id`. CHECK
constraints come before the index. -/
def insertRun (pg : Postgres J) (now : Instant) (id : RunId) (n : NewRun J) (p : Plane J) :
    Except DbError (Option RunId × Plane J) :=
  match (n.row now).violated pg id with
  | some constraint => throw (.checkViolation constraint)
  | none =>
    -- `DO NOTHING` names the key index only: a taken id is an error.
    if p.keyTaken n.idempotencyKey then pure (none, p)
    else if (p.run id).isSome then throw (.uniqueViolation "runs_pkey")
    else pure (some id, p.putRun id (n.row now))

/-- An insert writes nothing on a taken key, or stores the row under the fresh id. -/
theorem insertRun_eq_ok {now : Instant} {n : NewRun J} {answer : Option RunId}
    (h : insertRun pg now id n p = .ok (answer, p')) :
    (answer = none ∧ p.keyTaken n.idempotencyKey = true ∧ p' = p) ∨
      (answer = some id ∧ p.keyTaken n.idempotencyKey = false ∧ p.run id = none ∧
        (n.row now).violated pg id = none ∧ p' = p.putRun id (n.row now)) := by
  unfold insertRun at h
  split at h
  · cases h
  · split at h
    · obtain ⟨rfl, rfl⟩ := done_eq_ok.1 h
      exact .inl ⟨rfl, ‹_›, rfl⟩
    · split at h
      · cases h
      · obtain ⟨rfl, rfl⟩ := done_eq_ok.1 h
        exact .inr ⟨rfl, by simp_all, by simp_all, ‹_›, rfl⟩

/-- A queue row as an admission inserts it: no lease, no attempt spent. -/
def QueueRow.admitted (availableAt : WithTop Instant) (streamSeq maxAttempts : ℤ) : QueueRow where
  availableAt := availableAt
  streamSeq := streamSeq
  leaseOwner := none
  leaseExpiresAt := none
  leaseGeneration := 0
  attempts := 0
  maxAttempts := maxAttempts

def defaultMaxAttempts : ℤ := 20

/-- `INSERT INTO run_queue` under the primary key and the foreign key to `runs`. -/
def insertQueueRow (id : RunId) (q : QueueRow) (p : Plane J) : Except DbError (Plane J) :=
  if (p.entry id).isSome then throw (.uniqueViolation "run_queue_pkey")
  else if (p.run id).isNone then throw (.foreignKeyViolation "run_queue_env_key_run_id_fkey")
  else pure (p.putEntry id q)

lemma insertQueueRow_eq_ok (h : insertQueueRow id q p = .ok p') :
    p.entry id = none ∧ p' = p.putEntry id q := by
  unfold insertQueueRow at h
  split at h
  · cases h
  · split at h
    · cases h
    · exact ⟨by simp_all, (pure_eq_ok.1 h).symm⟩

/-- `insert_run_queue_sql`: queue one admitted run under the column defaults. -/
def insertRunQueue (now : Instant) (id : RunId) (p : Plane J) : Except DbError (Plane J) :=
  insertQueueRow id (.admitted now 0 defaultMaxAttempts) p

/-- The run with this key, source and input (`select_event_run_sql`, `select_manual_run_sql`,
`select_workflow_schedule_run_sql`). -/
def selectRun [DecidableEq J] (key : String) (source : TriggerSource) (input : J) (p : Plane J) :
    Option RunId :=
  (p.runs.entries.find? fun e => e.2.idempotencyKey = some key && e.2.triggerSource = some source &&
    e.2.inputJson = some input).map Sigma.fst

/-- The run is the one a repeated admission with this key, grain and input asks for. -/
structure Run.AnswersTo (r : Run J) (key : String) (source : TriggerSource) (input : J) : Prop where
  idempotencyKey : r.idempotencyKey = some key
  triggerSource : r.triggerSource = some source
  inputJson : r.inputJson = some input

lemma selectRun_eq_some [DecidableEq J] {input : J} (h : selectRun key source input p = some id) :
    ∃ r, p.run id = some r ∧ r.AnswersTo key source input := by
  obtain ⟨⟨id', r⟩, hfind, rfl⟩ := Option.map_eq_some_iff.1 h
  have htrue := find?_some hfind
  simp only [Bool.and_eq_true, decide_eq_true_eq] at htrue
  exact ⟨r, Plane.mem_entries.1 (mem_of_find?_eq_some hfind), htrue.1.1, htrue.1.2, htrue.2⟩

lemma selectRun_eq_none [DecidableEq J] {input : J} (h : selectRun key source input p = none)
    (hr : p.run id = some r) : ¬ r.AnswersTo key source input := by
  rintro ⟨hkey, hsource, hinput⟩
  have hmem := Plane.mem_entries.2 hr
  have hnone := find?_eq_none.1 (Option.map_eq_none_iff.1 h) ⟨id, r⟩ hmem
  simp [hkey, hsource, hinput] at hnone

/-! ## Parking and waking -/

def QueueRow.movedTo (q : QueueRow) (availableAt : WithTop Instant) : QueueRow :=
  { q with availableAt := availableAt }

section

variable (id : RunId) (environment : String) (now : Instant) (p : Plane J)

/-- `park_queued_run_sql`: park a queued run that no replica holds. -/
def parkQueuedRun : Option RunId × Plane J :=
  match p.entry id, p.run id with
  | some q, some r =>
    -- A run that is held, or that is parked already, is left alone.
    if r.environment = environment && r.status = .dispatched &&
        q.leaseExpiresAt.elim true (· ≤ now) && q.availableAt ≠ ⊤ then
      (some id, p.putEntry id (q.movedTo ⊤))
    else (none, p)
  | _, _ => (none, p)

/-- `release_parked_run_sql`: return a parked run to the queue. -/
def releaseParkedRun : Option RunId × Plane J :=
  match p.entry id, p.run id with
  | some q, some r =>
    if r.environment = environment && q.availableAt = ⊤ then
      (some id, p.putEntry id (q.movedTo now))
    else (none, p)
  | _, _ => (none, p)

/-- A park writes nothing, or moves the queue row of a dispatched run that no lease holds. -/
theorem parkQueuedRun_cases : (parkQueuedRun id environment now p).2 = p ∨
      ∃ q r, p.entry id = some q ∧ p.run id = some r ∧ r.status = .dispatched ∧
        (parkQueuedRun id environment now p).2 = p.putEntry id (q.movedTo ⊤) := by
  unfold parkQueuedRun
  split
  · rename_i q r hq hr
    split
    · rename_i hcondition
      simp only [Bool.and_eq_true, decide_eq_true_eq] at hcondition
      exact .inr ⟨q, r, hq, hr, hcondition.1.1.2, rfl⟩
    · exact .inl rfl
  · exact .inl rfl

lemma releaseParkedRun_cases : (releaseParkedRun id environment now p).2 = p ∨
      ∃ q r, p.entry id = some q ∧ p.run id = some r ∧
        (releaseParkedRun id environment now p).2 = p.putEntry id (q.movedTo now) := by
  unfold releaseParkedRun
  split
  · rename_i q r hq hr
    split
    · exact .inr ⟨q, r, hq, hr, rfl⟩
    · exact .inl rfl
  · exact .inl rfl

end

end Wamn.RunState
