import Mathlib.Data.List.AList
import Mathlib.Order.WithBot
import Wamn.Lib.Json
import Wamn.Lib.Transaction

/-!
# The rows of the run plane

The tables of queued execution for one tenant (`app.env_key`): `runs`, one row per execution, and
`run_queue`, one row per run that waits for a replica or is held by one. Instants are microseconds,
and a parked row is at `infinity`. JSON columns hold values of a type `J`; `Postgres J` says what a
round trip through such a column does to the host's JSON values.
-/

namespace Wamn.RunState

open Lib Lib.Json

abbrev RunId := String

abbrev Instant := ℤ

inductive RunStatus where
  | dispatched
  | running
  | completed
  | failed
  | infrastructureFailure
  deriving DecidableEq

def RunStatus.isTerminal : RunStatus → Bool
  | .completed | .failed | .infrastructureFailure => true
  | .dispatched | .running => false

def RunStatus.asSql : RunStatus → String
  | .dispatched => "dispatched"
  | .running => "running"
  | .completed => "completed"
  | .failed => "failed"
  | .infrastructureFailure => "infrastructure-failure"

inductive FailType where
  | terminal
  | retryExhausted
  | invalidInput
  | runawayBudget
  | depthBudget
  | dispatchBudget
  | unresolvableName
  | hashInvalidBytes
  | foreignRevision
  | incompatibleContract
  | unboundRequirement
  deriving DecidableEq

def FailType.asSql : FailType → String
  | .terminal => "terminal"
  | .retryExhausted => "retry-exhausted"
  | .invalidInput => "invalid-input"
  | .runawayBudget => "runaway-budget"
  | .depthBudget => "depth-budget"
  | .dispatchBudget => "dispatch-budget"
  | .unresolvableName => "unresolvable-name"
  | .hashInvalidBytes => "hash-invalid-bytes"
  | .foreignRevision => "foreign-revision"
  | .incompatibleContract => "incompatible-contract"
  | .unboundRequirement => "unbound-requirement"

/-- What admitted a run. The column is free text; texts that no statement tells apart are
`other`. -/
inductive TriggerSource where
  | http
  | internal
  | studio
  | scenarioDraft
  | testCase
  | automation
  | event
  | manual
  | schedule
  | other (text : String)
  deriving DecidableEq

/-- `trigger_source IN ('http','internal','studio')`: a caller waits for the outcome. -/
def TriggerSource.durableCaller : TriggerSource → Bool
  | .http | .internal | .studio => true
  | _ => false

/-- The trigger sources of workflow runs: `manual`, `schedule` and `event`. -/
def TriggerSource.isWorkflow : TriggerSource → Bool
  | .manual | .schedule | .event => true
  | _ => false

inductive CallerOutcomeType where
  | responded
  | failed
  deriving DecidableEq

/-- The six classes of `jsonb_typeof`. -/
inductive JsonbType where
  | null
  | boolean
  | number
  | string
  | array
  | object
  deriving DecidableEq

/-- JSON between the host and a column: `ofValue` is `$n::text::jsonb`, `toValue` is `column::text`
parsed by the host, each refused with a message; `jsonbTypeof` is the function of the database.
`canonicalJsonSha256` and `candidateBindingWorld` are the host's hash and its decoder of frozen
bindings. -/
structure Postgres (J : Type) where
  ofValue : Value → Except String J
  toValue : J → Except String Value
  jsonbTypeof : J → JsonbType
  canonicalJsonSha256 : Value → String
  candidateBindingWorld : Value → Except String Value

/-- The class of a host value as the database reports it. -/
def jsonbTypeof : Value → JsonbType
  | .null => .null
  | .bool _ => .boolean
  | .number _ => .number
  | .string _ => .string
  | .array _ => .array
  | .object _ => .object

/-- The columns of a database that gives every JSON value back as it was stored. -/
def Postgres.identity : Postgres Value where
  ofValue := .ok
  toValue := .ok
  jsonbTypeof := RunState.jsonbTypeof
  canonicalJsonSha256 := fun _ => "sha256:canonical"
  candidateBindingWorld := .ok

structure Run (J : Type) where
  -- What the run executes: a flow, or a wiring with its frozen hash.
  flowId : Option String
  flowVersion : Option ℤ
  packageId : String
  environment : String
  -- The event that admitted it, and the causation it came with.
  registrationId : Option String
  eventSourceRunId : Option String
  eventRootRunId : Option String
  eventDepth : Option ℤ
  status : RunStatus
  triggerSource : Option TriggerSource
  -- Who it executes as, and who asked for it.
  servicePrincipalId : Option String
  executionPrincipalId : Option String
  executionRole : Option String
  invokedBy : Option String
  invokedByUserId : Option String
  nodeDigestsJson : Option J
  wiringId : Option String
  wiringVersion : Option ℤ
  wiringHash : Option String
  bindingWorldJson : Option J
  manifestDigest : Option String
  inputJson : Option J
  resultJson : Option J
  deadlineAdjustmentsJson : Option J
  stateJson : Option J
  -- Unique in a tenant, where present.
  idempotencyKey : Option String
  -- The answer of an attached caller, written once.
  callerOutcomeType : Option CallerOutcomeType
  callerOutcomeJson : Option J
  callerHttpStatus : Option ℤ
  callerReleaseNodeId : Option String
  callerOutcomeHash : Option String
  callerReleasedAt : Option Instant
  terminalReason : Option String
  failType : Option FailType
  createdAt : Instant
  updatedAt : Instant
  deriving DecidableEq

structure QueueRow where
  -- `infinity` for a parked run.
  availableAt : WithTop Instant
  streamSeq : ℤ
  -- The lease, and the generation that every grant raises.
  leaseOwner : Option String
  leaseExpiresAt : Option Instant
  leaseGeneration : ℤ
  attempts : ℤ
  maxAttempts : ℤ
  deriving DecidableEq

/-- The rows of one tenant. -/
structure Plane (J : Type) where
  runs : AList fun _ : RunId => Run J
  queue : AList fun _ : RunId => QueueRow

variable {J : Type}

/-! ## Reading and writing rows -/

namespace Plane

def empty : Plane J := ⟨∅, ∅⟩

variable (p : Plane J) (id : RunId)

def run : Option (Run J) := p.runs.lookup id

def entry : Option QueueRow := p.queue.lookup id

def putRun (r : Run J) : Plane J :=
  { p with runs := p.runs.insert id r }

def putEntry (q : QueueRow) : Plane J :=
  { p with queue := p.queue.insert id q }

def dequeue : Plane J :=
  { p with queue := p.queue.erase id }

@[simp] lemma run_empty : (empty : Plane J).run id = none := rfl

@[simp] lemma entry_empty : (empty : Plane J).entry id = none := rfl

section

variable (p : Plane J) (id id' : RunId)

@[simp] lemma run_putRun (r : Run J) :
    (p.putRun id r).run id' = if id' = id then some r else p.run id' := by
  by_cases h : id' = id
  · subst h; simp [run, putRun]
  · simp [run, putRun, h, AList.lookup_insert_ne]

@[simp] lemma entry_putRun (r : Run J) : (p.putRun id r).entry id' = p.entry id' := rfl

@[simp] lemma run_putEntry (q : QueueRow) : (p.putEntry id q).run id' = p.run id' := rfl

@[simp] lemma entry_putEntry (q : QueueRow) :
    (p.putEntry id q).entry id' = if id' = id then some q else p.entry id' := by
  by_cases h : id' = id
  · subst h; simp [entry, putEntry]
  · simp [entry, putEntry, h, AList.lookup_insert_ne]

@[simp] lemma run_dequeue : (p.dequeue id).run id' = p.run id' := rfl

@[simp] lemma entry_dequeue :
    (p.dequeue id).entry id' = if id' = id then none else p.entry id' := by
  by_cases h : id' = id
  · subst h; simp [entry, dequeue]
  · simp [entry, dequeue, h, AList.lookup_erase_ne]

end

/-- `p'` holds the given rows for the run `id` and the rows of `p` for every other run. -/
def Rewrites (p p' : Plane J) (id : RunId) (r : Option (Run J)) (q : Option QueueRow) : Prop :=
  ∀ id', p'.run id' = (if id' = id then r else p.run id') ∧
    p'.entry id' = if id' = id then q else p.entry id'

section Rewrites

variable {p p₁ p₂ : Plane J} {id : RunId} {r r' : Option (Run J)} {q q' : Option QueueRow}

lemma Rewrites.run_self (h : p.Rewrites p₁ id r q) : p₁.run id = r := by
  simpa using (h id).1

lemma Rewrites.entry_self (h : p.Rewrites p₁ id r q) : p₁.entry id = q := by
  simpa using (h id).2

lemma Rewrites.trans (h : p.Rewrites p₁ id r q) (h' : p₁.Rewrites p₂ id r' q') :
    p.Rewrites p₂ id r' q' := by
  intro id'
  obtain ⟨hrun, hentry⟩ := h id'
  obtain ⟨hrun', hentry'⟩ := h' id'
  by_cases hne : id' = id
  · simpa [hne] using h' id
  · simp [hrun', hentry', hrun, hentry, hne]

variable (p : Plane J) (id : RunId)

lemma rewrites_self : p.Rewrites p id (p.run id) (p.entry id) := by
  intro id'
  by_cases hne : id' = id <;> simp [hne]

lemma rewrites_putRun (r : Run J) : p.Rewrites (p.putRun id r) id (some r) (p.entry id) := by
  intro id'
  by_cases hne : id' = id <;> simp [hne]

lemma rewrites_putEntry (q : QueueRow) : p.Rewrites (p.putEntry id q) id (p.run id) (some q) := by
  intro id'
  by_cases hne : id' = id <;> simp [hne]

lemma rewrites_dequeue (r : Run J) :
    p.Rewrites ((p.putRun id r).dequeue id) id (some r) none := by
  intro id'
  by_cases hne : id' = id <;> simp [hne]

end Rewrites

end Plane

/-! ## Row predicates and CHECK constraints -/

namespace Run

/-- The run waits for a replica or is held by one: `status IN ('dispatched', 'running')`. -/
def runnable (r : Run J) : Bool := !r.status.isTerminal

/-- A caller waits for the outcome. A NULL trigger source reads as none. -/
def durableCallerAttached (r : Run J) : Bool :=
  match r.triggerSource with
  | some source => source.durableCaller
  | none => false

/-- A caller waits and no outcome is stored for it. -/
def unreleasedAttached (r : Run J) : Bool :=
  r.durableCallerAttached && r.callerReleasedAt.isNone

end Run

/-- `text ~ '^sha256:[0-9a-f]{64}$'`. -/
def isSha256 (text : String) : Bool :=
  let chars := text.toList
  chars.take 7 == "sha256:".toList && (chars.drop 7).length == 64 &&
    (chars.drop 7).all fun c => ('0' ≤ c && c ≤ '9') || ('a' ≤ c && c ≤ 'f')

/-- A CHECK term that is NULL counts as satisfied. -/
def nullOr {α : Type} (column : Option α) (term : α → Bool) : Bool :=
  column.elim true term

/-- `column IS NOT NULL AND term`. -/
def notNullAnd {α : Type} (column : Option α) (term : α → Bool) : Bool :=
  column.elim false term

namespace Run

variable (r : Run J) (pg : Postgres J)

/-- The wiring columns every component-era arm of the grain check requires. -/
def hasWiringGrain : Bool :=
  r.flowId.isNone && r.flowVersion.isNone && notNullAnd r.wiringId (· ≠ "") &&
    notNullAnd r.wiringVersion (0 < ·) && notNullAnd r.wiringHash isSha256

/-- The columns the three workflow arms of the grain check share. -/
def hasWorkflowGrain (r : Run J) : Bool :=
  r.hasWiringGrain && r.registrationId.isNone && r.servicePrincipalId.isNone &&
    r.manifestDigest.isSome && notNullAnd r.nodeDigestsJson (pg.jsonbTypeof · = .object) &&
    r.executionPrincipalId.isSome && notNullAnd r.executionRole (· ≠ "") &&
    r.bindingWorldJson.isNone

/-- `runs_execution_grain_check`: exactly one complete execution grain. -/
def executionGrainCheck (r : Run J) : Bool :=
  -- A flow.
  (notNullAnd r.flowId (· ≠ "") && notNullAnd r.flowVersion (0 < ·) && r.wiringHash.isNone &&
      r.bindingWorldJson.isNone) ||
    -- A candidate with its frozen bindings, an automation, and a registered event.
    (r.hasWiringGrain && notNullAnd r.bindingWorldJson (pg.jsonbTypeof · = .array)) ||
    (r.hasWiringGrain && r.triggerSource = some .automation && r.servicePrincipalId.isSome &&
      r.bindingWorldJson.isNone) ||
    (r.hasWiringGrain && r.triggerSource = some .event && notNullAnd r.registrationId (· ≠ "") &&
      r.servicePrincipalId.isNone && r.bindingWorldJson.isNone) ||
    -- The three kinds of workflow runs.
    (r.hasWorkflowGrain pg && r.triggerSource = some .event && notNullAnd r.invokedBy (· ≠ "")) ||
    (r.hasWorkflowGrain pg && r.triggerSource = some .manual && r.invokedBy = some "manual" &&
      r.invokedByUserId.isSome) ||
    (r.hasWorkflowGrain pg && r.triggerSource = some .schedule && r.invokedBy = some "schedule" &&
      r.invokedByUserId.isNone)

/-- `runs_check1`: the event ancestry is absent, or complete on an event run. It passes on NULL. -/
def eventLineageCheck : Bool :=
  (r.eventSourceRunId.isNone && r.eventRootRunId.isNone && r.eventDepth.isNone) ||
    (nullOr r.triggerSource (· = .event) && notNullAnd r.eventSourceRunId (· ≠ "") &&
      notNullAnd r.eventRootRunId (· ≠ "") && r.eventDepth.isSome)

/-- Only an event, manual or schedule run carries an execution identity. -/
def executionIdentityCheck : Bool :=
  r.triggerSource = some .manual || r.triggerSource = some .schedule ||
    r.triggerSource = some .event ||
    (r.executionPrincipalId.isNone && r.executionRole.isNone && r.invokedBy.isNone &&
      r.invokedByUserId.isNone && r.nodeDigestsJson.isNone)

/-- The CHECK constraints of `runs` over the modelled columns. -/
def checks (id : RunId) (r : Run J) : List (String × Bool) :=
  -- A NULL term passes, so that each check spells out where a column may be absent.
  [("runs_event_depth_check", nullOr r.eventDepth fun d => 0 ≤ d && d ≤ 16),
    ("runs_caller_http_status_check", nullOr r.callerHttpStatus fun s => 100 ≤ s && s ≤ 599),
    ("runs_check", r.packageId ≠ "" && r.environment ≠ ""),
    ("runs_check1", r.eventLineageCheck),
    ("runs_check2", r.eventDepth ≠ some 0 ||
      (nullOr r.eventSourceRunId (· = id) && nullOr r.eventRootRunId (· = id))),
    ("runs_updated_after_created", r.createdAt ≤ r.updatedAt),
    ("runs_check6", r.callerReleasedAt.isNone == r.callerOutcomeType.isNone),
    ("runs_check7", r.callerOutcomeType.isNone || r.callerOutcomeJson.isSome),
    ("runs_check8", r.callerOutcomeType ≠ some .responded || r.callerReleaseNodeId.isSome),
    ("runs_release_record_check", nullOr r.manifestDigest isSha256),
    ("runs_wiring_identity_check", (r.wiringId.isNone && r.wiringVersion.isNone) ||
      (notNullAnd r.wiringId (· ≠ "") && notNullAnd r.wiringVersion (0 < ·))),
    ("runs_execution_grain_check", r.executionGrainCheck pg),
    ("runs_execution_identity_check", r.executionIdentityCheck),
    ("runs_service_principal_check",
      (r.triggerSource = some .automation : Bool) == r.servicePrincipalId.isSome)]

def violated (id : RunId) (r : Run J) : Option String :=
  ((r.checks pg id).find? fun check => !check.2).map Prod.fst

end Run

/-- A statement the database refuses, with what it reports. -/
inductive DbError where
  | checkViolation (constraint : String)
  | uniqueViolation (constraint : String)
  | foreignKeyViolation (constraint : String)
  | invalidJson (message : String)
  | integerOutOfRange
  | bigintOutOfRange
  | other (message : String)
  deriving DecidableEq

/-- The message of a database error, and its constraint. -/
def DbError.detail : DbError → String
  | .checkViolation c =>
    "new row for relation \"runs\" violates check constraint \"" ++ c ++ "\" (" ++ c ++ ")"
  | .uniqueViolation c =>
    "duplicate key value violates unique constraint \"" ++ c ++ "\" (" ++ c ++ ")"
  | .foreignKeyViolation c =>
    "insert or update on table \"run_queue\" violates foreign key constraint \"" ++ c ++ "\" (" ++
      c ++ ")"
  | .invalidJson message => message
  | .integerOutOfRange => "integer out of range"
  | .bigintOutOfRange => "bigint out of range"
  | .other message => message

/-- Replace a stored `runs` row under its CHECK constraints. -/
def Plane.updateRun (pg : Postgres J) (id : RunId) (r : Run J) (p : Plane J) :
    Except DbError (Plane J) :=
  match r.violated pg id with
  | some constraint => .error (.checkViolation constraint)
  | none => .ok (p.putRun id r)

lemma Plane.updateRun_eq_ok {pg : Postgres J} {id : RunId} {r : Run J} {p p' : Plane J} :
    p.updateRun pg id r = .ok p' ↔ r.violated pg id = none ∧ p' = p.putRun id r := by
  cases h : r.violated pg id with
  | some constraint => simp [Plane.updateRun, h]
  | none => simp [Plane.updateRun, h, eq_comm]

lemma Plane.updateRun_bind_eq_ok {β : Type} {pg : Postgres J} {id : RunId} {r : Run J}
    {p : Plane J} {next : Plane J → Except DbError β} {b : β}
    (h : (p.updateRun pg id r >>= next) = .ok b) : next (p.putRun id r) = .ok b := by
  obtain ⟨written, hwrite, h⟩ := bind_eq_ok.1 h
  obtain ⟨-, rfl⟩ := Plane.updateRun_eq_ok.1 hwrite
  exact h

end Wamn.RunState
