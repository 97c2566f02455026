import Wamn.Events.Decide
import Wamn.Runtime.ProductionClaim

/-!
# Admission of workflow runs

A manual start, a due moment of a schedule and a delivered event each admit runs of environment
workflows, in one transaction under the executor credential. All three write the run under an
idempotency key with `ON CONFLICT DO NOTHING`, queue it if it is new, and otherwise read the run of
the key back by its grain and its input.

Parameters are the graph parser, the gate and the resolution of a release, the spelling of moments,
and what the transaction read from the catalog.
-/

namespace Wamn.Admission

open Lib Lib.Json Lib.Text RunState Runtime Events Materializer

variable {J G : Type} [DecidableEq J]

/-! ## Insert or read back -/

/-- A kind of workflow run, with the names of its statements. -/
structure Grain where
  source : TriggerSource
  insertOperation : String
  queueOperation : String

/-- The runs of manual starts. -/
def Grain.manual : Grain := ⟨.manual, "admit the manual run", "queue the manual run"⟩

/-- The runs of schedules. -/
def Grain.schedule : Grain := ⟨.schedule, "admit the schedule run", "queue the schedule run"⟩

/-- The runs of events. -/
def Grain.event : Grain := ⟨.event, "insert event run", "queue event run"⟩

/-- What an admission decides about the run it asks for. -/
structure Request (J : Type) where
  application : String
  manifestDigest : String
  environment : String
  workflowId : String
  workflowVersion : ℤ
  wiringHash : String
  executionPrincipalId : String
  executionRole : String
  invokedBy : String
  invokedByUserId : Option String
  nodeDigests : J
  idempotencyKey : String
  input : J
  eventSourceRunId : Option String := none
  eventRootRunId : Option String := none
  eventDepth : Option ℤ := none

/-- The row of the run. -/
def Request.newRun (q : Request J) (source : TriggerSource) : NewRun J where
  packageId := q.application
  environment := q.environment
  eventSourceRunId := q.eventSourceRunId
  eventRootRunId := q.eventRootRunId
  eventDepth := q.eventDepth
  triggerSource := some source
  executionPrincipalId := some q.executionPrincipalId
  executionRole := some q.executionRole
  invokedBy := some q.invokedBy
  invokedByUserId := q.invokedByUserId
  nodeDigestsJson := some q.nodeDigests
  wiringId := some q.workflowId
  wiringVersion := some q.workflowVersion
  wiringHash := some q.wiringHash
  manifestDigest := some q.manifestDigest
  inputJson := some q.input
  idempotencyKey := some q.idempotencyKey

variable (pg : Postgres J)

/-- Insert the run and queue it, or read back the run of its key, if that is of its grain and
input. -/
def admitOrRead (grain : Grain) (now : Instant) (id : RunId) (q : Request J)
    (p : Plane J) : Except ProductionClaimError (Option RunId × Plane J) := do
  let (inserted, p₁) ← storage grain.insertOperation
    (insertRun pg now id (q.newRun grain.source) p)
  match inserted with
  | some id => do
    let p₂ ← storage grain.queueOperation (insertRunQueue now id p₁)
    pure (some id, p₂)
  -- The key is taken: only a run of the same grain and input is an answer.
  | none => pure (selectRun q.idempotencyKey grain.source q.input p₁, p₁)

/-! ## Manual starts -/

/-- A manual start to admit. -/
structure ManualRunAdmission where
  packageId : String
  manifestDigest : String
  environment : String
  workflowId : String
  workflowVersion : ℤ
  wiringHash : String
  executionPrincipalId : String
  executionRole : String
  invokedByUserId : String
  nodeDigests : Value
  idempotencyKey : String
  input : Value

/-- The run of a manual start, or a conflict about its key. -/
inductive ManualRunAdmitted where
  | queued (runId : RunId)
  | conflict
  deriving DecidableEq

/-- The session of an admission, the durability policy of the environment, the transaction instant,
and the ids the database draws. -/
structure AdmissionTurn where
  session : Session
  durability : Option String
  now : Instant
  drawnId : ℕ → RunId

/-- The run that a manual start asks for. -/
def ManualRunAdmission.request (a : ManualRunAdmission) : Except DbError (Request J) := do
  let nodeDigests ← pg.bind a.nodeDigests
  let input ← pg.bind a.input
  pure {
    application := a.packageId
    manifestDigest := a.manifestDigest
    environment := a.environment
    workflowId := a.workflowId
    workflowVersion := a.workflowVersion
    wiringHash := a.wiringHash
    executionPrincipalId := a.executionPrincipalId
    executionRole := a.executionRole
    invokedBy := "manual"
    invokedByUserId := some a.invokedByUserId
    nodeDigests := nodeDigests
    idempotencyKey := a.idempotencyKey
    input := input }

/-- `admit_manual_run`. -/
def admitManualRun (turn : AdmissionTurn) (a : ManualRunAdmission)
    (p : Plane J) : Except ProductionClaimError (ManualRunAdmitted × Plane J) := do
  requireExecutorAuthority turn.session
  ensure turn.durability.isSome
    ⟨.contract, "read the environment policy", "the environment policy is absent"⟩
  let q ← storage Grain.manual.insertOperation (a.request pg)
  let (answer, p') ← admitOrRead pg .manual turn.now (turn.drawnId 0) q p
  pure (answer.elim .conflict .queued, p')

/-- The key of a manual start, as `start_workflow` writes it. -/
def manualKey (user workflowId clientKey : String) : String :=
  -- Neither the application nor the environment is part of the key.
  "manual:" ++ user ++ ":" ++ workflowId ++ ":" ++ clientKey

/-! ## Releases -/

/-- What an admission asks of a release, for the packages of an application: the hash of a graph
that it serves, and the component digest of every node. -/
structure Manifest (G : Type) where
  gateWorkflowDocument : List String → G → Except String String
  resolveWorkflowComponents : List String → G → Except String (List (String × String))

/-- The node digests of a graph that gates to its stored hash, none if it is not served. -/
def Manifest.servedComponents (m : Manifest G) (packages : List String) (graph : G)
    (wiringHash : String) : Option (List (String × String)) :=
  match m.gateWorkflowDocument packages graph with
  | .ok hash => if hash = wiringHash then (m.resolveWorkflowComponents packages graph).toOption
    else none
  | .error _ => none

/-- The node digests as JSON. -/
def nodeDigests (components : List (String × String)) : Value :=
  .ofMembers (components.map fun node => (node.1, .string node.2))

/-- The release a host serves, and the applications of its environment with their packages. -/
structure LoadedRelease (G : Type) where
  envKey : String
  project : String
  environment : String
  applications : List (String × List String)
  manifestDigest : String
  manifest : Manifest G

/-- What the host takes from its libraries and constants. -/
structure Platform (G : Type) where
  parseGraph : String → Except String G
  dueText : ℤ → String
  decodeEvent : String → Except String SourceEvent
  derivedMsgId : DerivedEvent → String
  jmes : JmesPathLibrary
  workflowUserId : String

variable (platform : Platform G) (release : LoadedRelease G)

/-- The role of a workflow without one. -/
def adminRole : String := "admin"

/-- The payload of a `workflow.start` request. -/
structure WorkflowStartRequest where
  application : String
  workflowId : String
  idempotencyKey : String
  inputJson : Value

/-- Who starts a workflow. -/
structure Caller where
  principalId : String
  activeRole : Option String

/-- The enabled version of a workflow as a start reads it. -/
structure StoredWorkflow (G : Type) where
  version : ℤ
  graph : G
  wiringHash : String
  executionType : String
  executionRole : Option String

/-- Why a start is refused: with a code about a field, or by a failure behind it. -/
inductive StartRefusal where
  | refused (code field : String)
  | executionType (workflowId executionType : String)
  | failed (error : ProductionClaimError)
  deriving DecidableEq

/-- A started run executes as the workflow user with the stored role, or as the caller with the
active one. -/
def startIdentity (caller : Caller) (workflowId : String)
    (workflow : StoredWorkflow G) : Except StartRefusal (String × String) :=
  match workflow.executionType, workflow.executionRole with
  -- A role belongs to the type `role`, and to no other.
  | "role", some role => pure (platform.workflowUserId, role)
  | "invoker", none => match caller.activeRole with
    | some role => pure (caller.principalId, role)
    | none => throw (.refused "active_role_required" "workflow_id")
  | executionType, _ => throw (.executionType workflowId executionType)

/-- Admit one run of the enabled version of a workflow. -/
def startWorkflow (turn : AdmissionTurn) (caller : Caller) (enabled : Option (StoredWorkflow G))
    (request : WorkflowStartRequest) (p : Plane J) : Except StartRefusal (RunId × Plane J) := do
  ensure (request.application ≠ "") (.refused "invalid_input" "application")
  ensure (request.workflowId ≠ "") (.refused "invalid_input" "workflow_id")
  ensure (request.idempotencyKey ≠ "") (.refused "invalid_input" "idempotency_key")
  let some packages := release.applications.lookup request.application
    | throw (.refused "application_not_declared" "application")
  -- What the host serves is asked before anything is written.
  let some workflow := enabled | throw (.refused "workflow_not_enabled" "workflow_id")
  let some components := release.manifest.servedComponents packages workflow.graph
      workflow.wiringHash
    | throw (.refused "workflow_not_served" "workflow_id")
  let (principal, role) ← startIdentity platform caller request.workflowId workflow
  let admission : ManualRunAdmission := {
    packageId := request.application
    manifestDigest := release.manifestDigest
    environment := release.environment
    workflowId := request.workflowId
    workflowVersion := workflow.version
    wiringHash := workflow.wiringHash
    executionPrincipalId := principal
    executionRole := role
    invokedByUserId := caller.principalId
    nodeDigests := nodeDigests components
    idempotencyKey := manualKey caller.principalId request.workflowId request.idempotencyKey
    input := request.inputJson }
  match ← (admitManualRun pg turn admission p).mapError .failed with
  | (.queued runId, p') => pure (runId, p')
  -- A conflict answers no run id; the transaction has written nothing.
  | (.conflict, _) => throw (.refused "idempotency_conflict" "idempotency_key")

/-! ## Schedules -/

/-- One due moment of a schedule workflow to admit, in whole seconds. -/
structure ScheduleRunAdmission where
  environment : String
  application : String
  applicationPackages : List String
  workflowId : String
  manifestDigest : String
  due : ℤ

/-- The run of a due moment, or why there is none. -/
inductive ScheduleRunAdmitted where
  | queued (runId : RunId)
  | notEnabled
  | notServed
  | conflict
  deriving DecidableEq

/-- The enabled version of a workflow as an admission transaction reads it. -/
structure EnabledVersion where
  version : ℤ
  graphJson : String
  wiringHash : String
  executionRole : Option String

/-- The key of a schedule admission. -/
def scheduleKey (application workflowId due : String) : String :=
  "schedule:" ++ application ++ "/" ++ workflowId ++ ":" ++ due

/-- The run that a due moment asks for. -/
def ScheduleRunAdmission.request
    (a : ScheduleRunAdmission) (workflow : EnabledVersion) (components : List (String × String)) :
    Except DbError (Request J) := do
  let nodeDigests ← pg.bind (nodeDigests components)
  let input ← pg.bind (.object [("due", .string (platform.dueText a.due))])
  pure {
    application := a.application
    manifestDigest := a.manifestDigest
    environment := a.environment
    workflowId := a.workflowId
    workflowVersion := workflow.version
    wiringHash := workflow.wiringHash
    executionPrincipalId := platform.workflowUserId
    executionRole := workflow.executionRole.getD adminRole
    invokedBy := "schedule"
    invokedByUserId := none
    nodeDigests := nodeDigests
    idempotencyKey := scheduleKey a.application a.workflowId (platform.dueText a.due)
    input := input }

/-- The admission of a due moment whose workflow is served. -/
def admitServedSchedule (turn : AdmissionTurn)
    (a : ScheduleRunAdmission) (workflow : EnabledVersion) (components : List (String × String))
    (p : Plane J) : Except ProductionClaimError (ScheduleRunAdmitted × Plane J) := do
  ensure turn.durability.isSome
    ⟨.contract, "read the environment policy", "the environment policy is absent"⟩
  let q ← storage Grain.schedule.insertOperation (a.request pg platform workflow components)
  let (answer, p') ← admitOrRead pg .schedule turn.now (turn.drawnId 0) q p
  pure (answer.elim .conflict .queued, p')

section

variable (turn : AdmissionTurn) (enabled : Option EnabledVersion)
  (release : Except ProductionClaimError (Manifest G)) (a : ScheduleRunAdmission)

/-- `admit_schedule_run`. The transaction reads the enabled version and the release itself. -/
def admitScheduleRun (p : Plane J) :
    Except ProductionClaimError (ScheduleRunAdmitted × Plane J) := do
  requireExecutorAuthority turn.session
  match enabled with
  | none => pure (.notEnabled, p)
  | some workflow => do
    let graph ← (platform.parseGraph workflow.graphJson).mapError fun e =>
      ⟨.contract, "parse the stored workflow graph", e⟩
    let manifest ← release
    match manifest.servedComponents a.applicationPackages graph workflow.wiringHash with
    | none => pure (.notServed, p)
    | some components => admitServedSchedule pg platform turn a workflow components p

/-- The enabled version is not served: the release gives its graph another hash than the stored one,
or no component for some node. -/
def NotInRelease : Prop :=
  ∃ workflow graph manifest, enabled = some workflow ∧
    platform.parseGraph workflow.graphJson = .ok graph ∧ release = .ok manifest ∧
    manifest.servedComponents a.applicationPackages graph workflow.wiringHash = none

end

/-! ## Events -/

/-- One enabled event workflow as the batch admission reads it. -/
structure EventWorkflow where
  trigger : EventTrigger
  enabled : EnabledVersion

/-- One delivery of an event to admit. -/
structure EventBatchAdmission where
  sourcePackage : String
  entity : String
  envelope : String
  sequence : ℕ
  sourceEventId : String

/-- The text that names a delivery. -/
def eventDelivery (sequence : ℕ) (sourceEventId : String) : String :=
  "event:" ++ toString sequence ++ ":" ++ sourceEventId

/-- The name of this delivery. -/
def EventBatchAdmission.delivery (a : EventBatchAdmission) : String :=
  eventDelivery a.sequence a.sourceEventId

/-- The key of an event admission: the JSON text of its coordinates. -/
def eventKey (environment application workflowId delivery : String) : String :=
  jsonStrings ["event", environment, application, workflowId, delivery]

/-- The event ancestry of a run. -/
structure Lineage where
  sourceRun : Option String
  rootRun : Option String
  depth : Option ℤ

/-- The ancestry of a run that an event admits, none for an event without a causation. -/
def lineage : Option Causation → Except ProductionClaimError Lineage
  | none => pure ⟨none, none, none⟩
  | some parent =>
    -- The run is one link behind the event that admits it.
    if parent.depth + 1 < 2 ^ 31 then
      pure ⟨some parent.run, some parent.root, some (parent.depth + 1)⟩
    else throw ⟨.contract, "decode event depth", outOfRange⟩

/-- The workflows that the event matches, with their inputs. -/
def matchTriggers (jmes : JmesPathLibrary) (event : SourceEvent) (sequence : ℕ)
    (packages : List String) (envKey : String) :
    List EventWorkflow → Except ProductionClaimError (List (EventWorkflow × Value))
  | [] => pure []
  | w :: rest => do
    let input ← (w.trigger.isMatch jmes event sequence packages envKey).mapError fun e =>
      ⟨.contract, "filter event workflow", e.workflowId⟩
    let matched ← matchTriggers jmes event sequence packages envKey rest
    pure (input.toList.map (fun input => (w, input)) ++ matched)

/-- The node digests of a matched workflow, gated against the release. -/
def eventComponents (w : EventWorkflow) : Except ProductionClaimError (List (String × String)) := do
  let graph ← (platform.parseGraph w.enabled.graphJson).mapError fun e =>
    ⟨.contract, "parse event workflow", e⟩
  -- An application that is not declared any more gates against no package.
  let packages := (release.applications.lookup w.trigger.application).getD []
  let gated ← (release.manifest.gateWorkflowDocument packages graph).mapError fun e =>
    ⟨.contract, "gate event workflow", e⟩
  ensure (gated = w.enabled.wiringHash)
    ⟨.contract, "gate event workflow", "workflow hash differs"⟩
  (release.manifest.resolveWorkflowComponents packages graph).mapError fun e =>
    ⟨.contract, "resolve event workflow", e⟩

/-- The run that a matched workflow asks for. -/
def eventRequest
    (delivery : String) (actor : Option String) (ancestry : Lineage) (w : EventWorkflow)
    (components : List (String × String)) (input : Value) : Except DbError (Request J) := do
  let nodeDigests ← pg.bind (nodeDigests components)
  let input ← pg.bind input
  pure {
    application := w.trigger.application
    manifestDigest := release.manifestDigest
    environment := release.environment
    workflowId := w.trigger.workflowId
    workflowVersion := w.enabled.version
    wiringHash := w.enabled.wiringHash
    executionPrincipalId := platform.workflowUserId
    executionRole := w.enabled.executionRole.getD adminRole
    invokedBy := delivery
    invokedByUserId := actor
    nodeDigests := nodeDigests
    idempotencyKey := eventKey release.environment w.trigger.application w.trigger.workflowId
      delivery
    input := input
    eventSourceRunId := ancestry.sourceRun
    eventRootRunId := ancestry.rootRun
    eventDepth := ancestry.depth }

/-- Admit the run of one matched workflow, or find the one an earlier delivery admitted. -/
def admitEventRun
    (now : Instant) (id : RunId) (delivery : String) (actor : Option String) (ancestry : Lineage)
    (matched : EventWorkflow × Value) (p : Plane J) :
    Except ProductionClaimError (RunId × Plane J) := do
  let components ← eventComponents platform release matched.1
  let q ← storage Grain.event.insertOperation
    (eventRequest pg platform release delivery actor ancestry matched.1 components matched.2)
  match ← admitOrRead pg .event now id q p with
  | (some runId, p') => pure (runId, p')
  -- A key of another grain or input ends the whole batch.
  | (none, _) =>
    throw ⟨.contract, "read existing event run", "event idempotency conflict"⟩

/-- Admit the matched workflows one after the other. -/
def admitEventRuns (pg : Postgres J) (platform : Platform G) (release : LoadedRelease G)
    (turn : AdmissionTurn) (delivery : String) (actor : Option String) (ancestry : Lineage) :
    ℕ → List (EventWorkflow × Value) → Plane J → Except ProductionClaimError (Plane J)
  | _, [], p => pure p
  | n, matched :: rest, p => do
    let (_, p') ← admitEventRun pg platform release turn.now (turn.drawnId n) delivery actor
      ancestry matched p
    admitEventRuns pg platform release turn delivery actor ancestry (n + 1) rest p'

/-- The event a message carries, if its identity holds. -/
def identifyEvent (a : EventBatchAdmission) : Except ProductionClaimError SourceEvent := do
  let event ← (platform.decodeEvent a.envelope).mapError fun e => ⟨.contract, "decode event", e⟩
  ensure (a.sequence ≠ 0 && event.identity platform.derivedMsgId release.envKey release.project
      release.environment a.sourceEventId)
    ⟨.contract, "identify event", "invalid event sequence or source identity"⟩
  pure event

/-- The actor of an event, from the history of a row event. -/
def eventActor (history : Except ProductionClaimError (Option String)) :
    SourceEvent → Except ProductionClaimError (Option String)
  | .cdc _ => history
  | .derived _ => pure none

section

variable (turn : AdmissionTurn) (workflows : List EventWorkflow)
  (history : Except ProductionClaimError (Option String)) (a : EventBatchAdmission)

/-- The admission of the consumer's own event, for the enabled event workflows and the actor that
the transaction read. -/
def admitOwnEvent (event : SourceEvent) (p : Plane J) : Except ProductionClaimError (Plane J) := do
  let matched ← matchTriggers platform.jmes event a.sequence
    (release.applications.flatMap Prod.snd) release.envKey workflows
  -- Without a match neither the history nor the policy is asked.
  if matched.isEmpty then pure p
  else do
    let actor ← eventActor history event
    ensure turn.durability.isSome
      ⟨.contract, "read environment policy", "environment policy is absent"⟩
    let ancestry ← lineage event.causation
    admitEventRuns pg platform release turn a.delivery actor ancestry 0 matched p

/-- `admit_event_batch`: admit every workflow that a delivery matches, or nothing. Another package's
event of the same entity is settled without runs. -/
def admitEventBatch (p : Plane J) : Except ProductionClaimError (Unit × Plane J) := do
  requireExecutorAuthority turn.session
  let event ← identifyEvent platform release a
  -- The consumer of an entity sees the events of every package that has one of this name.
  if event.source ≠ (a.sourcePackage, a.entity) then pure ((), p)
  else do
    let p' ← admitOwnEvent pg platform release turn workflows history a event p
    pure ((), p')

end

end Wamn.Admission
