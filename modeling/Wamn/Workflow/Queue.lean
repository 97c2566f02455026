import Wamn.RunPlane.System
import Wamn.Workflow.RouterAction

/-!
# The queue service of the executors

A queue turn reaps one exhausted run, claims one due run and drives it to its end over several
transactions: a held claim is claimed, executes under heartbeats, has its delivery recorded, and is
settled. Any number of hosts do this at once, and a host may stop at any point.
-/

namespace Wamn.Workflow

open Lib Lib.Json RunState Runtime Events RunPlane

variable {J : Type}

/-! ## Refusals -/

/-- Why a workflow run did not resolve against its pinned release. -/
inductive WorkflowResolutionErrorType where
  | notFound
  | hashMismatch
  | nodeNotInRelease
  | incompatible
  | definition
  deriving DecidableEq

/-- The failures of an execution that no retry changes. -/
inductive WorkflowRefusal where
  | permissionDenied (operation : String)
  | resolution (errorType : WorkflowResolutionErrorType)
  deriving DecidableEq

def workflowResolutionRefusal (errorType : WorkflowResolutionErrorType) (runId : RunId) :
    Value × FailType :=
  let failType := match errorType with
    | .notFound => .unresolvableName
    | .hashMismatch => .hashInvalidBytes
    | .nodeNotInRelease => .foreignRevision
    | .incompatible | .definition => .incompatibleContract
  (.ofMembers [("error", .ofMembers [("code", .string "workflow_resolution_refused"),
    ("run-id", .string runId)])], failType)

def workflowRefusal (refusal : WorkflowRefusal) (runId : RunId) : Value × FailType :=
  match refusal with
  | .permissionDenied operation =>
    (.ofMembers [("error", .ofMembers [("code", .string "permission_denied"),
      ("operation", .string operation), ("run-id", .string runId)])], .terminal)
  | .resolution errorType => workflowResolutionRefusal errorType runId

/-- The completion of a refused run. It carries no caller outcome. -/
def refusalCompletion (failure : Value × FailType) : ProductionCompletion :=
  .failed failure.1 failure.2 none

/-! ## Derived events -/

/-- What the executor hands to the derived event publisher. -/
structure DerivedPublishRequest where
  packageId : String
  wiringId : String
  wiringVersion : ℤ
  nodeId : String
  entity : String
  operation : Op
  payload : Value
  dedupId : String
  causation : Causation
  deriving DecidableEq

/-- The record a publication carries, in the scope its publisher is bound to. -/
def DerivedPublishRequest.event (request : DerivedPublishRequest)
    (envKey project environment : String) : DerivedEvent where
  envKey := envKey
  project := project
  environment := environment
  packageId := request.packageId
  entity := request.entity
  op := request.operation
  payload := request.payload
  dedupId := request.dedupId
  causation := request.causation

/-- The causation the run executes with, or the run as the root of a new chain. -/
def derivedCausation (runId : RunId) (causation : Option Causation) : Causation :=
  causation.getD ⟨runId, runId, 0⟩

/-- The node of an emit verdict; no other verdict has one. -/
def emitNodeId : Option Verdict → String
  | some (.emit _ _ _ _ nodeId) => nodeId
  | _ => ""

/-! ## One held claim -/

/-- What reading the caller of a queued run found. -/
inductive CallerAccess where
  | available
  | connectionUnavailable
  | failed
  deriving DecidableEq

/-- An execution was refused, ended with an outcome of the router, or with any other error. -/
inductive Delivery where
  | refused (refusal : WorkflowRefusal)
  | routed (outcome : Outcome)
  | failed
  deriving DecidableEq

inductive Phase where
  | claimed
  | executing
  | delivered (delivery : Delivery)
  deriving DecidableEq

structure Holding where
  session : Session
  leaseTtlMs : ℤ
  claim : ReadyClaim
  phase : Phase

inductive Progress where
  /-- `drain_one` goes on with the claim. -/
  | opened (access : CallerAccess) (turn : Turn)
  /-- The heartbeat of `drive_claim` ticks. -/
  | heartbeat (turn : Turn)
  /-- The execution ends with deadline adjustments and a delivery. -/
  | delivered (adjustments : List Value) (delivery : Delivery)
  /-- The delivery is settled; a derived event, if it is one, was or was not acknowledged. -/
  | settled (acknowledged : Bool) (turn : Turn)
  /-- The host stops, or its turn fails outside the run plane. -/
  | stopped

namespace Holding

variable (h : Holding)

def causation : Option Causation :=
  h.claim.selected.workflow.bind ProductionWorkflow.causation

/-- The derived event of an emit action of the held run. -/
def derivedRequest (outcome : Outcome) (event : Value) (dedupId entity : String)
    (operation : Op) : DerivedPublishRequest where
  packageId := h.claim.selected.packageId
  wiringId := h.claim.selected.wiringId
  wiringVersion := h.claim.selected.wiringVersion
  nodeId := emitNodeId outcome.verdict
  entity := entity
  operation := operation
  payload := event
  dedupId := dedupId
  causation := derivedCausation h.claim.selected.runId h.causation

/-- What `drive_claim` makes of a delivery: the completion to commit, if any, and the event
published before it. -/
def settlement (delivery : Delivery) (acknowledged : Bool) :
    Option ProductionCompletion × Option DerivedPublishRequest :=
  match delivery with
  | .refused refusal =>
    (some (refusalCompletion (workflowRefusal refusal h.claim.selected.runId)), none)
  | .failed => (none, none)
  | .routed outcome =>
    match productionRouterAction outcome h.claim.selected.durableCallerAttached with
    -- An outcome that maps to no action, and one that is cancelled, leave the lease to run out.
    | .error _ => (none, none)
    | .ok (.complete completion) => (some completion, none)
    | .ok (.emit event dedupId entity operation) =>
      -- The run completes behind the acknowledgement, so that no event is lost with it.
      if acknowledged then
        (some (.completed event none),
          some (h.derivedRequest outcome event dedupId entity operation))
      else (none, none)
    | .ok .cancelled => (none, none)

lemma causation_of_settlement {h : Holding} {delivery : Delivery} {acknowledged : Bool}
    {request : DerivedPublishRequest}
    (hrequest : (h.settlement delivery acknowledged).2 = some request) :
    request.causation = derivedCausation h.claim.selected.runId h.causation := by
  unfold settlement at hrequest
  split at hrequest
  · cases hrequest
  · cases hrequest
  · split at hrequest
    · cases hrequest
    · cases hrequest
    · split at hrequest
      · obtain rfl := Option.some.inj hrequest
        rfl
      · cases hrequest
    · cases hrequest

def complete (turn : Turn) (completion : ProductionCompletion) : Action J :=
  .complete h.session h.claim.selected.runId h.claim.leaseGeneration completion turn

/-- The transaction a host runs for a held claim when it goes on with it. -/
def action : Progress → Option (Action J)
  | .opened access turn => match h.phase, h.claim.selected.workflow, access with
    -- A claim without a workflow is refused before its caller is read.
    | .claimed, none, _ => some (h.complete turn
        (refusalCompletion (workflowResolutionRefusal .notFound h.claim.selected.runId)))
    | .claimed, some _, .connectionUnavailable =>
      some (.releaseClaim h.session h.claim.selected.runId h.claim.leaseGeneration turn)
    | _, _, _ => none
  | .heartbeat turn => match h.phase with
    -- Only an execution renews: a claim that is being settled lives on what is left.
    | .executing => some (.renew h.session h.claim.selected.runId h.claim.leaseGeneration
        h.leaseTtlMs turn)
    | _ => none
  | .delivered adjustments _ => match h.phase, adjustments with
    | .executing, _ :: _ => some (.reportDeadlines h.session h.claim.selected.runId
        h.claim.leaseGeneration (.array adjustments))
    | _, _ => none
  | .settled acknowledged turn => match h.phase with
    | .delivered delivery => (h.settlement delivery acknowledged).1.map (h.complete turn)
    | _ => none
  | .stopped => none

/-- What the host holds afterwards: nothing after a lost fence, a failed transaction or a
settlement. -/
def next (pg : Postgres J) (p : Plane J) : Progress → Option Holding
  | .opened access _ => match h.phase, h.claim.selected.workflow, access with
    | .claimed, some _, .available => some { h with phase := .executing }
    | .claimed, _, _ => none
    | _, _, _ => some h
  | .heartbeat turn => match h.phase with
    | .executing =>
      match renew h.session h.claim.selected.runId h.claim.leaseGeneration h.leaseTtlMs turn p with
      -- A host that lost its lease abandons the execution.
      | .ok (.renewed, _) => some h
      | _ => none
    | _ => some h
  | .delivered adjustments delivery => match h.phase, adjustments with
    | .executing, [] => some { h with phase := .delivered delivery }
    | .executing, _ :: _ =>
      match reportDeadlines pg h.session h.claim.selected.runId h.claim.leaseGeneration
          (.array adjustments) p with
      -- Without the report there is no settlement: the fence is lost.
      | .ok (true, _) => some { h with phase := .delivered delivery }
      | _ => none
    | _, _ => some h
  | .settled _ _ => match h.phase with
    | .delivered _ => none
    | _ => some h
  | .stopped => none

def published : Progress → Option DerivedPublishRequest
  | .settled acknowledged _ => match h.phase with
    | .delivered delivery => (h.settlement delivery acknowledged).2
    | _ => none
  | _ => none

end Holding

/-! ## The executors of a tenant -/

/-- How long an expired lease of an exhausted run is left alone. -/
def productionJanitorGraceMs : ℤ := 3600000

/-- The rows of a tenant, the claims its hosts hold, and the derived events they published. -/
structure Executors (J : Type) where
  plane : Plane J
  held : List Holding
  derived : List DerivedPublishRequest

def Executors.empty : Executors J := ⟨.empty, [], []⟩

/-- Admissions and operator actions, the two turns of `drain_one`, and progress on a held claim. -/
inductive Event (J : Type) where
  | admitRun (now : Instant) (id : RunId) (run : NewRun J) (availableAt : WithTop Instant)
      (streamSeq maxAttempts : ℤ)
  | park (runId : RunId) (environment : String) (now : Instant)
  | releaseParked (runId : RunId) (environment : String) (now : Instant)
  | reap (session : Session) (scope : Scope) (turn : Turn)
  | claim (session : Session) (scope : Scope) (leaseTtlMs : ℤ) (turn : Turn)
  | progress (n : ℕ) (progress : Progress)

namespace Executors

def claimed (pg : Postgres J) (p : Plane J) (session : Session) (scope : Scope) (leaseTtlMs : ℤ)
    (turn : Turn) : Option Holding :=
  match claimNext pg session scope leaseTtlMs turn p with
  | .ok (.ready claim, _) => some ⟨session, leaseTtlMs, claim, .claimed⟩
  | _ => none

/-- The tenant after one transaction that no host holds a claim for. -/
def act (pg : Postgres J) (s : Executors J) (a : Action J) : Executors J :=
  { s with plane := RunPlane.step pg s.plane a }

def step (pg : Postgres J) (s : Executors J) : Event J → Executors J
  | .admitRun now id run availableAt streamSeq maxAttempts =>
    s.act pg (.admitRun now id run availableAt streamSeq maxAttempts)
  | .park runId environment now => s.act pg (.park runId environment now)
  | .releaseParked runId environment now => s.act pg (.releaseParked runId environment now)
  | .reap session scope turn =>
    s.act pg (.reapExhausted session scope productionJanitorGraceMs turn)
  | .claim session scope leaseTtlMs turn =>
    { s with
      plane := RunPlane.step pg s.plane (.claimNext session scope leaseTtlMs turn)
      held := (claimed pg s.plane session scope leaseTtlMs turn).toList ++ s.held }
  | .progress n progress => match s.held[n]? with
    | none => s
    | some h => {
        -- The transaction runs on the rows as they are now, whatever became of the lease.
        plane := (h.action progress).elim s.plane (RunPlane.step pg s.plane)
        held := (h.next pg s.plane progress).toList ++ s.held.eraseIdx n
        derived := (h.published progress).toList ++ s.derived }

lemma claimed_eq_some {pg : Postgres J} {p : Plane J} {session : Session} {scope : Scope}
    {leaseTtlMs : ℤ} {turn : Turn} {h : Holding}
    (hclaim : claimed pg p session scope leaseTtlMs turn = some h) :
    h.phase = .claimed ∧ ∃ s : Queued J, p.run s.runId = some s.run ∧
      decodeSelectedClaim pg s = .ok h.claim.selected := by
  unfold claimed at hclaim
  split at hclaim
  · rename_i claim p' hok
    obtain rfl := Option.some.inj hclaim
    rcases claimNext_eq_ok hok with ⟨hempty, -⟩ |
      ⟨s, selected, hr, -, -, -, hdecode, ⟨⟨e, hrefused⟩, -⟩ | ⟨hready, -⟩⟩
    · cases hempty
    · cases hrefused
    · obtain rfl := ClaimTurn.ready.inj hready
      exact ⟨rfl, s, hr, hdecode⟩
  · cases hclaim

end Executors

end Wamn.Workflow
