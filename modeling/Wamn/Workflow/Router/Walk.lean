import Wamn.Workflow.Router.Retry
import Wamn.Workflow.Router.Wiring

/-!
# The walk of one delivery

The frontier of a walk is a queue of tokens, each a node with its payload. `next` promotes the first
to the active slot and hands out an invocation; `apply` folds its outcome: it enqueues the edges of
the emitted port, schedules a retry, routes a failure to the error port, or ends the walk.

Visits wrap at 32 bits and deadlines at 64. An `expect` of the source is an error here.
-/

namespace Wamn.Workflow.Router

open Lib Lib.Json

/-! ## State -/

structure Delivery where
  id : String
  payload : Value
  callerAttached : Bool

/-- A node to run with the payload that enters it. The entry alone has no input port. -/
structure Token where
  node : String
  inputPort : Option String
  payload : Value
  deriving DecidableEq

/-- The node being invoked, or awaiting its next attempt. -/
structure Active where
  node : String
  inputPort : Option String
  payload : Value
  attempt : ℕ
  retryUntilMs : ℕ
  throttle : Option ThrottleKey
  deriving DecidableEq

structure Walk where
  deliveryId : String
  status : WalkStatus
  frontier : List Token
  current : Option Active
  stepSeq : ℕ
  hops : ℕ
  visits : String → ℕ
  result : Value
  failure : Option Failure
  callerAttached : Bool
  verdict : Option Verdict

structure NodeCall where
  node : String
  inputPort : Option String
  component : String
  operation : String
  config : Value
  connection : Option String
  credential : Option String
  payload : Value
  attempt : ℕ
  occurrence : ℕ
  deadlineMs : Option ℕ
  deriving DecidableEq

inductive Step where
  | invoke (call : NodeCall)
  | wait (node : String) (untilMs attempt : ℕ) (throttle : Option ThrottleKey)
  | done (status : WalkStatus)
  deriving DecidableEq

inductive ApplyError where
  | terminal (status : WalkStatus)
  | noActiveNode
  | mismatchedNode (expected actual : String)
  | respondWithoutCaller (node : String)
  | secondVerdict (node : String)
  deriving DecidableEq

/-- A failed `expect`, with its message. -/
structure Panic where
  message : String
  deriving DecidableEq

def expect {α : Type} (value : Option α) (message : String) : Except Panic α :=
  value.elim (throw ⟨message⟩) pure

/-- The token as the active node, before its first attempt. -/
def Token.activate (t : Token) : Active := ⟨t.node, t.inputPort, t.payload, 0, 0, none⟩

/-! ## Refusals -/

namespace ApplyError

/-- `node_data_failure`: the failure of a refusal that data caused, not the driver. -/
def nodeDataFailure : ApplyError → Option (FailureKind × String)
  | respondWithoutCaller _ => some (.respondWithoutCaller, "respond-without-caller")
  | secondVerdict _ => some (.secondVerdict, "second-verdict")
  | terminal _ | noActiveNode | mismatchedNode _ _ => none

def statusText : WalkStatus → String
  | .running => "Running"
  | .completed => "Completed"
  | .failed => "Failed"
  | .cancelled => "Cancelled"

def display (lib : Library) : ApplyError → String
  | terminal status => "walk is already terminal: " ++ statusText status
  | noActiveNode => "walk has no active node"
  | mismatchedNode expected actual =>
    "active node is " ++ lib.debugText expected ++ ", not " ++ lib.debugText actual
  | respondWithoutCaller node =>
    "node " ++ lib.debugText node ++ " responds, but no caller is attached"
  | secondVerdict node =>
    "node " ++ lib.debugText node ++ " is a second terminal for this delivery"

end ApplyError

/-- What is reported of an emitted event without an id to publish it under. -/
def unkeyedDetail : ErrorDetail :=
  .coded "missing-dedup-id" ("emit node emitted no " ++ dedupIdField ++ " string")

/-! ## Handing out work -/

namespace Wiring

variable (w : Wiring) (walk : Walk) (node : String) (lib : Library)

/-- The entry node holds the payload of the delivery. -/
def start (delivery : Delivery) : Walk where
  deliveryId := delivery.id
  status := .running
  frontier := [⟨w.entry, none, delivery.payload⟩]
  current := none
  stepSeq := 0
  hops := 0
  visits := fun _ => 0
  result := .null
  failure := none
  callerAttached := delivery.callerAttached
  verdict := none

/-- `settle`: end a walk without work. A verdict stands; without one it discards, or fails if a
caller waits. -/
def settle : WalkStatus × Walk :=
  if walk.verdict.isNone && walk.callerAttached then
    (.failed, { walk with
      status := .failed
      failure := some ⟨w.entry, .unreleasedCaller, .coded "unreleased-caller"
        "frontier emptied with a caller attached and no respond"⟩ })
  else
    (.completed, { walk with
      status := .completed
      verdict := some (walk.verdict.getD .discard) })

/-- The invocation of the active node, as its node of the wiring and the walk determine it. -/
def nodeCall (a : Active) (node : WiringNode) : NodeCall where
  node := a.node
  inputPort := a.inputPort
  component := node.component
  operation := node.operation
  config := node.config
  connection := node.connection
  credential := none
  payload := a.payload
  attempt := a.attempt
  occurrence := walk.visits a.node
  deadlineMs := (node.config.get "deadline-ms").bind Value.asU64

/-- The invocation of the active node, which the wiring must have. -/
def buildCall (a : Active) : Except Panic NodeCall := do
  let node ← expect (w.node a.node) "active node in wiring"
  pure (nodeCall walk a node)

/-- `next` with an active token: wait for a retry, fail at the hop limit, or hand out the
invocation. -/
def handOut (nowMs : ℕ) : Except Panic (Step × Walk) := do
  let a ← expect walk.current "current set above"
  if nowMs < a.retryUntilMs then pure (.wait a.node a.retryUntilMs a.attempt a.throttle, walk)
  else if w.hopLimit ≤ walk.hops then
    -- The error edge is not asked: it could be part of the loop.
    pure (.done .failed, { walk with
      current := none
      status := .failed
      failure := some ⟨a.node, .hopLimit, .coded "hop-limit"
        ("hop limit of " ++ toString w.hopLimit ++ " spent without terminating")⟩ })
  else do
    let call ← w.buildCall walk a
    pure (.invoke call, { walk with hops := walk.hops + 1 })

/-- `next`, which promotes the first token when no node is active. -/
def next (nowMs : ℕ) : Except Panic (Step × Walk) :=
  if walk.status.isTerminal then pure (.done walk.status, walk)
  else match walk.current, walk.frontier with
    | some _, _ => w.handOut walk nowMs
    | none, token :: rest =>
      w.handOut { walk with current := some token.activate, frontier := rest } nowMs
    | none, [] =>
      let (status, settled) := w.settle walk
      pure (.done status, settled)

/-! ## Folding outcomes -/

/-- The tokens that an emission on a port puts on the frontier, one for each edge. -/
def tokens (node port : String) (payload : Value) : List Token :=
  (w.successors node port).map fun edge => ⟨edge.toNode, some edge.toPort, payload⟩

/-- Put the tokens of an emission at the end of the frontier. -/
def enqueueSuccessors (node port : String) (payload : Value) : Walk :=
  { walk with frontier := walk.frontier ++ w.tokens node port payload }

/-- Count a completed visit of a node, in 32 bits. -/
def countVisit : String → ℕ :=
  Function.update walk.visits node ((walk.visits node + 1) % 2 ^ 32)

/-- `route_error`: the visit completes and emits on the error port, without counting as a step. -/
def routeError (payload : Value) : Walk :=
  w.enqueueSuccessors { walk with current := none, visits := countVisit walk node }
    node errorPort payload

/-- Route the failed node to its error edge if it has one, or end the walk. -/
def errorOrFail (detail : ErrorDetail) (kind : FailureKind) : Walk :=
  let walk := { walk with current := none }
  if (w.successors node errorPort).isEmpty then
    { walk with status := .failed, failure := some ⟨node, kind, detail⟩ }
  else w.routeError walk node detail.toErrorPayload

/-- `terminal_verdict`, none for an event without an id. -/
def terminalVerdict (terminal : Terminal) (payload : Value) : Except ApplyError (Option Verdict) :=
  if walk.verdict.isSome then throw (.secondVerdict node)
  else match terminal with
    | .respond =>
      if walk.callerAttached then pure (some (.respond payload node))
      else throw (.respondWithoutCaller node)
    | .emit entity operation =>
      let dedupId := ((payload.get dedupIdField).bind Value.asString).filter fun id => id ≠ ""
      pure (dedupId.map fun id => .emit payload id entity operation node)

/-- The next attempt of the active node, not before a deadline. -/
def scheduleRetry (untilMs : ℕ) (throttle : Option ThrottleKey) : Walk :=
  { walk with current := walk.current.map fun a =>
      { a with attempt := a.attempt + 1, retryUntilMs := untilMs, throttle := throttle } }

/-- A success counts as a step, its payload is the result so far, the verdict is recorded, and the
emitted port enqueued. -/
def completeVisit (verdict : Option Verdict) (payload : Value) (port : String) : Walk :=
  w.enqueueSuccessors { walk with
    current := none
    stepSeq := walk.stepSeq + 1
    visits := countVisit walk node
    result := payload
    verdict := verdict.or walk.verdict } node port payload

/-- The part of `apply` for a success of the active node. -/
def applySuccess (payload : Value) (port : String) : Except ApplyError Unit × Walk :=
  match (w.node node).bind WiringNode.terminal with
  | none => (pure (), w.completeVisit walk node none payload port)
  | some terminal =>
    match terminalVerdict walk node terminal payload with
    -- Decided before anything changes, so that a refusal leaves the walk as it was.
    | .error refused => (throw refused, walk)
    | .ok none => (pure (), w.errorOrFail walk node unkeyedDetail .missingDedupId)
    | .ok (some verdict) => (pure (), w.completeVisit walk node (some verdict) payload port)

section

variable (w : Wiring) (walk : Walk) (attempt : ℕ) (call : NodeCall)

/-- The part of `apply` for a failure of the active node. -/
def applyError (error : NodeError) (nowMs : ℕ) : Walk :=
  let policy := RetryPolicy.fromConfig call.config
  match error with
  | .retryable detail =>
    if policy.mayRetry attempt then
      scheduleRetry walk ((nowMs + policy.backoffMs lib attempt) % 2 ^ 64) none
    else w.errorOrFail walk call.node detail .retryExhausted
  | .rateLimited limit =>
    if policy.mayRetry attempt then
      -- A delay that the source names stands, however long it is.
      let delay := limit.retryAfterMs.getD (policy.backoffMs lib attempt)
      scheduleRetry walk ((nowMs + delay) % 2 ^ 64)
        (some ⟨call.component, call.credential, limit.targetHost⟩)
    else w.errorOrFail walk call.node limit.detail .retryExhausted
  | .terminal detail => w.errorOrFail walk call.node detail .terminal
  -- Never retried, whatever the budget.
  | .invalidInput detail => w.errorOrFail walk call.node detail .invalidInput

/-- Fold the outcome of an invocation into the walk. -/
def apply (outcome : NodeOutcome) (nowMs : ℕ) : Except ApplyError Unit × Walk :=
  if walk.status.isTerminal then (throw (.terminal walk.status), walk)
  else match walk.current with
    | none => (throw .noActiveNode, walk)
    | some active =>
      if active.node ≠ call.node then (throw (.mismatchedNode active.node call.node), walk)
      else match outcome with
        | .success payload port => w.applySuccess walk call.node payload port
        | .error error => (pure (), w.applyError lib walk active.attempt call error nowMs)
        | .cancelled => (pure (), { walk with current := none, status := .cancelled })

/-- `fail_on_node_data`: fold a refusal that data caused, and give back any other. -/
def failOnNodeData (node : String) (error : ApplyError) : Except ApplyError Unit × Walk :=
  match error.nodeDataFailure with
  | none => (throw error, walk)
  | some (kind, code) => (pure (), w.errorOrFail walk node (.coded code (error.display lib)) kind)

/-- Feed the outcome of an invocation back and fold a refusal, as `route` does. -/
def answer (outcome : NodeOutcome) (nowMs : ℕ) : Except ApplyError Unit × Walk :=
  match w.apply lib walk call outcome nowMs with
  | (.ok (), walk') => (pure (), walk')
  | (.error refused, walk') => w.failOnNodeData lib walk' call.node refused

end

end Wiring

end Wamn.Workflow.Router
