import Wamn.Events.Wire

/-!
# What nodes and walks report

What an invoked node returned, the terminal a node may declare, and how the walk of one delivery
ended. The router reads only the variant of a failure; message and code travel on.
-/

namespace Wamn.Workflow

open Lib.Json Events

inductive WalkStatus where
  | running
  | completed
  | failed
  | cancelled
  deriving DecidableEq

inductive FailureKind where
  | terminal
  | retryExhausted
  | invalidInput
  | hopLimit
  | unreleasedCaller
  | missingDedupId
  | respondWithoutCaller
  | secondVerdict
  deriving DecidableEq

structure ErrorDetail where
  message : String
  code : Option String
  data : Option Value
  deriving DecidableEq

structure Failure where
  node : String
  kind : FailureKind
  detail : ErrorDetail
  deriving DecidableEq

inductive Verdict where
  | respond (payload : Value) (nodeId : String)
  | emit (event : Value) (dedupId entity : String) (operation : Op) (nodeId : String)
  | discard
  deriving DecidableEq

structure Outcome where
  status : WalkStatus
  result : Value
  failure : Option Failure
  verdict : Option Verdict
  deriving DecidableEq

def ErrorDetail.coded (code message : String) : ErrorDetail := ⟨message, some code, none⟩

/-- The payload sent down an error edge. -/
def ErrorDetail.toErrorPayload (detail : ErrorDetail) : Value :=
  let code := detail.code.toList.map fun code => ("code", Value.string code)
  let data := detail.data.toList.map fun data => ("data", data)
  .ofMembers [("error", .ofMembers (("message", .string detail.message) :: code ++ data))]

/-- Every status but `running` ends a walk. -/
def WalkStatus.isTerminal : WalkStatus → Bool
  | .running => false
  | .completed | .failed | .cancelled => true

namespace Router

/-- The port a node emits on unless it chooses another. -/
def mainPort : String := "main"

/-- The port that failures of a node are routed along. -/
def errorPort : String := "error"

/-- Where an emitted event carries the id it is published under. -/
def dedupIdField : String := "dedup-id"

/-- A rate limit, with the delay the source asks for if it names one. -/
structure RateLimitDetail where
  detail : ErrorDetail
  retryAfterMs : Option ℕ
  targetHost : Option String
  deriving DecidableEq

inductive NodeError where
  | retryable (detail : ErrorDetail)
  | rateLimited (limit : RateLimitDetail)
  | terminal (detail : ErrorDetail)
  | invalidInput (detail : ErrorDetail)
  deriving DecidableEq

def NodeError.detail : NodeError → ErrorDetail
  | .retryable detail | .terminal detail | .invalidInput detail => detail
  | .rateLimited limit => limit.detail

/-- The classes of failures that ask for another attempt. -/
def NodeError.retries : NodeError → Bool
  | .retryable _ | .rateLimited _ => true
  | .terminal _ | .invalidInput _ => false

inductive NodeOutcome where
  | success (payload : Value) (port : String)
  | error (error : NodeError)
  | cancelled
  deriving DecidableEq

/-- How a node ends its delivery, if it declares that. -/
inductive Terminal where
  | respond
  | emit (entity : String) (operation : Op)
  deriving DecidableEq

end Router

end Wamn.Workflow
