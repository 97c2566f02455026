import Wamn.Runtime.ProductionClaim
import Wamn.Workflow.Router.Outcome

/-!
# From a router outcome to the run store

The queue driver translates the status, failure and verdict of a walk into what the run store must
do: commit a completion, publish a derived event first, or leave the lease to redelivery.
-/

namespace Wamn.Workflow

open Lib Lib.Json RunState Runtime Events

inductive ProductionRouterAction where
  | complete (completion : ProductionCompletion)
  | emit (event : Value) (dedupId entity : String) (operation : Op)
  | cancelled
  deriving DecidableEq

/-- The failure class a run records for a walk's failure. -/
def persistedRouterFailure : FailureKind → FailType
  | .retryExhausted => .retryExhausted
  | .invalidInput => .invalidInput
  | .hopLimit => .runawayBudget
  | .terminal | .unreleasedCaller | .missingDedupId | .respondWithoutCaller | .secondVerdict =>
    .terminal

def routerFailureCode : FailureKind → String
  | .terminal => "terminal"
  | .retryExhausted => "retry-exhausted"
  | .invalidInput => "invalid-input"
  | .hopLimit => "hop-limit"
  | .unreleasedCaller => "unreleased-caller"
  | .missingDedupId => "missing-dedup-id"
  | .respondWithoutCaller => "respond-without-caller"
  | .secondVerdict => "second-verdict"

def failureBody (failure : Failure) : Value :=
  let code := failure.detail.code.getD (routerFailureCode failure.kind)
  let members := [("code", Value.string code), ("message", .string failure.detail.message),
    ("node", .string failure.node)]
  .ofMembers [("error", .ofMembers (members ++
    failure.detail.data.toList.map fun data => ("data", data)))]

/-- `production_router_action`. A recorded verdict stands even when later work failed. -/
def productionRouterAction (outcome : Outcome) (callerAttached : Bool) :
    Except ProductionClaimError ProductionRouterAction :=
  if outcome.status = .running then
    throw ⟨.contract, "map router outcome", "router-returned-running-outcome"⟩
  else match outcome.verdict with
    -- The verdict stands: what happened after it was recorded does not count.
    | some (.respond payload nodeId) =>
      if callerAttached then
        pure (.complete (.completed payload (some (.responded payload 200 nodeId))))
      else throw ⟨.contract, "map router response", "router-response-without-result-owner"⟩
    | some (.emit event dedupId entity operation _) => pure (.emit event dedupId entity operation)
    | some .discard =>
      if callerAttached then throw ⟨.contract, "map router discard", "router-discard-with-caller"⟩
      else pure (.complete (.completed outcome.result none))
    | none => match outcome.status with
      | .failed => match outcome.failure with
        | none => throw ⟨.contract, "map failed router outcome", "router-failed-without-failure"⟩
        | some failure =>
          let body := failureBody failure
          -- A failure answers its caller and ends the run in one completion.
          let caller := if callerAttached then
              some (.failed body 500 (some failure.node))
            else none
          pure (.complete (.failed body (persistedRouterFailure failure.kind) caller))
      -- A cancelled walk is left to redelivery.
      | .cancelled => pure .cancelled
      | .completed | .running =>
        throw ⟨.contract, "map completed router outcome", "router-completed-without-verdict"⟩

end Wamn.Workflow
