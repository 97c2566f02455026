import Wamn.Workflow.Router.Outcome

/-!
# Retry policies

A node's `retry` object falls back field by field to the default policy. The product of a base and a
power of a factor is taken from the host's floating-point library; only its cap is used here.
-/

namespace Wamn.Workflow.Router

open Lib.Json

/-- What the walk takes from the standard library it is built with. -/
structure Library where
  /-- The quoted form of a text in messages. -/
  debugText : String → String
  /-- The nanoseconds of a base in milliseconds times a power of a factor, none out of range. -/
  scaledNanos : (baseMs : ℕ) → (factor : ℚ) → (exponent : ℕ) → Option ℕ

structure RetryPolicy where
  maxAttempts : ℕ
  baseMs : ℕ
  factor : ℚ
  capMs : ℕ
  deriving DecidableEq

namespace RetryPolicy

/-- The policy of a node without a `retry` object. -/
def default : RetryPolicy := ⟨3, 100, 2, 30000⟩

/-- The longest delay a configuration can ask for. -/
def capMsCeiling : ℕ := 3600000

def maxU32 : ℕ := 2 ^ 32 - 1

/-- The policy that a node's configuration asks for. -/
def fromConfig (config : Value) : RetryPolicy :=
  match config.get "retry" with
  | some (.object members) =>
    let retry := Value.object members
    { maxAttempts := ((retry.get "max-attempts").bind Value.asU64).elim default.maxAttempts
        -- A count that does not fit saturates, and zero attempts count as one.
        fun n => min (max n 1) maxU32
      baseMs := ((retry.get "base-ms").bind Value.asU64).getD default.baseMs
      factor := (((retry.get "factor").bind Value.asF64).filter fun f => 1 ≤ f).getD default.factor
      capMs := ((retry.get "cap-ms").bind Value.asU64).elim default.capMs
        fun n => min n capMsCeiling }
  | _ => default

/-- Whether a further attempt after this one, counted from zero, is in the budget. -/
def mayRetry (policy : RetryPolicy) (attempt : ℕ) : Bool :=
  attempt + 1 < max policy.maxAttempts 1

/-- The delay before the retry that follows a failed attempt. -/
def backoffMs (lib : Library) (policy : RetryPolicy) (attempt : ℕ) : ℕ :=
  if policy.baseMs = 0 then 0
  else
    let cap := policy.capMs * 1000000
    let exponent := min attempt (2 ^ 31 - 1)
    let scaled := (lib.scaledNanos policy.baseMs policy.factor exponent).getD cap
    min scaled cap / 1000000

end RetryPolicy

/-- What a shared throttle is keyed on. -/
structure ThrottleKey where
  component : String
  credential : Option String
  host : Option String
  deriving DecidableEq

end Wamn.Workflow.Router
