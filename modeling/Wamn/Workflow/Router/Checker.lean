import Mathlib.Data.String.Basic
import Wamn.Workflow.Router.Walk

/-!
# The checks on an observed walk

A driver keeps a trace of a walk: calls with the kinds of their outcomes, waits, and for every node
the tokens that arrived by its own reckoning. The checks compare walk and trace after every step.

* WALK-1: the invocations do not pass the hop limit.
* WALK-2: nothing is handed out after the end.
* WALK-3: a node starts no more visits than tokens arrived.
* WALK-4: no node runs past its attempts, and only a failure that asks for it is retried.
* WALK-5: a wait is never over before it starts.
* WALK-6: a terminal failure ends the walk or takes an error edge.
-/

namespace Wamn.Workflow.Router

open List Lib

/-! ## Traces -/

/-- The variant of an outcome, without what it carries. -/
inductive OutcomeKind where
  | success
  | retryable
  | rateLimited
  | terminal
  | invalidInput
  | cancelled
  deriving DecidableEq

def outcomeKind : NodeOutcome → OutcomeKind
  | .success _ _ => .success
  | .cancelled => .cancelled
  | .error (.retryable _) => .retryable
  | .error (.rateLimited _) => .rateLimited
  | .error (.terminal _) => .terminal
  | .error (.invalidInput _) => .invalidInput

/-- `Call`: a completed call and the kind of its outcome. -/
structure TracedCall where
  node : String
  attempt : ℕ
  occurrence : ℕ
  outcome : OutcomeKind
  deriving DecidableEq

/-- `WalkTrace`. The arrivals are the driver's own count; a wait is the clock and its deadline. -/
structure WalkTrace where
  calls : List TracedCall
  arrivals : String → ℕ
  waits : List (ℕ × ℕ)
  invokesAfterDone : ℕ

def countArrival (arrivals : String → ℕ) (edge : WiringEdge) : String → ℕ :=
  Function.update arrivals edge.toNode ((arrivals edge.toNode + 1) % 2 ^ 32)

namespace WalkTrace

def new (w : Wiring) : WalkTrace where
  calls := []
  arrivals := Function.update (fun _ => 0) w.entry 1
  waits := []
  invokesAfterDone := 0

/-- Record what `next` returned, with the status before it was asked. -/
def stepped (trace : WalkTrace) (statusBefore : WalkStatus) (step : Step) (nowMs : ℕ) :
    WalkTrace :=
  match step with
  | .invoke _ =>
    if statusBefore.isTerminal then
      { trace with invokesAfterDone := (trace.invokesAfterDone + 1) % 2 ^ 32 }
    else trace
  | .wait _ untilMs _ _ => { trace with waits := trace.waits ++ [(nowMs, untilMs)] }
  | .done _ => trace

/-- The port on which an outcome puts tokens, if it does. -/
def arrivalPort (call : NodeCall) : NodeOutcome → Option String
  | .success _ port => some port
  | .cancelled => none
  | .error error =>
    if error.retries && (RetryPolicy.fromConfig call.config).mayRetry call.attempt then none
    else some errorPort

/-- Record the outcome of a call, and the tokens it puts on the frontier. -/
def applied (trace : WalkTrace) (w : Wiring) (call : NodeCall) (outcome : NodeOutcome) :
    WalkTrace :=
  { trace with
    calls := trace.calls ++ [⟨call.node, call.attempt, call.occurrence, outcomeKind outcome⟩]
    arrivals := match arrivalPort call outcome with
      | some port => (w.successors call.node port).foldl countArrival trace.arrivals
      | none => trace.arrivals }

end WalkTrace

/-! ## Checks -/

/-- An invariant that did not hold, and what was observed instead. -/
structure Violation where
  invariant : String
  detail : String
  deriving DecidableEq

structure Quoted where
  text : String → String
  failure : Option Failure → String

def OutcomeKind.text : OutcomeKind → String
  | success => "Success"
  | retryable => "Retryable"
  | rateLimited => "RateLimited"
  | terminal => "Terminal"
  | invalidInput => "InvalidInput"
  | cancelled => "Cancelled"

def failureKindText : FailureKind → String
  | .terminal => "Terminal"
  | .retryExhausted => "RetryExhausted"
  | .invalidInput => "InvalidInput"
  | .hopLimit => "HopLimit"
  | .unreleasedCaller => "UnreleasedCaller"
  | .missingDedupId => "MissingDedupId"
  | .respondWithoutCaller => "RespondWithoutCaller"
  | .secondVerdict => "SecondVerdict"

variable (w : Wiring) (walk : Walk) (trace : WalkTrace) (quoted : Quoted)

def walk1HopLimit : Except Violation Unit :=
  if w.hopLimit < walk.hops then
    throw ⟨"WALK-1", "the walk counted " ++ toString walk.hops ++ " hops against a limit of " ++
      toString w.hopLimit⟩
  else if w.hopLimit < trace.calls.length then
    throw ⟨"WALK-1", toString trace.calls.length ++
      " invocations were handed out against a limit of " ++ toString w.hopLimit⟩
  else pure ()

def walk2NoInvokeAfterDone : Except Violation Unit :=
  if 0 < trace.invokesAfterDone then
    throw ⟨"WALK-2", toString trace.invokesAfterDone ++
      " invocations were handed out after the walk was terminal"⟩
  else pure ()

/-- The visits that a node started: the highest occurrence of its calls, plus one. -/
def started (calls : List TracedCall) (node : String) : ℕ :=
  calls.foldl (fun visits call =>
    if call.node = node then max visits ((call.occurrence + 1) % 2 ^ 32) else visits) 0

/-- The nodes that were called, each once and in order. -/
def startedNodes (calls : List TracedCall) : List String :=
  (calls.map TracedCall.node).dedup.insertionSort fun a b => a ≤ b

def walk3OncePerArrivingToken (trace : WalkTrace) : Except Violation Unit :=
  match (startedNodes trace.calls).find? fun node =>
      trace.arrivals node < started trace.calls node with
  | some node =>
    throw ⟨"WALK-3", "node " ++ quoted.text node ++ " started " ++
      toString (started trace.calls node) ++ " visits for " ++ toString (trace.arrivals node) ++
      " arriving tokens"⟩
  | none => pure ()

def nodeBudget (node : String) : ℕ :=
  (w.node node).elim 1 fun wired => max (RetryPolicy.fromConfig wired.config).maxAttempts 1

/-- A call that was made again although its outcome does not ask for it. -/
def wronglyRetried : TracedCall × TracedCall → Bool
  | (previous, next) =>
    previous.node = next.node && previous.occurrence = next.occurrence &&
      next.attempt = previous.attempt + 1 &&
      !(previous.outcome = .retryable || previous.outcome = .rateLimited)

def walk4RetryBudget (w : Wiring) (trace : WalkTrace) : Except Violation Unit :=
  match trace.calls.find? fun call => nodeBudget w call.node < call.attempt + 1 with
  | some call =>
    throw ⟨"WALK-4", "node " ++ quoted.text call.node ++ " ran attempt " ++
      toString call.attempt ++ " against a budget of " ++ toString (nodeBudget w call.node) ++
      " attempts"⟩
  | none =>
    match (trace.calls.zip trace.calls.tail).find? wronglyRetried with
    | some (previous, _) =>
      throw ⟨"WALK-4", "node " ++ quoted.text previous.node ++ " was retried after a " ++
        previous.outcome.text ++ " outcome"⟩
    | none => pure ()

def walk5WaitNeverInThePast : Except Violation Unit :=
  match trace.waits.find? fun (askedAt, untilMs) => untilMs < askedAt with
  | some (askedAt, untilMs) =>
    throw ⟨"WALK-5", "a wait until " ++ toString untilMs ++ " was returned at clock " ++
      toString askedAt⟩
  | none => pure ()

/-- `walk_6_terminal_outcome_matches`. A recorded hop limit is ignored: `next` records it, not
`apply`. -/
def walk6TerminalOutcomeMatches (w : Wiring) (walk : Walk) (trace : WalkTrace) :
    Except Violation Unit :=
  match trace.calls.getLast? with
  | none => pure ()
  | some last =>
    if last.outcome ≠ .terminal then pure ()
    else if (w.successors last.node errorPort).isEmpty then
      if walk.status = .failed ∧ ∃ failure ∈ walk.failure,
          failure.kind = .terminal ∧ failure.node = last.node then pure ()
      else throw ⟨"WALK-6", "node " ++ quoted.text last.node ++
        " returned terminal with no error edge, but the walk is " ++
        ApplyError.statusText walk.status ++ " with " ++ quoted.failure walk.failure⟩
    else match walk.failure with
      | none => pure ()
      | some failure =>
        if failure.kind = .hopLimit then pure ()
        else throw ⟨"WALK-6", "node " ++ quoted.text last.node ++
          " has an error edge, but its terminal outcome failed the walk " ++
          failureKindText failure.kind⟩

def check (w : Wiring) (walk : Walk) (trace : WalkTrace) : Except Violation Unit := do
  walk1HopLimit w walk trace
  walk2NoInvokeAfterDone trace
  walk3OncePerArrivingToken quoted trace
  walk4RetryBudget quoted w trace
  walk5WaitNeverInThePast trace
  walk6TerminalOutcomeMatches quoted w walk trace

/-! ## When they pass -/

def Matches (last : TracedCall) : Prop :=
  last.outcome = .terminal →
    (w.successors last.node errorPort = [] → walk.status = .failed ∧
      ∃ detail, walk.failure = some ⟨last.node, .terminal, detail⟩) ∧
    (w.successors last.node errorPort ≠ [] →
      ∀ failure, walk.failure = some failure → failure.kind = .hopLimit)

structure Clean : Prop where
  hops : walk.hops ≤ w.hopLimit
  handed : trace.calls.length ≤ w.hopLimit
  quiet : trace.invokesAfterDone = 0
  arrived : ∀ call ∈ trace.calls, call.occurrence + 1 ≤ trace.arrivals call.node
  budget : ∀ call ∈ trace.calls, call.attempt + 1 ≤ nodeBudget w call.node
  retried : ∀ pair ∈ trace.calls.zip trace.calls.tail, wronglyRetried pair = false
  waits : ∀ wait ∈ trace.waits, wait.1 ≤ wait.2
  last : ∀ call, trace.calls.getLast? = some call → Matches w walk call

lemma started_le {calls : List TracedCall} {node : String} {n : ℕ}
    (h : ∀ call ∈ calls, call.node = node → call.occurrence + 1 ≤ n) : started calls node ≤ n := by
  have hfoldl : ∀ visits ≤ n, calls.foldl (fun visits call =>
      if call.node = node then max visits ((call.occurrence + 1) % 2 ^ 32) else visits) visits ≤
        n := by
    induction calls with
    | nil => exact fun visits hvisits => hvisits
    | cons call rest ih =>
      intro visits hvisits
      rw [foldl_cons]
      apply ih fun later hlater => h later (mem_cons_of_mem _ hlater)
      split
      · rename_i hnode
        have hcall := h call mem_cons_self hnode
        have hmod := Nat.mod_le (call.occurrence + 1) (2 ^ 32)
        omega
      · exact hvisits
  exact hfoldl 0 (Nat.zero_le n)

section

variable {w : Wiring} {walk : Walk} {trace : WalkTrace} (quoted : Quoted)

variable (h : Clean w walk trace)

include h

lemma walk1_of_clean : walk1HopLimit w walk trace = .ok () := by
  rw [walk1HopLimit, if_neg (not_lt.2 h.hops), if_neg (not_lt.2 h.handed)]
  rfl

lemma walk2_of_clean : walk2NoInvokeAfterDone trace = .ok () := by
  rw [walk2NoInvokeAfterDone, h.quiet]
  rfl

lemma walk3_of_clean : walk3OncePerArrivingToken quoted trace = .ok () := by
  have hnone : (startedNodes trace.calls).find? (fun node =>
      trace.arrivals node < started trace.calls node) = none := by
    rw [find?_eq_none]
    intro node _
    have hstarted : started trace.calls node ≤ trace.arrivals node :=
      started_le fun call hcall hnode => hnode ▸ h.arrived call hcall
    simpa using hstarted
  rw [walk3OncePerArrivingToken, hnone]
  rfl

lemma walk4_of_clean : walk4RetryBudget quoted w trace = .ok () := by
  have hbudget : trace.calls.find? (fun call => nodeBudget w call.node < call.attempt + 1) =
      none := by
    rw [find?_eq_none]
    intro call hcall
    simpa using h.budget call hcall
  have hretried : (trace.calls.zip trace.calls.tail).find? wronglyRetried = none := by
    rw [find?_eq_none]
    intro pair hpair
    rw [h.retried pair hpair]
    exact Bool.false_ne_true
  rw [walk4RetryBudget, hbudget, hretried]
  rfl

lemma walk5_of_clean : walk5WaitNeverInThePast trace = .ok () := by
  have hnone : trace.waits.find? (fun (askedAt, untilMs) => untilMs < askedAt) = none := by
    rw [find?_eq_none]
    intro wait hwait
    simpa using h.waits wait hwait
  rw [walk5WaitNeverInThePast, hnone]
  rfl

lemma walk6_of_clean : walk6TerminalOutcomeMatches quoted w walk trace = .ok () := by
  unfold walk6TerminalOutcomeMatches
  split
  · rfl
  · rename_i last hlast
    split
    · rfl
    · rename_i hterminal
      obtain ⟨huncaught, hcaught⟩ := h.last last hlast (not_not.1 hterminal)
      split
      · rename_i hedges
        obtain ⟨hfailed, detail, hfailure⟩ := huncaught (isEmpty_iff.1 hedges)
        rw [if_pos ⟨hfailed, _, Option.mem_def.2 hfailure, rfl, rfl⟩]
        rfl
      · rename_i hedges
        split
        · rfl
        · rename_i failure hfailure
          have hkind : failure.kind = .hopLimit :=
            hcaught (fun hnil => hedges (isEmpty_iff.2 hnil)) failure hfailure
          rw [if_pos hkind]
          rfl

lemma check_of_clean : check quoted w walk trace = .ok () := by
  rw [check, walk1_of_clean h, walk2_of_clean h, walk3_of_clean quoted h, walk4_of_clean quoted h,
    walk5_of_clean h, walk6_of_clean quoted h]
  rfl

end

end Wamn.Workflow.Router
