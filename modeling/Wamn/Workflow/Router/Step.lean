import Wamn.Workflow.Router.Walk

/-!
# What one step of a walk does

Two relations say what a call of `next` and a call of `apply` can do to a running walk, guards
included; the properties of walks are case analyses over them. The active node and the frontier are
the pending tokens.
-/

namespace Wamn.Workflow.Router

open Option Lib Lib.Json

/-! ## Pending tokens -/

/-- The token that an active node was promoted from. -/
def Active.token (a : Active) : Token := ⟨a.node, a.inputPort, a.payload⟩

namespace Walk

/-- The tokens a walk has not completed: the active one and the frontier. -/
def pending (walk : Walk) : List Token := (walk.current.map Active.token).toList ++ walk.frontier

/-- The walk with a token in the active slot, if there is any. -/
def promoted (walk : Walk) : Walk :=
  match walk.current, walk.frontier with
  | none, token :: rest => { walk with current := some token.activate, frontier := rest }
  | _, _ => walk

section

variable (walk : Walk)

@[simp] lemma pending_promoted : walk.promoted.pending = walk.pending := by
  unfold promoted
  split
  · rename_i hcurrent hfrontier
    simp [pending, hcurrent, hfrontier, Token.activate, Active.token]
  · rfl

lemma promoted_eq : ∃ current frontier,
    walk.promoted = { walk with current := current, frontier := frontier } := by
  unfold promoted
  split
  · exact ⟨_, _, rfl⟩
  · exact ⟨walk.current, walk.frontier, rfl⟩

@[simp] lemma status_promoted : walk.promoted.status = walk.status := by
  obtain ⟨current, frontier, h⟩ := walk.promoted_eq
  rw [h]

@[simp] lemma hops_promoted : walk.promoted.hops = walk.hops := by
  obtain ⟨current, frontier, h⟩ := walk.promoted_eq
  rw [h]

@[simp] lemma visits_promoted : walk.promoted.visits = walk.visits := by
  obtain ⟨current, frontier, h⟩ := walk.promoted_eq
  rw [h]

@[simp] lemma failure_promoted : walk.promoted.failure = walk.failure := by
  obtain ⟨current, frontier, h⟩ := walk.promoted_eq
  rw [h]

@[simp] lemma callerAttached_promoted : walk.promoted.callerAttached = walk.callerAttached := by
  obtain ⟨current, frontier, h⟩ := walk.promoted_eq
  rw [h]

@[simp] lemma verdict_promoted : walk.promoted.verdict = walk.verdict := by
  obtain ⟨current, frontier, h⟩ := walk.promoted_eq
  rw [h]

end

lemma promoted_of_current {walk : Walk} {a : Active} (h : walk.current = some a) :
    walk.promoted = walk := by
  unfold promoted
  rw [h]

lemma promoted_cases {walk : Walk} {a : Active} (h : walk.promoted.current = some a) :
    walk.current = some a ∨ walk.current = none ∧ ∃ token : Token, a = token.activate := by
  unfold promoted at h
  split at h
  · rename_i token rest hcurrent hfrontier
    exact .inr ⟨hcurrent, token, (some_inj.1 h).symm⟩
  · exact .inl h

lemma pending_of_current {walk : Walk} {a : Active} (h : walk.current = some a) :
    walk.pending = a.token :: walk.frontier := by
  simp [pending, h]

lemma pending_eq_nil {walk : Walk} :
    walk.pending = [] ↔ walk.current = none ∧ walk.frontier = [] := by
  rw [pending, List.append_eq_nil_iff, toList_eq_nil_iff, map_eq_none_iff]

end Walk

lemma isTerminal_eq_false {status : WalkStatus} :
    status.isTerminal = false ↔ status = .running := by
  cases status <;> simp [WalkStatus.isTerminal]

lemma expect_eq_ok {α : Type} {value : Option α} {message : String} {a : α} :
    expect value message = .ok a ↔ value = some a := by
  cases value with
  | none =>
    constructor
    · intro h
      cases h
    · intro h
      cases h
  | some b => exact pure_eq_ok.trans some_inj.symm

/-! ## Handing out work -/

/-- What `next` does with a walk at a clock reading. -/
inductive Nexts (w : Wiring) (nowMs : ℕ) (walk : Walk) : Step → Walk → Prop where
  /-- A walk that has ended stays as it is. -/
  | ended (terminal : walk.status.isTerminal = true) : Nexts w nowMs walk (.done walk.status) walk
  /-- Nothing is left to do, and nobody answered the caller. -/
  | unreleased (running : walk.status = .running) (idle : walk.current = none)
      (empty : walk.frontier = []) (silent : walk.verdict = none)
      (caller : walk.callerAttached = true) (detail : ErrorDetail) :
      Nexts w nowMs walk (.done .failed) { walk with
        status := .failed
        failure := some ⟨w.entry, .unreleasedCaller, detail⟩ }
  /-- Nothing is left to do: the recorded verdict stands, or the walk discards. -/
  | settled (running : walk.status = .running) (idle : walk.current = none)
      (empty : walk.frontier = []) (verdict : Verdict)
      (stands : walk.verdict = some verdict ∨
        walk.verdict = none ∧ walk.callerAttached = false ∧ verdict = .discard) :
      Nexts w nowMs walk (.done .completed)
        { walk with status := .completed, verdict := some verdict }
  /-- The next attempt of the active node is not due. -/
  | waiting (a : Active) (running : walk.status = .running)
      (active : walk.promoted.current = some a) (early : nowMs < a.retryUntilMs) :
      Nexts w nowMs walk (.wait a.node a.retryUntilMs a.attempt a.throttle) walk.promoted
  /-- The hop limit is spent. -/
  | spent (a : Active) (running : walk.status = .running) (active : walk.promoted.current = some a)
      (due : a.retryUntilMs ≤ nowMs) (limit : w.hopLimit ≤ walk.hops) (detail : ErrorDetail) :
      Nexts w nowMs walk (.done .failed) { walk.promoted with
        current := none
        status := .failed
        failure := some ⟨a.node, .hopLimit, detail⟩ }
  /-- The active node is to be invoked. -/
  | invoked (a : Active) (node : WiringNode) (running : walk.status = .running)
      (active : walk.promoted.current = some a) (due : a.retryUntilMs ≤ nowMs)
      (limit : walk.hops < w.hopLimit) (found : w.node a.node = some node) :
      Nexts w nowMs walk (.invoke (Wiring.nodeCall walk a node))
        { walk.promoted with hops := walk.promoted.hops + 1 }

namespace Wiring

variable {w : Wiring} {walk walk' : Walk} {nowMs : ℕ} {step : Step}

lemma handOut_spec (running : walk.status = .running)
    (h : w.handOut walk.promoted nowMs = .ok (step, walk')) : Nexts w nowMs walk step walk' := by
  obtain ⟨a, ha, h⟩ := bind_eq_ok.1 h
  have ha : walk.promoted.current = some a := expect_eq_ok.1 ha
  split at h
  · rename_i hearly
    obtain ⟨rfl, rfl⟩ := done_eq_ok.1 h
    exact .waiting a running ha hearly
  · rename_i hdue
    rw [not_lt] at hdue
    split at h
    · rename_i hlimit
      rw [Walk.hops_promoted] at hlimit
      obtain ⟨rfl, rfl⟩ := done_eq_ok.1 h
      exact .spent a running ha hdue hlimit _
    · rename_i hlimit
      rw [Walk.hops_promoted, not_le] at hlimit
      obtain ⟨call, hcall, h⟩ := bind_eq_ok.1 h
      obtain ⟨rfl, rfl⟩ := done_eq_ok.1 h
      obtain ⟨node, hnode, hcall⟩ := bind_eq_ok.1 hcall
      obtain rfl := pure_eq_ok.1 hcall
      have hcall : nodeCall walk.promoted a node = nodeCall walk a node := by
        rw [nodeCall, nodeCall, Walk.visits_promoted]
      rw [hcall]
      exact .invoked a node running ha hdue hlimit (expect_eq_ok.1 hnode)

lemma settle_spec (running : walk.status = .running) (idle : walk.current = none)
    (empty : walk.frontier = []) :
    Nexts w nowMs walk (.done (w.settle walk).1) (w.settle walk).2 := by
  unfold settle
  split
  · rename_i hopen
    rw [Bool.and_eq_true, isNone_iff_eq_none] at hopen
    exact .unreleased running idle empty hopen.1 hopen.2 _
  · rename_i hopen
    apply Nexts.settled running idle empty
    cases hverdict : walk.verdict with
    | some verdict => exact .inl rfl
    | none =>
      rw [hverdict, isNone_none, Bool.true_and, Bool.not_eq_true] at hopen
      exact .inr ⟨rfl, hopen, rfl⟩

lemma next_of_idle (running : walk.status = .running) (empty : walk.pending = []) :
    w.next walk nowMs = .ok (.done (w.settle walk).1, (w.settle walk).2) := by
  obtain ⟨hcurrent, hfrontier⟩ := Walk.pending_eq_nil.1 empty
  rw [next, isTerminal_eq_false.2 running, hcurrent, hfrontier]
  rfl

lemma next_eq_ok (h : w.next walk nowMs = .ok (step, walk')) : Nexts w nowMs walk step walk' := by
  unfold next at h
  split at h
  · rename_i hterminal
    obtain ⟨rfl, rfl⟩ := done_eq_ok.1 h
    exact .ended hterminal
  · rename_i hrunning
    have hrunning : walk.status = .running :=
      isTerminal_eq_false.1 (Bool.eq_false_iff.2 hrunning)
    split at h
    · rename_i a hcurrent
      rw [← Walk.promoted_of_current hcurrent] at h
      exact handOut_spec hrunning h
    · rename_i token rest hcurrent hfrontier
      have hpromoted : walk.promoted =
          { walk with current := some token.activate, frontier := rest } := by
        rw [Walk.promoted, hcurrent, hfrontier]
      rw [← hpromoted] at h
      exact handOut_spec hrunning h
    · rename_i hcurrent hfrontier
      obtain ⟨rfl, rfl⟩ := done_eq_ok.1 h
      exact settle_spec hrunning hcurrent hfrontier

end Wiring

/-! ## Folding outcomes -/

/-- A success records nothing, or the verdict of the terminal. -/
inductive Records (w : Wiring) (walk : Walk) (node : String) (payload : Value) :
    Option Verdict → Prop where
  | nothing (plain : (w.node node).bind WiringNode.terminal = none) :
      Records w walk node payload none
  | verdict (terminal : Terminal) (verdict : Verdict)
      (declared : (w.node node).bind WiringNode.terminal = some terminal)
      (decided : Wiring.terminalVerdict walk node terminal payload = .ok (some verdict)) :
      Records w walk node payload (some verdict)

/-- Why the outcome of an attempt counts as a failure of its node. -/
inductive Fails (lib : Library) (w : Wiring) (walk : Walk) (attempt : ℕ) (call : NodeCall) :
    NodeOutcome → ErrorDetail → FailureKind → Prop where
  /-- The delivery cannot take the verdict. -/
  | refused (payload : Value) (port : String) (terminal : Terminal) (refusal : ApplyError)
      (kind : FailureKind) (code : String)
      (declared : (w.node call.node).bind WiringNode.terminal = some terminal)
      (decided : Wiring.terminalVerdict walk call.node terminal payload = .error refusal)
      (data : refusal.nodeDataFailure = some (kind, code)) :
      Fails lib w walk attempt call (.success payload port) (.coded code (refusal.display lib)) kind
  /-- The event has no id to publish it under. -/
  | unkeyed (payload : Value) (port : String) (terminal : Terminal)
      (declared : (w.node call.node).bind WiringNode.terminal = some terminal)
      (decided : Wiring.terminalVerdict walk call.node terminal payload = .ok none) :
      Fails lib w walk attempt call (.success payload port) unkeyedDetail .missingDedupId
  /-- The attempts are spent. -/
  | exhausted (error : NodeError) (retries : error.retries = true)
      (spent : (RetryPolicy.fromConfig call.config).mayRetry attempt = false) :
      Fails lib w walk attempt call (.error error) error.detail .retryExhausted
  | terminal (detail : ErrorDetail) :
      Fails lib w walk attempt call (.error (.terminal detail)) detail .terminal
  | invalidInput (detail : ErrorDetail) :
      Fails lib w walk attempt call (.error (.invalidInput detail)) detail .invalidInput

/-- What folding the outcome of a call does to a running walk on the node of the call. -/
inductive Applied (lib : Library) (w : Wiring) (walk : Walk) (attempt : ℕ) (call : NodeCall) :
    NodeOutcome → Walk → Prop where
  /-- A success completes the visit. -/
  | completed (payload : Value) (port : String) (verdict : Option Verdict)
      (records : Records w walk call.node payload verdict) :
      Applied lib w walk attempt call (.success payload port)
        (w.completeVisit walk call.node verdict payload port)
  /-- A failure that an error edge catches completes the visit, too. -/
  | rerouted (outcome : NodeOutcome) (detail : ErrorDetail) (kind : FailureKind)
      (fails : Fails lib w walk attempt call outcome detail kind)
      (caught : w.successors call.node errorPort ≠ []) :
      Applied lib w walk attempt call outcome
        (w.routeError walk call.node detail.toErrorPayload)
  /-- A failure that nothing catches ends the walk. -/
  | failed (outcome : NodeOutcome) (detail : ErrorDetail) (kind : FailureKind)
      (fails : Fails lib w walk attempt call outcome detail kind)
      (uncaught : w.successors call.node errorPort = []) :
      Applied lib w walk attempt call outcome { walk with
        current := none
        status := .failed
        failure := some ⟨call.node, kind, detail⟩ }
  /-- The node is to be tried again. -/
  | retried (error : NodeError) (untilMs : ℕ) (throttle : Option ThrottleKey)
      (bounded : untilMs < 2 ^ 64) (retries : error.retries = true)
      (budget : (RetryPolicy.fromConfig call.config).mayRetry attempt = true) :
      Applied lib w walk attempt call (.error error)
        (Wiring.scheduleRetry walk untilMs throttle)
  | cancelled :
      Applied lib w walk attempt call .cancelled
        { walk with current := none, status := .cancelled }

namespace Applied

variable {lib : Library} {w : Wiring} {walk walk' : Walk} {attempt : ℕ} {call : NodeCall}
  {outcome : NodeOutcome}

variable (h : Applied lib w walk attempt call outcome walk')

include h

lemma hops_eq : walk'.hops = walk.hops := by
  cases h <;> rfl

lemma callerAttached_eq : walk'.callerAttached = walk.callerAttached := by
  cases h <;> rfl

/-- A node that is still active after its outcome is to be tried again. -/
theorem retried_of_current {a b : Active} (active : walk.current = some a)
    (hb : walk'.current = some b) :
    ∃ error untilMs throttle, outcome = .error error ∧ error.retries = true ∧
      (RetryPolicy.fromConfig call.config).mayRetry attempt = true ∧ untilMs < 2 ^ 64 ∧
      b = { a with attempt := a.attempt + 1, retryUntilMs := untilMs, throttle := throttle } := by
  cases h with
  | completed | rerouted | failed => cases hb
  | retried error untilMs throttle bounded retries budget =>
    rw [Wiring.scheduleRetry, active] at hb
    exact ⟨error, untilMs, throttle, rfl, retries, budget, bounded, (some_inj.1 hb).symm⟩
  | cancelled => cases hb

end Applied

namespace Wiring

variable {lib : Library} {w : Wiring} {walk walk' : Walk} {nowMs attempt : ℕ} {call : NodeCall}
  {outcome : NodeOutcome}

lemma pending_scheduleRetry (walk : Walk) (untilMs : ℕ) (throttle : Option ThrottleKey) :
    (scheduleRetry walk untilMs throttle).pending = walk.pending := by
  rw [Walk.pending, Walk.pending, scheduleRetry, map_map]
  rfl

lemma errorOrFail_spec {detail : ErrorDetail} {kind : FailureKind}
    (fails : Fails lib w walk attempt call outcome detail kind) :
    Applied lib w walk attempt call outcome (w.errorOrFail walk call.node detail kind) := by
  unfold errorOrFail
  split
  · rename_i huncaught
    exact .failed outcome detail kind fails (List.isEmpty_iff.1 huncaught)
  · rename_i hcaught
    exact .rerouted outcome detail kind fails fun hnil => hcaught (List.isEmpty_iff.2 hnil)

lemma applyError_spec (error : NodeError) :
    Applied lib w walk attempt call (.error error)
      (w.applyError lib walk attempt call error nowMs) := by
  unfold applyError
  split
  · rename_i detail
    dsimp only
    split
    · rename_i hbudget
      exact .retried (.retryable detail) _ _ (Nat.mod_lt _ (by decide)) rfl hbudget
    · rename_i hspent
      exact errorOrFail_spec (.exhausted (.retryable detail) rfl (Bool.eq_false_iff.2 hspent))
  · rename_i limit
    dsimp only
    split
    · rename_i hbudget
      exact .retried (.rateLimited limit) _ _ (Nat.mod_lt _ (by decide)) rfl hbudget
    · rename_i hspent
      exact errorOrFail_spec (.exhausted (.rateLimited limit) rfl (Bool.eq_false_iff.2 hspent))
  · rename_i detail
    exact errorOrFail_spec (.terminal detail)
  · rename_i detail
    exact errorOrFail_spec (.invalidInput detail)

lemma nodeDataFailure_of_terminalVerdict {node : String} {terminal : Terminal} {payload : Value}
    {refusal : ApplyError} (h : terminalVerdict walk node terminal payload = .error refusal) :
    ∃ kind code, refusal.nodeDataFailure = some (kind, code) := by
  unfold terminalVerdict at h
  split at h
  · obtain rfl := Except.error.inj h
    exact ⟨_, _, rfl⟩
  · cases terminal with
    | respond =>
      cases hcaller : walk.callerAttached with
      | true => simp [hcaller, pure, Except.pure] at h
      | false =>
        rw [hcaller] at h
        obtain rfl := Except.error.inj h
        exact ⟨_, _, rfl⟩
    | emit entity operation => cases h

/-- A success of the active node completes or fails the visit, unless the delivery cannot take the
verdict. -/
theorem applySuccess_spec (lib : Library) (w : Wiring) (walk : Walk) (attempt : ℕ)
    (call : NodeCall) (payload : Value) (port : String) :
    (∃ walk', w.applySuccess walk call.node payload port = (pure (), walk') ∧
      Applied lib w walk attempt call (.success payload port) walk') ∨
    ∃ terminal refusal, w.applySuccess walk call.node payload port = (throw refusal, walk) ∧
      (w.node call.node).bind WiringNode.terminal = some terminal ∧
      terminalVerdict walk call.node terminal payload = .error refusal := by
  unfold applySuccess
  cases hterminal : (w.node call.node).bind WiringNode.terminal with
  | none => exact .inl ⟨_, rfl, .completed payload port none (.nothing hterminal)⟩
  | some terminal =>
    cases hverdict : terminalVerdict walk call.node terminal payload with
    | error refusal => exact .inr ⟨terminal, refusal, by simp only [hverdict], rfl, hverdict⟩
    | ok recorded =>
      left
      simp only [hverdict]
      cases recorded with
      | none =>
        exact ⟨_, rfl, errorOrFail_spec (.unkeyed payload port terminal hterminal hverdict)⟩
      | some verdict =>
        exact ⟨_, rfl, .completed payload port _ (.verdict terminal verdict hterminal hverdict)⟩

lemma apply_of_active {active : Active} (running : walk.status = .running)
    (current : walk.current = some active) (node : active.node = call.node) :
    w.apply lib walk call outcome nowMs = match outcome with
      | .success payload port => w.applySuccess walk call.node payload port
      | .error error => (pure (), w.applyError lib walk active.attempt call error nowMs)
      | .cancelled => (pure (), { walk with current := none, status := .cancelled }) := by
  unfold apply
  rw [isTerminal_eq_false.2 running, current]
  cases outcome <;> simp [node]

/-- `apply` refuses and leaves the walk, or folds the outcome into a running walk on the node of the
call. -/
theorem apply_spec (lib : Library) (w : Wiring) (walk : Walk) (call : NodeCall)
    (outcome : NodeOutcome) (nowMs : ℕ) :
    (∃ refusal, w.apply lib walk call outcome nowMs = (throw refusal, walk)) ∨
    ∃ active walk', w.apply lib walk call outcome nowMs = (pure (), walk') ∧
      walk.status = .running ∧ walk.current = some active ∧ active.node = call.node ∧
      Applied lib w walk active.attempt call outcome walk' := by
  by_cases hrunning : walk.status = .running
  · cases hcurrent : walk.current with
    | none =>
      refine .inl ⟨.noActiveNode, ?_⟩
      rw [apply, isTerminal_eq_false.2 hrunning, hcurrent]
      rfl
    | some active =>
      by_cases hnode : active.node = call.node
      · rw [apply_of_active hrunning hcurrent hnode]
        cases outcome with
        | success payload port =>
          rcases applySuccess_spec lib w walk active.attempt call payload port with
            ⟨walk', heq, happlied⟩ | ⟨terminal, refusal, heq, -⟩
          · exact .inr ⟨active, walk', heq, hrunning, rfl, hnode, happlied⟩
          · exact .inl ⟨refusal, heq⟩
        | error error =>
          exact .inr ⟨active, _, rfl, hrunning, rfl, hnode, applyError_spec error⟩
        | cancelled => exact .inr ⟨active, _, rfl, hrunning, rfl, hnode, .cancelled⟩
      · refine .inl ⟨.mismatchedNode active.node call.node, ?_⟩
        rw [apply, isTerminal_eq_false.2 hrunning, hcurrent]
        simp [hnode]
  · refine .inl ⟨.terminal walk.status, ?_⟩
    have hterminal : walk.status.isTerminal = true :=
      Bool.not_eq_false _ ▸ fun h => hrunning (isTerminal_eq_false.1 h)
    rw [apply, if_pos hterminal]

/-- An outcome for the node that a running walk is on is never refused: what `apply` refuses, data
caused. -/
theorem answer_spec (lib : Library) (w : Wiring) (outcome : NodeOutcome) (nowMs : ℕ)
    {active : Active} (running : walk.status = .running)
    (current : walk.current = some active) (node : active.node = call.node) :
    ∃ walk', w.answer lib walk call outcome nowMs = (pure (), walk') ∧
      Applied lib w walk active.attempt call outcome walk' := by
  unfold answer
  rw [apply_of_active running current node]
  cases outcome with
  | success payload port =>
    rcases applySuccess_spec lib w walk active.attempt call payload port with
      ⟨walk', heq, happlied⟩ | ⟨terminal, refusal, heq, hdeclared, hrefused⟩
    · simp only [heq]
      exact ⟨walk', rfl, happlied⟩
    · obtain ⟨kind, code, hdata⟩ := nodeDataFailure_of_terminalVerdict hrefused
      have hfails : Fails lib w walk active.attempt call (.success payload port) _ kind :=
        .refused payload port terminal refusal kind code hdeclared hrefused hdata
      refine ⟨_, ?_, errorOrFail_spec hfails⟩
      simp only [heq]
      show failOnNodeData lib w walk call.node refusal = _
      rw [failOnNodeData, hdata]
  | error error => exact ⟨_, rfl, applyError_spec error⟩
  | cancelled => exact ⟨_, rfl, .cancelled⟩

end Wiring

end Wamn.Workflow.Router
