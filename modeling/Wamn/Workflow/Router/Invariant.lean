import Wamn.Lib.Transition
import Wamn.Workflow.Router.Step

/-!
# Walks under any host

A host may call the operations of a walk in any order. Every operation keeps `Walk.Valid`, with one
exception: `failOnNodeData` does not look at the status, so that folding an old refusal into a
completed walk, at a node with an error edge, puts tokens on the frontier of a walk that nobody will
run again.
-/

namespace Wamn.Workflow.Router

open List Lib Lib.Json

/-! ## Operations and valid walks -/

inductive Operation where
  | next (nowMs : ℕ)
  | apply (call : NodeCall) (outcome : NodeOutcome) (nowMs : ℕ)
  | failOnNodeData (node : String) (error : ApplyError)

/-- The walk after a call. Where `next` panics there is no walk to go on with. -/
def Wiring.operate (lib : Library) (w : Wiring) (walk : Walk) : Operation → Walk
  | .next nowMs =>
    match w.next walk nowMs with
    | .ok (_, walk') => walk'
    | .error _ => walk
  | .apply call outcome nowMs => (w.apply lib walk call outcome nowMs).2
  | .failOnNodeData node error => (w.failOnNodeData lib walk node error).2

lemma Wiring.operate_next (lib : Library) (w : Wiring) (walk : Walk) (nowMs : ℕ) :
    w.operate lib walk (.next nowMs) = walk ∨
      ∃ step, Nexts w nowMs walk step (w.operate lib walk (.next nowMs)) := by
  cases h : w.next walk nowMs with
  | error message => exact .inl (by rw [operate, h])
  | ok result =>
    right
    refine ⟨result.1, ?_⟩
    rw [operate, h]
    exact next_eq_ok h

/-- What holds of a walk whatever the host did. -/
structure Walk.Valid (w : Wiring) (walk : Walk) : Prop where
  /-- The active node and every token of the frontier name nodes of the wiring. -/
  resolves : ∀ token ∈ walk.pending, (w.node token.node).isSome = true
  /-- A completed walk has nothing left to do, a verdict and no failure. -/
  completed : walk.status = .completed →
    walk.frontier = [] ∧ walk.current = none ∧ walk.verdict.isSome = true ∧ walk.failure = none
  /-- The failed walks are those with a failure. -/
  failed : walk.status = .failed ↔ walk.failure.isSome = true
  /-- A cancelled walk has no failure. -/
  cancelled : walk.status = .cancelled → walk.failure = none

/-- Folding a refusal that data caused into a completed walk, at a node with an error edge. -/
def Operation.Reopens (w : Wiring) (walk : Walk) : Operation → Prop
  | .next _ | .apply _ _ _ => False
  | .failOnNodeData node error =>
    walk.status = .completed ∧ error.nodeDataFailure ≠ none ∧ w.successors node errorPort ≠ []

namespace Walk.Valid

variable {w : Wiring} {walk : Walk}

lemma of_running (running : walk.status = .running)
    (resolves : ∀ token ∈ walk.pending, (w.node token.node).isSome = true)
    (sound : walk.failure = none) : walk.Valid w where
  resolves := resolves
  completed := by simp [running]
  failed := by simp [running, sound]
  cancelled := by simp [running]

lemma of_failed (failed : walk.status = .failed)
    (resolves : ∀ token ∈ walk.pending, (w.node token.node).isSome = true)
    (reason : walk.failure.isSome = true) : walk.Valid w where
  resolves := resolves
  completed := by simp [failed]
  failed := by simp [failed, reason]
  cancelled := by simp [failed]

variable {walk' : Walk} (h : walk.Valid w)

include h

lemma failure_eq_none (alive : walk.status ≠ .failed) : walk.failure = none := by
  rw [← Option.not_isSome_iff_eq_none]
  exact fun hsome => alive (h.failed.2 hsome)

lemma frontier : ∀ token ∈ walk.frontier, (w.node token.node).isSome = true := by
  intro token htoken
  apply h.resolves
  exact mem_append_right _ htoken

lemma resolves_frontier (idle : walk'.current = none) (same : walk'.frontier = walk.frontier) :
    ∀ token ∈ walk'.pending, (w.node token.node).isSome = true := by
  rw [pending, idle, same]
  exact h.frontier

lemma resolves_emission {node port : String} {payload : Value} (idle : walk'.current = none)
    (grown : walk'.frontier = walk.frontier ++ w.tokens node port payload) :
    ∀ token ∈ walk'.pending, (w.node token.node).isSome = true := by
  rw [pending, idle, grown, Option.map_none, Option.toList_none, nil_append]
  intro token htoken
  rcases mem_append.1 htoken with htoken | htoken
  · exact h.frontier token htoken
  · obtain ⟨edge, hedge, rfl⟩ := mem_map.1 htoken
    exact Wiring.isSome_node_of_mem_successors hedge

end Walk.Valid

namespace Wiring

variable {lib : Library} {w : Wiring} {walk walk' : Walk}

lemma valid_start (w : Wiring) (delivery : Delivery) : (w.start delivery).Valid w := by
  apply Walk.Valid.of_running
  · rfl
  · intro token htoken
    obtain rfl : token = ⟨w.entry, none, delivery.payload⟩ := by
      simpa [Walk.pending, start] using htoken
    exact w.entry_mem
  · rfl

/-! ## What each operation keeps -/

lemma valid_next {nowMs : ℕ} {step : Step} (h : Nexts w nowMs walk step walk')
    (valid : walk.Valid w) : walk'.Valid w := by
  have hpromoted : ∀ token ∈ walk.promoted.pending, (w.node token.node).isSome = true := by
    rw [Walk.pending_promoted]
    exact valid.resolves
  -- A walk that waits or invokes goes on from its promoted state.
  have hgoesOn : ∀ walk' : Walk, walk.status = .running → walk'.status = walk.promoted.status →
      walk'.pending = walk.promoted.pending → walk'.failure = walk.promoted.failure →
        walk'.Valid w := by
    intro walk' running hstatus hpending hfailure
    apply Walk.Valid.of_running
    · rw [hstatus, Walk.status_promoted, running]
    · rw [hpending]
      exact hpromoted
    · rw [hfailure, Walk.failure_promoted]
      exact valid.failure_eq_none (by simp [running])
  cases h with
  | ended => exact valid
  | unreleased _ idle => exact .of_failed rfl (valid.resolves_frontier idle rfl) rfl
  | settled running idle empty verdict =>
    have hfailure : walk.failure = none := valid.failure_eq_none (by simp [running])
    exact {
      resolves := valid.resolves_frontier idle rfl
      completed := fun _ => ⟨empty, idle, rfl, hfailure⟩
      failed := by simp [hfailure]
      cancelled := fun _ => hfailure }
  | waiting a running => exact hgoesOn _ running rfl rfl rfl
  | spent a =>
    apply Walk.Valid.of_failed
    · rfl
    · intro token htoken
      exact hpromoted token (mem_append_right _ htoken)
    · rfl
  | invoked a node running => exact hgoesOn _ running rfl rfl rfl

lemma valid_applied {attempt : ℕ} {call : NodeCall} {outcome : NodeOutcome}
    (h : Applied lib w walk attempt call outcome walk') (running : walk.status = .running)
    (valid : walk.Valid w) : walk'.Valid w := by
  have hfailure : walk.failure = none := valid.failure_eq_none (by simp [running])
  cases h with
  | completed | rerouted => exact .of_running running (valid.resolves_emission rfl rfl) hfailure
  | failed => exact .of_failed rfl (valid.resolves_frontier rfl rfl) rfl
  | retried error untilMs throttle =>
    have hresolves := valid.resolves
    rw [← pending_scheduleRetry walk untilMs throttle] at hresolves
    exact .of_running running hresolves hfailure
  | cancelled => exact {
      resolves := valid.resolves_frontier rfl rfl
      completed := by simp
      failed := by simp [hfailure]
      cancelled := fun _ => hfailure }

/-- The active node of a walk is handed out, and its outcome folded in. -/
structure Invokes (lib : Library) (w : Wiring) (walk : Walk) (nowMs : ℕ) (a : Active)
    (node : WiringNode) (outcome : NodeOutcome) (walk' : Walk) : Prop where
  running : walk.status = .running
  active : walk.promoted.current = some a
  due : a.retryUntilMs ≤ nowMs
  limit : walk.hops < w.hopLimit
  found : w.node a.node = some node
  applied : Applied lib w { walk.promoted with hops := walk.promoted.hops + 1 } a.attempt
    (nodeCall walk a node) outcome walk'

lemma Invokes.valid {a : Active} {node : WiringNode} {nowMs : ℕ} {outcome : NodeOutcome}
    (h : Invokes lib w walk nowMs a node outcome walk') (valid : walk.Valid w) :
    walk'.Valid w := by
  apply valid_applied h.applied
  · exact walk.status_promoted.trans h.running
  · exact valid_next (.invoked a node h.running h.active h.due h.limit h.found) valid

lemma not_completed_applied {walk' : Walk} {attempt : ℕ} {call : NodeCall}
    {outcome : NodeOutcome} (h : Applied lib w walk attempt call outcome walk')
    (running : walk.status = .running) : walk'.status ≠ .completed := by
  intro completed
  have hrunning : walk.status ≠ .completed := by simp [running]
  cases h with
  | completed | rerouted => exact hrunning completed
  | failed => cases completed
  | retried => exact hrunning completed
  | cancelled => cases completed

lemma valid_errorOrFail_iff (valid : walk.Valid w) (node : String) (detail : ErrorDetail)
    (kind : FailureKind) :
    (w.errorOrFail walk node detail kind).Valid w ↔
      ¬ (walk.status = .completed ∧ w.successors node errorPort ≠ []) := by
  by_cases hedge : w.successors node errorPort = []
  · have hfailed : (w.errorOrFail walk node detail kind).Valid w := by
      rw [errorOrFail, hedge]
      exact .of_failed rfl (valid.resolves_frontier rfl rfl) rfl
    simp [hfailed, hedge]
  · have hrouted : w.errorOrFail walk node detail kind =
        w.routeError walk node detail.toErrorPayload := by
      rw [errorOrFail, if_neg (by simpa using hedge)]
      rfl
    have hstatus : (w.routeError walk node detail.toErrorPayload).status = walk.status := rfl
    rw [hrouted]
    constructor
    · -- The edge puts a token on the frontier, and the status is what it was.
      rintro hvalid ⟨hcompleted, -⟩
      obtain ⟨hfrontier, -⟩ := hvalid.completed (hstatus.trans hcompleted)
      have htokens : w.tokens node errorPort detail.toErrorPayload = [] :=
        (append_eq_nil_iff.1 hfrontier).2
      exact hedge (map_eq_nil_iff.1 htokens)
    · intro hopen
      exact {
        resolves := valid.resolves_emission rfl rfl
        completed := fun hcompleted => absurd ⟨hcompleted, hedge⟩ hopen
        failed := valid.failed
        cancelled := valid.cancelled }

lemma valid_failOnNodeData_iff (valid : walk.Valid w) (node : String) (error : ApplyError) :
    (w.failOnNodeData lib walk node error).2.Valid w ↔
      ¬ (Operation.failOnNodeData node error).Reopens w walk := by
  unfold failOnNodeData Operation.Reopens
  cases hdata : error.nodeDataFailure with
  | none => simp [valid, hdata]
  | some data =>
    rw [valid_errorOrFail_iff valid]
    simp [hdata]

lemma next_isOk (valid : walk.Valid w) (nowMs : ℕ) :
    ∃ result, w.next walk nowMs = .ok result := by
  have hhandOut : ∀ walk' : Walk, ∀ a, walk'.current = some a → a.token ∈ walk.pending →
      ∃ result, w.handOut walk' nowMs = .ok result := by
    intro walk' a ha hmem
    obtain ⟨node, hnode⟩ := Option.isSome_iff_exists.1 (valid.resolves a.token hmem)
    have hcall : w.buildCall walk' a = .ok (nodeCall walk' a node) :=
      bind_eq_ok.2 ⟨node, expect_eq_ok.2 hnode, rfl⟩
    rw [handOut, ha]
    show ∃ result, (if nowMs < a.retryUntilMs then _ else _ : Except Panic _) = .ok result
    rw [hcall]
    split
    · exact ⟨_, rfl⟩
    · split
      · exact ⟨_, rfl⟩
      · exact ⟨_, rfl⟩
  unfold next
  split
  · exact ⟨_, rfl⟩
  · split
    · rename_i a hcurrent
      apply hhandOut walk a hcurrent
      rw [Walk.pending_of_current hcurrent]
      exact mem_cons_self
    · rename_i token rest hcurrent hfrontier
      apply hhandOut _ token.activate rfl
      rw [Walk.pending, hcurrent, hfrontier]
      exact mem_cons_self
    · exact ⟨_, rfl⟩

/-- One operation keeps a valid walk valid exactly if it does not reopen it. -/
theorem valid_operate_iff (valid : walk.Valid w) (operation : Operation) :
    (w.operate lib walk operation).Valid w ↔ ¬ operation.Reopens w walk := by
  cases operation with
  | next nowMs =>
    obtain ⟨⟨step, walk'⟩, hnext⟩ := next_isOk valid nowMs
    have hvalid : walk'.Valid w := valid_next (next_eq_ok hnext) valid
    simpa [operate, hnext, Operation.Reopens] using hvalid
  | apply call outcome nowMs =>
    rcases apply_spec lib w walk call outcome nowMs with
      ⟨refusal, heq⟩ | ⟨active, walk', heq, hrunning, -, -, happlied⟩
    · simpa [operate, heq, Operation.Reopens] using valid
    · have hvalid : walk'.Valid w := valid_applied happlied hrunning valid
      simpa [operate, heq, Operation.Reopens] using hvalid
  | failOnNodeData node error => exact valid_failOnNodeData_iff valid node error

/-! ## Whole runs -/

lemma apply_of_terminal (terminal : walk.status.isTerminal = true) (call : NodeCall)
    (outcome : NodeOutcome) (nowMs : ℕ) :
    w.apply lib walk call outcome nowMs = (throw (.terminal walk.status), walk) := by
  rw [apply, if_pos terminal]

lemma next_of_terminal (terminal : walk.status.isTerminal = true) (nowMs : ℕ) :
    w.next walk nowMs = .ok (.done walk.status, walk) := by
  rw [next, if_pos terminal]
  rfl

/-- Whatever a host does short of reopening a completed walk, the walk is valid, `next` does not
panic, and neither `next` nor `apply` changes a walk that has ended. The first step that breaks
validity reopens. -/
theorem valid_of_steps (lib : Library) (w : Wiring) (delivery : Delivery) (walk : Walk)
    (h : Steps (w.operate lib) (fun walk operation => ¬ operation.Reopens w walk)
      (w.start delivery) walk) :
    walk.Valid w ∧ (∀ nowMs, ∃ result, w.next walk nowMs = .ok result) ∧
      (walk.status.isTerminal = true → ∀ nowMs call outcome,
        w.operate lib walk (.next nowMs) = walk ∧
        w.operate lib walk (.apply call outcome nowMs) = walk) ∧
      ∀ operation, (w.operate lib walk operation).Valid w ↔ ¬ operation.Reopens w walk := by
  have hvalid : walk.Valid w := by
    apply h.invariant _ (w.valid_start delivery)
    intro before operation hbefore hcloses
    exact (valid_operate_iff hbefore operation).2 hcloses
  refine ⟨hvalid, next_isOk hvalid, ?_, valid_operate_iff hvalid⟩
  intro terminal nowMs call outcome
  constructor
  · rw [operate, next_of_terminal terminal]
  · rw [operate, apply_of_terminal terminal]

end Wiring

/-! ## A walk that is reopened -/

namespace Sample

/-- A node that answers the caller, with an error edge to a node that reports. -/
def answerOrReport : Except WiringError Wiring :=
  Wiring.compile "answer"
    [⟨"answer", "c", "run", .null, none, some .respond⟩, ⟨"report", "c", "run", .null, none, none⟩]
    [⟨"answer", errorPort, "report", "in", none⟩]

/-- The call of a node of `answerOrReport`. -/
def callOf (node : String) : NodeCall :=
  ⟨node, none, "c", "run", .null, none, none, .null, 0, 0, none⟩

/-- A host that is refused the answer asks the node again, and the walk goes on to `report`. -/
def askAgain : List Operation :=
  [.next 0, .apply (callOf "answer") (.success .null mainPort) 0,
    .apply (callOf "answer") (.error (.terminal (.coded "down" "no answer"))) 0,
    .next 0, .apply (callOf "report") (.success .null mainPort) 0, .next 0]

/-- The states of `askAgain` are valid. -/
theorem valid_askAgain : ∃ w, answerOrReport = .ok w ∧
    (askAgain.foldl (w.operate ⟨id, fun _ _ _ => none⟩) (w.start ⟨"d", .null, false⟩)).Valid w := by
  refine ⟨_, rfl, (Wiring.valid_of_steps _ _ _ _ (Steps.foldl _ _ ?_)).1⟩
  intro walk operation hmem
  simp only [askAgain, mem_cons, not_mem_nil, or_false] at hmem
  rcases hmem with rfl | rfl | rfl | rfl | rfl | rfl <;> exact id

/-- Folding the refusal of the first answer only now leaves a completed walk with a token. -/
theorem fold_reopens_askAgain : ∃ w refusal, answerOrReport = .ok w ∧
    (w.apply ⟨id, fun _ _ _ => none⟩
      (w.operate ⟨id, fun _ _ _ => none⟩ (w.start ⟨"d", .null, false⟩) (.next 0))
      (callOf "answer") (.success .null mainPort) 0).1 = .error refusal ∧
    let walk := (askAgain ++ [Operation.failOnNodeData "answer" refusal]).foldl
      (w.operate ⟨id, fun _ _ _ => none⟩) (w.start ⟨"d", .null, false⟩)
    walk.status = .completed ∧ walk.frontier ≠ [] := by
  refine ⟨_, .respondWithoutCaller "answer", rfl, rfl, ?_, ?_⟩
  · decide
  · decide

end Sample

end Wamn.Workflow.Router
