import Wamn.Workflow.Router.Invariant

/-!
# The verdict of a delivery

A terminal node records the verdict of a delivery with its success, and a walk that runs out of work
without one discards, unless a caller waits. What is recorded first stands. But an emitted event
counts as a verdict too, so a walk can complete without a word to the caller who waits.
-/

namespace Wamn.Workflow.Router

open Option List Lib Lib.Json

def Wiring.Declares (w : Wiring) (node : String) (terminal : Terminal) : Prop :=
  (w.node node).bind WiringNode.terminal = some terminal

/-- The id that an event is to be published under. -/
def HasDedupId (event : Value) (dedupId : String) : Prop :=
  event.get dedupIdField = some (.string dedupId) ∧ dedupId ≠ ""

/-- Which verdict an operation records in a walk that has none. -/
inductive Operation.Concludes (w : Wiring) (delivery : Delivery) (walk : Walk) :
    Operation → Verdict → Prop where
  /-- A node that answers succeeds, and a caller is attached. -/
  | respond (call : NodeCall) (payload : Value) (port : String) (nowMs : ℕ)
      (caller : delivery.callerAttached = true) (declared : w.Declares call.node .respond) :
      Concludes w delivery walk (.apply call (.success payload port) nowMs)
        (.respond payload call.node)
  /-- A node that emits succeeds with an event that has an id. -/
  | emit (call : NodeCall) (event : Value) (port : String) (nowMs : ℕ) (dedupId entity : String)
      (operation : Events.Op) (keyed : HasDedupId event dedupId)
      (declared : w.Declares call.node (.emit entity operation)) :
      Concludes w delivery walk (.apply call (.success event port) nowMs)
        (.emit event dedupId entity operation call.node)
  /-- Nothing is left to do, and nobody waits. -/
  | discard (nowMs : ℕ) (nobody : delivery.callerAttached = false) (done : walk.pending = []) :
      Concludes w delivery walk (.next nowMs) .discard

namespace Wiring

variable {lib : Library} {w : Wiring} {walk : Walk}

/-! ## One operation -/

variable {node : String} {verdict : Verdict} {delivery : Delivery} {walk' : Walk} {nowMs : ℕ}
  {step : Step} {operation : Operation} {operations : List Operation}

lemma verdict_eq_none_of_terminalVerdict {terminal : Terminal} {payload : Value}
    {recorded : Option Verdict} (h : terminalVerdict walk node terminal payload = .ok recorded) :
    walk.verdict = none := by
  unfold terminalVerdict at h
  split at h
  · cases h
  · rename_i hnone
    exact not_isSome_iff_eq_none.1 hnone

lemma respond_of_terminalVerdict {payload : Value}
    (h : terminalVerdict walk node .respond payload = .ok (some verdict)) :
    walk.callerAttached = true ∧ verdict = .respond payload node := by
  unfold terminalVerdict at h
  split at h
  · cases h
  · cases hcaller : walk.callerAttached with
    | false => simp [hcaller, throw, throwThe, MonadExceptOf.throw] at h
    | true =>
      rw [hcaller, if_pos rfl] at h
      exact ⟨rfl, (some_inj.1 (pure_eq_ok.1 h)).symm⟩

/-- A node that emits decides on its event exactly if that has an id. -/
theorem terminalVerdict_emit_eq_some {entity : String} {operation : Events.Op} {event : Value} :
    terminalVerdict walk node (.emit entity operation) event = .ok (some verdict) ↔
      walk.verdict = none ∧ ∃ dedupId, HasDedupId event dedupId ∧
        verdict = .emit event dedupId entity operation node := by
  cases hverdict : walk.verdict with
  | some first => simp [terminalVerdict, hverdict, throw, throwThe, MonadExceptOf.throw]
  | none =>
    rw [terminalVerdict, hverdict, isSome_none, if_neg Bool.false_ne_true, pure_eq_ok,
      map_eq_some_iff]
    constructor
    · rintro ⟨dedupId, hid, rfl⟩
      obtain ⟨hid, hne⟩ := filter_eq_some_iff.1 hid
      obtain ⟨member, hmember, hid⟩ := bind_eq_some_iff.1 hid
      rw [Value.asString_eq_some.1 hid] at hmember
      exact ⟨rfl, dedupId, ⟨hmember, of_decide_eq_true hne⟩, rfl⟩
    · rintro ⟨-, dedupId, ⟨hmember, hne⟩, rfl⟩
      refine ⟨dedupId, filter_eq_some_iff.2 ⟨?_, decide_eq_true hne⟩, rfl⟩
      rw [hmember]
      rfl

/-- `next` keeps the verdict, or discards for want of one. -/
theorem verdict_next (h : Nexts w nowMs walk step walk')
    (same : walk.callerAttached = delivery.callerAttached) :
    walk'.verdict = walk.verdict ∨ walk.verdict = none ∧ ∃ verdict,
      walk'.verdict = some verdict ∧ (Operation.next nowMs).Concludes w delivery walk verdict := by
  cases h with
  | ended | unreleased => exact .inl rfl
  | settled running idle empty verdict stands =>
    rcases stands with stands | ⟨silent, nobody, rfl⟩
    · exact .inl stands.symm
    · refine .inr ⟨silent, .discard, rfl, .discard nowMs (same ▸ nobody) ?_⟩
      rw [Walk.pending, idle, empty]
      rfl
  | waiting | spent | invoked => exact .inl walk.verdict_promoted

/-- Folding an outcome keeps the verdict, or records that of a terminal node for want of one. -/
theorem verdict_applied {attempt : ℕ} {call : NodeCall} {outcome : NodeOutcome}
    (h : Applied lib w walk attempt call outcome walk')
    (same : walk.callerAttached = delivery.callerAttached) (nowMs : ℕ) :
    walk'.verdict = walk.verdict ∨ walk.verdict = none ∧ ∃ verdict,
      walk'.verdict = some verdict ∧
      (Operation.apply call outcome nowMs).Concludes w delivery walk verdict := by
  cases h with
  | completed payload port recorded records =>
    cases records with
    | nothing => exact .inl rfl
    | verdict terminal verdict declared decided =>
      refine .inr ⟨verdict_eq_none_of_terminalVerdict decided, verdict, rfl, ?_⟩
      cases terminal with
      | respond =>
        obtain ⟨hcaller, rfl⟩ := respond_of_terminalVerdict decided
        exact .respond call payload port nowMs (same ▸ hcaller) declared
      | emit entity operation =>
        obtain ⟨-, dedupId, hkeyed, rfl⟩ := terminalVerdict_emit_eq_some.1 decided
        exact .emit call payload port nowMs dedupId entity operation hkeyed declared
  | rerouted | failed | retried | cancelled => exact .inl rfl

lemma errorOrFail_frame (w : Wiring) (walk : Walk) (node : String) (detail : ErrorDetail)
    (kind : FailureKind) :
    (w.errorOrFail walk node detail kind).verdict = walk.verdict ∧
      (w.errorOrFail walk node detail kind).callerAttached = walk.callerAttached := by
  unfold errorOrFail
  split
  · exact ⟨rfl, rfl⟩
  · exact ⟨rfl, rfl⟩

lemma failOnNodeData_frame (lib : Library) (w : Wiring) (walk : Walk) (node : String)
    (error : ApplyError) :
    (w.failOnNodeData lib walk node error).2.verdict = walk.verdict ∧
      (w.failOnNodeData lib walk node error).2.callerAttached = walk.callerAttached := by
  unfold failOnNodeData
  split
  · exact ⟨rfl, rfl⟩
  · exact w.errorOrFail_frame walk node _ _

lemma callerAttached_next (h : Nexts w nowMs walk step walk') :
    walk'.callerAttached = walk.callerAttached := by
  cases h with
  | ended | unreleased | settled => rfl
  | waiting | spent | invoked => exact walk.callerAttached_promoted

lemma callerAttached_operate (walk : Walk) (operation : Operation) :
    (w.operate lib walk operation).callerAttached = walk.callerAttached := by
  cases operation with
  | next nowMs =>
    rcases w.operate_next lib walk nowMs with hsame | ⟨step, hnexts⟩
    · rw [hsame]
    · exact callerAttached_next hnexts
  | apply call outcome nowMs =>
    rcases apply_spec lib w walk call outcome nowMs with
      ⟨refusal, heq⟩ | ⟨active, walk', heq, -, -, -, happlied⟩
    · rw [operate, heq]
    · rw [operate, heq]
      exact happlied.callerAttached_eq
  | failOnNodeData node error => exact (failOnNodeData_frame lib w walk node error).2

/-- One operation keeps the verdict, or records one for want of any. -/
theorem verdict_operate (lib : Library) (w : Wiring) (delivery : Delivery)
    (same : walk.callerAttached = delivery.callerAttached) (operation : Operation) :
    (w.operate lib walk operation).verdict = walk.verdict ∨ walk.verdict = none ∧ ∃ verdict,
      (w.operate lib walk operation).verdict = some verdict ∧
      operation.Concludes w delivery walk verdict := by
  cases operation with
  | next nowMs =>
    rcases w.operate_next lib walk nowMs with hsame | ⟨step, hnexts⟩
    · rw [hsame]
      exact .inl rfl
    · exact verdict_next hnexts same
  | apply call outcome nowMs =>
    rcases apply_spec lib w walk call outcome nowMs with
      ⟨refusal, heq⟩ | ⟨active, walk', heq, -, -, -, happlied⟩
    · rw [operate, heq]
      exact .inl rfl
    · rw [operate, heq]
      exact verdict_applied happlied same nowMs
  | failOnNodeData node error => exact .inl (failOnNodeData_frame lib w walk node error).1

/-! ## Whole runs -/

section

variable (lib : Library) (w : Wiring) (delivery : Delivery) (operations : List Operation)

/-- The walk of a delivery after a sequence of calls. -/
def run : Walk :=
  operations.foldl (w.operate lib) (w.start delivery)

lemma callerAttached_run :
    (w.run lib delivery operations).callerAttached = delivery.callerAttached := by
  have hfoldl : ∀ walk : Walk,
      (operations.foldl (w.operate lib) walk).callerAttached = walk.callerAttached := by
    induction operations with
    | nil => exact fun _ => rfl
    | cons operation rest ih =>
      intro walk
      rw [foldl_cons, ih, callerAttached_operate]
  exact hfoldl (w.start delivery)

end

lemma verdict_foldl (h : walk.verdict = some verdict) (operations : List Operation) :
    (operations.foldl (w.operate lib) walk).verdict = some verdict := by
  induction operations generalizing walk with
  | nil => exact h
  | cons operation rest ih =>
    rw [foldl_cons]
    apply ih
    rcases verdict_operate lib w ⟨walk.deliveryId, .null, walk.callerAttached⟩ rfl operation with
      hsame | ⟨hnone, -⟩
    · rw [hsame, h]
    · rw [hnone] at h
      cases h

/-- A verdict that a run ends with was recorded by one of its calls. -/
theorem exists_concludes (lib : Library) (w : Wiring) (delivery : Delivery)
    (operations : List Operation) (h : (w.run lib delivery operations).verdict = some verdict) :
    ∃ before operation after, operations = before ++ operation :: after ∧
      (w.run lib delivery before).verdict = none ∧
      (w.operate lib (w.run lib delivery before) operation).verdict = some verdict ∧
      operation.Concludes w delivery (w.run lib delivery before) verdict := by
  have hstart : ¬ (w.start delivery).verdict = some verdict := by simp [start]
  obtain ⟨before, operation, after, hsplit, hbefore, hafter⟩ :=
    exists_step_of_foldl (P := fun walk : Walk => walk.verdict = some verdict) hstart h
  refine ⟨before, operation, after, hsplit, ?_⟩
  have hcaller := w.callerAttached_run lib delivery before
  rcases verdict_operate lib w delivery hcaller operation with
    hsame | ⟨hnone, verdict', hset, hconcludes⟩
  · exact absurd (hsame.symm.trans hafter) hbefore
  · obtain rfl : verdict' = verdict := some_inj.1 (hset.symm.trans hafter)
    exact ⟨hnone, hset, hconcludes⟩

/-- The first verdict stands. It is recorded by a success of a terminal node that fits the delivery,
or when a walk that nobody waits for has nothing left to do; a refused outcome leaves the walk as it
was. -/
theorem verdict_stands (lib : Library) (w : Wiring) (delivery : Delivery)
    (operations : List Operation) :
    (∀ verdict later, (w.run lib delivery operations).verdict = some verdict →
      (w.run lib delivery (operations ++ later)).verdict = some verdict) ∧
    (∀ verdict, (w.run lib delivery operations).verdict = some verdict →
      ∃ before operation after, operations = before ++ operation :: after ∧
        (w.run lib delivery before).verdict = none ∧
        (w.operate lib (w.run lib delivery before) operation).verdict = some verdict ∧
        operation.Concludes w delivery (w.run lib delivery before) verdict) ∧
    ∀ call outcome nowMs refusal walk',
      w.apply lib (w.run lib delivery operations) call outcome nowMs = (.error refusal, walk') →
      walk' = w.run lib delivery operations := by
  refine ⟨?_, fun verdict => w.exists_concludes lib delivery operations, ?_⟩
  · intro verdict later h
    rw [run, foldl_append]
    exact verdict_foldl h later
  · intro call outcome nowMs refusal walk' h
    rcases apply_spec lib w (w.run lib delivery operations) call outcome nowMs with
      ⟨refusal', heq⟩ | ⟨active, walk'', heq, -⟩
    · exact (Prod.mk.inj (heq.symm.trans h)).2.symm
    · cases (Prod.mk.inj (heq.symm.trans h)).1

/-! ## Callers that wait -/

/-- The active node emits an event with an id while a caller waits and nothing is recorded. -/
def EmitsFirst (w : Wiring) (walk : Walk) : Operation → Prop
  | .apply call (.success event _) _ =>
    walk.status = .running ∧ walk.verdict = none ∧ walk.callerAttached = true ∧
      (∃ active, walk.current = some active ∧ active.node = call.node) ∧
      (∃ entity operation, w.Declares call.node (.emit entity operation)) ∧
      ∃ dedupId, HasDedupId event dedupId
  | _ => False

/-- No call of a run has a node emit first while a caller waits. -/
def Quiet (lib : Library) (w : Wiring) (delivery : Delivery) (operations : List Operation) : Prop :=
  ∀ before operation after, operations = before ++ operation :: after →
    ¬ w.EmitsFirst (w.run lib delivery before) operation

lemma emit_of_emitsFirst (lib : Library) (h : w.EmitsFirst walk operation) :
    ∃ event dedupId entity op node,
      (w.operate lib walk operation).verdict = some (.emit event dedupId entity op node) := by
  unfold EmitsFirst at h
  split at h
  · rename_i call event port nowMs
    obtain ⟨hrunning, hnone, -, ⟨active, hcurrent, hnode⟩, ⟨entity, op, hdeclared⟩, dedupId,
      hid⟩ := h
    have hdecided : terminalVerdict walk call.node (.emit entity op) event =
        .ok (some (.emit event dedupId entity op call.node)) :=
      terminalVerdict_emit_eq_some.2 ⟨hnone, dedupId, hid, rfl⟩
    refine ⟨event, dedupId, entity, op, call.node, ?_⟩
    rw [operate, apply_of_active hrunning hcurrent hnode]
    show (w.applySuccess walk call.node event port).2.verdict = _
    rw [applySuccess, show (w.node call.node).bind WiringNode.terminal = _ from hdeclared]
    simp only [hdecided]
    rfl
  · exact h.elim

/-- A call that records an event for a delivery with a caller has a node emit first. -/
theorem emitsFirst_of_concludes {event : Value} {dedupId entity : String} {op : Events.Op}
    (caller : walk.callerAttached = true) (hnone : walk.verdict = none)
    (hset : (w.operate lib walk operation).verdict = some (.emit event dedupId entity op node))
    (h : operation.Concludes w delivery walk (.emit event dedupId entity op node)) :
    w.EmitsFirst walk operation := by
  cases h with
  | emit call _ port nowMs _ _ _ keyed declared =>
    -- The call was taken: a refused one would have left no verdict.
    rcases apply_spec lib w walk call (.success event port) nowMs with
      ⟨refusal, heq⟩ | ⟨active, walk', heq, hrunning, hcurrent, hnode, -⟩
    · rw [operate, heq, hnone] at hset
      cases hset
    · exact ⟨hrunning, hnone, caller, ⟨active, hcurrent, hnode⟩, ⟨entity, op, declared⟩,
        dedupId, keyed⟩

/-- In a quiet run for a caller, the only verdicts are answers. -/
theorem respond_of_quiet (caller : delivery.callerAttached = true)
    (quiet : w.Quiet lib delivery operations)
    (h : (w.run lib delivery operations).verdict = some verdict) :
    ∃ payload node, verdict = .respond payload node := by
  obtain ⟨before, operation, after, hsplit, hnone, hset, hconcludes⟩ :=
    w.exists_concludes lib delivery operations h
  have hcaller : (w.run lib delivery before).callerAttached = true :=
    (w.callerAttached_run lib delivery before).trans caller
  cases verdict with
  | respond payload node => exact ⟨payload, node, rfl⟩
  | emit event dedupId entity op node =>
    exact absurd (emitsFirst_of_concludes hcaller hnone hset hconcludes)
      (quiet before operation after hsplit)
  | discard =>
    cases hconcludes with
    | discard nowMs nobody =>
      rw [caller] at nobody
      cases nobody

lemma emit_of_not_quiet (h : ¬ w.Quiet lib delivery operations) : ∃ event dedupId entity op node,
      (w.run lib delivery operations).verdict = some (.emit event dedupId entity op node) := by
  unfold Quiet at h
  push Not at h
  obtain ⟨before, operation, after, rfl, hemits⟩ := h
  obtain ⟨event, dedupId, entity, op, node, hset⟩ := emit_of_emitsFirst lib hemits
  refine ⟨event, dedupId, entity, op, node, ?_⟩
  rw [run, foldl_append, foldl_cons]
  exact verdict_foldl hset after

lemma completed_next (h : Nexts w nowMs walk step walk') (completed : walk'.status = .completed) :
    walk' = walk ∨ walk'.verdict.isSome = true := by
  cases h with
  | ended => exact .inl rfl
  | unreleased => cases completed
  | settled => exact .inr rfl
  | waiting a running =>
    rw [Walk.status_promoted, running] at completed
    cases completed
  | spent => cases completed
  | invoked a node running =>
    rw [show _ = walk.promoted.status from rfl, Walk.status_promoted, running] at completed
    cases completed

lemma completed_failOnNodeData {error : ApplyError}
    (h : (w.failOnNodeData lib walk node error).2.status = .completed) :
    walk.status = .completed := by
  unfold failOnNodeData at h
  split at h
  · exact h
  · unfold errorOrFail at h
    split at h
    · cases h
    · exact h

lemma isSome_verdict_operate (operation : Operation)
    (h : walk.status = .completed → walk.verdict.isSome = true)
    (completed : (w.operate lib walk operation).status = .completed) :
    (w.operate lib walk operation).verdict.isSome = true := by
  cases operation with
  | next nowMs =>
    rcases w.operate_next lib walk nowMs with hsame | ⟨step, hnexts⟩
    · rw [hsame] at completed ⊢
      exact h completed
    · rcases completed_next hnexts completed with hsame | hsome
      · rw [hsame] at completed ⊢
        exact h completed
      · exact hsome
  | apply call outcome nowMs =>
    rcases apply_spec lib w walk call outcome nowMs with
      ⟨refusal, heq⟩ | ⟨active, walk', heq, hrunning, -, -, happlied⟩
    · rw [operate, heq] at completed ⊢
      exact h completed
    · rw [operate, heq] at completed
      exact absurd completed (not_completed_applied happlied hrunning)
  | failOnNodeData node error =>
    rw [operate, (failOnNodeData_frame lib w walk node error).1]
    exact h (completed_failOnNodeData completed)

lemma isSome_verdict_run (lib : Library) (w : Wiring) (delivery : Delivery)
    (operations : List Operation) (h : (w.run lib delivery operations).status = .completed) :
    (w.run lib delivery operations).verdict.isSome = true := by
  refine invariant_foldl
    (I := fun walk : Walk => walk.status = .completed → walk.verdict.isSome = true) ?_ ?_
    operations h
  · intro walk operation ih
    exact isSome_verdict_operate operation ih
  · simp [start]

lemma settle_unreleased (silent : walk.verdict = none) (caller : walk.callerAttached = true) :
    ∃ detail, (w.settle walk).2.status = .failed ∧
      (w.settle walk).2.failure = some ⟨w.entry, .unreleasedCaller, detail⟩ := by
  rw [settle, if_pos (by simp [silent, caller])]
  exact ⟨_, rfl, rfl⟩

/-- A caller is answered by every walk that completes exactly if no node emits first; then a walk
that runs out of work without an answer fails. -/
theorem completed_responds_iff (lib : Library) (w : Wiring) (delivery : Delivery)
    (operations : List Operation) (caller : delivery.callerAttached = true) :
    ((w.run lib delivery operations).status = .completed →
      ((∃ payload node, (w.run lib delivery operations).verdict = some (.respond payload node)) ↔
        w.Quiet lib delivery operations)) ∧
    (w.Quiet lib delivery operations → (w.run lib delivery operations).status = .running →
      (w.run lib delivery operations).pending = [] →
      (∀ payload node,
        (w.run lib delivery operations).verdict ≠ some (.respond payload node)) →
      ∀ nowMs, ∃ detail, (w.run lib delivery (operations ++ [.next nowMs])).status = .failed ∧
        (w.run lib delivery (operations ++ [.next nowMs])).failure =
          some ⟨w.entry, .unreleasedCaller, detail⟩) := by
  constructor
  · -- A completed walk has a verdict, and it is the first that was recorded.
    intro completed
    obtain ⟨verdict, hverdict⟩ :=
      isSome_iff_exists.1 (w.isSome_verdict_run lib delivery operations completed)
    constructor
    · rintro ⟨payload, node, hrespond⟩
      by_contra hemits
      obtain ⟨event, dedupId, entity, op, node', hemit⟩ := emit_of_not_quiet hemits
      cases hrespond.symm.trans hemit
    · intro quiet
      obtain ⟨payload, node, rfl⟩ := respond_of_quiet caller quiet hverdict
      exact ⟨payload, node, hverdict⟩
  · intro quiet running empty unanswered nowMs
    have hsilent : (w.run lib delivery operations).verdict = none := by
      by_contra hsome
      obtain ⟨verdict, hverdict⟩ := ne_none_iff_exists'.1 hsome
      obtain ⟨payload, node, rfl⟩ := respond_of_quiet caller quiet hverdict
      exact unanswered payload node hverdict
    have hcaller := (w.callerAttached_run lib delivery operations).trans caller
    have hnext : w.run lib delivery (operations ++ [.next nowMs]) =
        (w.settle (w.run lib delivery operations)).2 := by
      rw [run, foldl_append, foldl_cons, foldl_nil, ← run, operate,
        next_of_idle running empty]
    rw [hnext]
    exact settle_unreleased hsilent hcaller

end Wiring

namespace Sample

/-- A walk for a caller that `answer` answers. -/
def answered : List Operation :=
  [.next 0, .apply (callOf "answer") (.success .null mainPort) 0, .next 0]

/-- The answered walk completes, its caller was answered, and so it is quiet. -/
theorem answered_responds_iff : ∃ w, answerOrReport = .ok w ∧
    (w.run ⟨id, fun _ _ _ => none⟩ ⟨"d", .null, true⟩ answered).status = .completed ∧
    (∃ payload node, (w.run ⟨id, fun _ _ _ => none⟩ ⟨"d", .null, true⟩ answered).verdict =
        some (.respond payload node)) ∧
      w.Quiet ⟨id, fun _ _ _ => none⟩ ⟨"d", .null, true⟩ answered := by
  have hanswered : ∃ w, answerOrReport = .ok w ∧
      (w.run ⟨id, fun _ _ _ => none⟩ ⟨"d", .null, true⟩ answered).status = .completed ∧
      (w.run ⟨id, fun _ _ _ => none⟩ ⟨"d", .null, true⟩ answered).verdict =
        some (.respond .null "answer") := ⟨_, rfl, by decide, rfl⟩
  obtain ⟨w, hw, hcompleted, hverdict⟩ := hanswered
  have hresponds := (Wiring.completed_responds_iff _ w _ _ rfl).1 hcompleted
  exact ⟨w, hw, hcompleted, ⟨_, _, hverdict⟩, hresponds.1 ⟨_, _, hverdict⟩⟩

def publishOnly : Except WiringError Wiring :=
  Wiring.compile "publish" [⟨"publish", "c", "run", .null, none, some (.emit "order" .insert)⟩] []

/-- A caller waits, the node emits an event, and the walk completes without an answer. -/
theorem completed_without_answer : ∃ w, publishOnly = .ok w ∧
    let walk := w.run ⟨id, fun _ _ _ => none⟩ ⟨"d", .null, true⟩
      [.next 0, .apply (callOf "publish")
        (.success (.ofMembers [(dedupIdField, .string "k")]) mainPort) 0, .next 0]
    walk.callerAttached = true ∧ walk.status = .completed ∧
      walk.verdict = some (.emit (.ofMembers [(dedupIdField, .string "k")]) "k" "order" .insert
        "publish") := by
  refine ⟨_, rfl, ?_, ?_, ?_⟩
  · decide
  · decide
  · decide

end Sample

end Wamn.Workflow.Router
