import Wamn.Lib.Worklist
import Wamn.Workflow.Router.Route

/-!
# Tokens are worked off in order

An invocation completes the visit of a node if the node succeeds or its failure takes an error edge;
it then emits a payload on a port, and every edge of that port carries a token on. `ledger` reads
these visits off the history, and they are a worklist that starts with the entry token.
-/

namespace Wamn.Workflow.Router

open List Lib Lib.Json

/-! ## Visits, from the history alone -/

/-- A completed visit: the call that completed it and what it emitted. -/
structure Visit where
  call : NodeCall
  port : String
  payload : Value

def Visit.token (v : Visit) : Token := ⟨v.call.node, v.call.inputPort, v.call.payload⟩

/-- The tokens that a visit spawns, one for each edge of the port. -/
def Visit.spawned (w : Wiring) (v : Visit) : List Token :=
  (w.successors v.call.node v.port).map fun edge => ⟨edge.toNode, some edge.toPort, v.payload⟩

/-- Why the success of a terminal counts as a failure. -/
def objection (lib : Library) (caller answered : Bool) (node : String) (payload : Value) :
    Terminal → Option ErrorDetail
  | terminal =>
    if answered then
      some (.coded "second-verdict" ((ApplyError.secondVerdict node).display lib))
    else match terminal with
      | .respond =>
        if caller then none
        else some (.coded "respond-without-caller"
          ((ApplyError.respondWithoutCaller node).display lib))
      | .emit _ _ =>
        match (payload.get dedupIdField).bind Value.asString with
        | some id => if id = "" then some unkeyedDetail else none
        | none => some unkeyedDetail

/-- A failure emits on the error port, if an edge leaves it. -/
def errorEmission (w : Wiring) (node : String) (detail : ErrorDetail) : Option (String × Value) :=
  if (w.successors node errorPort).isEmpty then none else some (errorPort, detail.toErrorPayload)

section

variable (lib : Library) (w : Wiring)

/-- What an invocation emits: nothing unless it completes the visit. -/
def emission (caller answered : Bool) (call : NodeCall) : NodeOutcome → Option (String × Value)
  | .success payload port =>
    match ((w.node call.node).bind WiringNode.terminal).bind
        (objection lib caller answered call.node payload) with
    | none => some (port, payload)
    | some detail => errorEmission w call.node detail
  | .error error =>
    if error.retries && (RetryPolicy.fromConfig call.config).mayRetry call.attempt then none
    else errorEmission w call.node error.detail
  | .cancelled => none

/-- Whether an invocation gives the delivery its verdict. -/
def concludes (caller answered : Bool) (call : NodeCall) : NodeOutcome → Bool
  | .success payload _ =>
    match (w.node call.node).bind WiringNode.terminal with
    | some terminal => (objection lib caller answered call.node payload terminal).isNone
    | none => false
  | .error _ | .cancelled => false

/-- The visits of a delivery so far, and whether it has its verdict. -/
structure Ledger where
  visits : List Visit
  answered : Bool

def Ledger.record (caller : Bool) (ledger : Ledger) : Event → Ledger
  | .clock _ | .waited _ _ _ => ledger
  | .invoked call outcome => {
      visits := ledger.visits ++
        ((emission lib w caller ledger.answered call outcome).map fun (port, payload) =>
          ⟨call, port, payload⟩).toList
      answered := ledger.answered || concludes lib w caller ledger.answered call outcome }

def ledger (caller : Bool) (history : List Event) : Ledger :=
  history.foldl (Ledger.record lib w caller) ⟨[], false⟩

end

/-! ## The walk agrees -/

variable {lib : Library} {w : Wiring} {walk walk' : Walk}

/-- What the walk reports of a decision of a terminal node that is not a verdict. -/
def decisionDetail (lib : Library) : Except ApplyError (Option Verdict) → Option ErrorDetail
  | .ok (some _) => none
  | .ok none => some unkeyedDetail
  | .error refusal =>
    refusal.nodeDataFailure.map fun (_, code) => .coded code (refusal.display lib)

lemma objection_eq (lib : Library) (walk : Walk) (node : String) (payload : Value)
    (terminal : Terminal) :
    objection lib walk.callerAttached walk.verdict.isSome node payload terminal =
      decisionDetail lib (Wiring.terminalVerdict walk node terminal payload) := by
  unfold objection Wiring.terminalVerdict
  cases hverdict : walk.verdict with
  | some verdict => rfl
  | none =>
    cases terminal with
    | respond =>
      cases walk.callerAttached with
      | true | false => rfl
    | emit entity operation =>
      cases (payload.get dedupIdField).bind Value.asString with
      | none => rfl
      | some id =>
        by_cases hempty : id = ""
        · simp [hempty, decisionDetail, pure, Except.pure, Option.filter]
        · simp [hempty, decisionDetail, pure, Except.pure, Option.filter]

section Agreement

variable {call : NodeCall} {payload : Value} {outcome : NodeOutcome} {detail : ErrorDetail}
  {kind : FailureKind}

lemma objection_of_records (lib : Library) {verdict : Option Verdict}
    (h : Records w walk call.node payload verdict) :
    ((w.node call.node).bind WiringNode.terminal).bind
      (objection lib walk.callerAttached walk.verdict.isSome call.node payload) = none := by
  cases h with
  | nothing plain => rw [plain, Option.bind_none]
  | verdict terminal verdict declared decided =>
    rw [declared, Option.bind_some, objection_eq, decided]
    rfl

lemma concludes_of_records (lib : Library) {verdict : Option Verdict} (port : String)
    (h : Records w walk call.node payload verdict) :
    concludes lib w walk.callerAttached walk.verdict.isSome call (.success payload port) =
      verdict.isSome := by
  cases h with
  | nothing plain => simp [concludes, plain]
  | verdict terminal verdict declared decided =>
    simp [concludes, declared, objection_eq, decided, decisionDetail]

lemma objection_of_fails {attempt : ℕ} {port : String}
    (h : Fails lib w walk attempt call (.success payload port) detail kind) :
    ((w.node call.node).bind WiringNode.terminal).bind
      (objection lib walk.callerAttached walk.verdict.isSome call.node payload) = some detail := by
  cases h with
  | refused _ _ terminal refusal kind code declared decided data =>
    rw [declared, Option.bind_some, objection_eq, decided, decisionDetail, data]
    rfl
  | unkeyed _ _ terminal declared decided =>
    rw [declared, Option.bind_some, objection_eq, decided]
    rfl

lemma emission_of_fails
    (h : Fails lib w walk call.attempt call outcome detail kind) :
    emission lib w walk.callerAttached walk.verdict.isSome call outcome =
      errorEmission w call.node detail := by
  cases outcome with
  | success payload port => rw [emission, objection_of_fails h]
  | error error =>
    cases h with
    | exhausted _ retries spent =>
      rw [emission, spent, Bool.and_false]
      rfl
    | terminal | invalidInput => rfl
  | cancelled => cases h

lemma concludes_of_fails {attempt : ℕ}
    (h : Fails lib w walk attempt call outcome detail kind) :
    concludes lib w walk.callerAttached walk.verdict.isSome call outcome = false := by
  cases outcome with
  | success payload port =>
    have hobjection := objection_of_fails h
    obtain ⟨terminal, hterminal, hobjection⟩ := Option.bind_eq_some_iff.1 hobjection
    simp [concludes, hterminal, hobjection]
  | error error | cancelled => rfl

end Agreement

/-- What folding an outcome does to the pending tokens and the visits, by what the ledger says it
emits. -/
theorem emission_spec (call : NodeCall) {outcome : NodeOutcome}
    (h : Applied lib w walk call.attempt call outcome walk') :
    walk'.verdict.isSome = (walk.verdict.isSome ||
        concludes lib w walk.callerAttached walk.verdict.isSome call outcome) ∧
    match emission lib w walk.callerAttached walk.verdict.isSome call outcome with
    | some (port, payload) =>
      walk'.status = walk.status ∧
        walk'.pending = walk.frontier ++ w.tokens call.node port payload ∧
        walk'.visits = Wiring.countVisit walk call.node
    | none =>
      (walk'.status = .running → walk'.pending = walk.pending) ∧ walk'.visits = walk.visits := by
  cases h with
  | completed payload port verdict records =>
    constructor
    · rw [concludes_of_records lib port records, Wiring.completeVisit]
      show (verdict.or walk.verdict).isSome = _
      rw [Option.isSome_or, Bool.or_comm]
    · rw [emission, objection_of_records lib records]
      exact ⟨rfl, rfl, rfl⟩
  | rerouted _ detail kind fails caught =>
    constructor
    · rw [concludes_of_fails fails, Bool.or_false]
      rfl
    · rw [emission_of_fails fails, errorEmission, if_neg (by simpa using caught)]
      exact ⟨rfl, rfl, rfl⟩
  | failed _ detail kind fails uncaught =>
    constructor
    · rw [concludes_of_fails fails, Bool.or_false]
    · rw [emission_of_fails fails, errorEmission, uncaught]
      exact ⟨fun hrunning => (by cases hrunning), rfl⟩
  | retried error untilMs throttle bounded retries budget =>
    constructor
    · rw [concludes, Bool.or_false]
      rfl
    · rw [emission, retries, budget]
      exact ⟨fun _ => Wiring.pending_scheduleRetry walk untilMs throttle, rfl⟩
  | cancelled =>
    constructor
    · rw [concludes, Bool.or_false]
    · exact ⟨fun hrunning => (by cases hrunning), rfl⟩

/-! ## Whole runs -/

/-- The visits of a delivery, from the history of its run. -/
def visits (lib : Library) (w : Wiring) (delivery : Delivery) (history : List Event) : List Visit :=
  (ledger lib w delivery.callerAttached history).visits

def entryToken (w : Wiring) (delivery : Delivery) : Token := ⟨w.entry, none, delivery.payload⟩

def visitsOf (node : String) (done : List Visit) : ℕ := done.countP fun v => v.call.node = node

lemma visitsOf_concat (node : String) (done : List Visit) (v : Visit) :
    visitsOf node (done ++ [v]) = visitsOf node done + if v.call.node = node then 1 else 0 := by
  rw [visitsOf, countP_append, ← visitsOf, countP_singleton]
  simp

lemma countVisit_eq {done : List Visit}
    (h : ∀ node, walk.visits node = visitsOf node done % 2 ^ 32) (v : Visit) (node : String) :
    Wiring.countVisit walk v.call.node node = visitsOf node (done ++ [v]) % 2 ^ 32 := by
  rw [visitsOf_concat, Wiring.countVisit, Function.update_apply]
  by_cases hnode : node = v.call.node
  · rw [if_pos hnode, if_pos hnode.symm, h, ← hnode, Nat.mod_add_mod]
  · rw [if_neg hnode, if_neg (Ne.symm hnode), h, Nat.add_zero]

/-- The tokens of a run are taken first in, first out. -/
structure Fifo (lib : Library) (w : Wiring) (delivery : Delivery) (history : List Event) :
    Prop where
  /-- A visit takes the next token: the entry first, then the edges of the emissions so far, in the
  order of completion, without those that earlier visits took. -/
  next : ∀ pre v post, visits lib w delivery history = pre ++ v :: post →
    ∃ rest, entryToken w delivery :: pre.flatMap (Visit.spawned w) =
      pre.map Visit.token ++ v.token :: rest
  /-- The occurrence of a call counts the visits of its node before it, in 32 bits. -/
  occurrence : ∀ pre v post, visits lib w delivery history = pre ++ v :: post →
    v.call.occurrence = visitsOf v.call.node pre % 2 ^ 32
  /-- Under a hop limit that fits in 32 bits the count is exact. -/
  exact : w.hopLimit ≤ 2 ^ 32 → ∀ pre v post, visits lib w delivery history = pre ++ v :: post →
    v.call.occurrence = visitsOf v.call.node pre

/-- What holds of the visits that are done and the walk after them. -/
structure WorkedOff (w : Wiring) (delivery : Delivery) (done : List Visit) (walk : Walk) :
    Prop where
  counted : ∀ node, walk.visits node = visitsOf node done % 2 ^ 32
  worklist : ∃ pending,
    Worklist [entryToken w delivery] Visit.token (Visit.spawned w) done pending ∧
    (walk.status = .running → pending = walk.pending)
  occurrence : ∀ pre v post, done = pre ++ v :: post →
    v.call.occurrence = visitsOf v.call.node pre % 2 ^ 32
  length : done.length ≤ walk.hops

/-- What holds of a walk and the ledger of its history. -/
structure Accounted (w : Wiring) (delivery : Delivery) (ledger : Ledger) (walk : Walk) : Prop
    extends WorkedOff w delivery ledger.visits walk where
  valid : walk.Valid w
  caller : walk.callerAttached = delivery.callerAttached
  answered : ledger.answered = walk.verdict.isSome
  limit : walk.hops ≤ w.hopLimit
  uncompleted : walk.status ≠ .completed

variable {delivery : Delivery} {invoker : NodeInvoker} {r : Routing} {l : Ledger}

lemma accounted_start (w : Wiring) (delivery : Delivery) :
    Accounted w delivery ⟨[], false⟩ (w.start delivery) where
  valid := w.valid_start delivery
  caller := rfl
  answered := rfl
  counted := fun _ => rfl
  worklist := ⟨_, .start, fun _ => rfl⟩
  occurrence := by simp
  length := Nat.zero_le _
  limit := Nat.zero_le _
  uncompleted := by simp [Wiring.start]

section

variable {done : List Visit} (h : WorkedOff w delivery done walk) (running : walk.status = .running)

include h running

lemma WorkedOff.kept (hvisits : walk'.visits = walk.visits) (hhops : walk.hops ≤ walk'.hops)
    (hpending : walk'.status = .running → walk'.pending = walk.pending) :
    WorkedOff w delivery done walk' := by
  obtain ⟨pending, hworklist, hrunning⟩ := h.worklist
  exact ⟨hvisits ▸ h.counted,
    ⟨pending, hworklist, fun hstatus => (hrunning running).trans (hpending hstatus).symm⟩,
    h.occurrence, Nat.le_trans h.length hhops⟩

/-- A complete visit takes its token, and those of the emitted port come last. -/
theorem WorkedOff.taken (v : Visit) {rest : List Token} (hpending : walk.pending = v.token :: rest)
    (hoccurrence : v.call.occurrence = walk.visits v.call.node)
    (hvisits : walk'.visits = Wiring.countVisit walk v.call.node)
    (hhops : walk'.hops = walk.hops + 1) (hpending' : walk'.pending = rest ++ v.spawned w) :
    WorkedOff w delivery (done ++ [v]) walk' where
  counted := by
    rw [hvisits]
    exact countVisit_eq h.counted v
  worklist := by
    obtain ⟨pending, hworklist, hrunning⟩ := h.worklist
    rw [hrunning running, hpending] at hworklist
    exact ⟨_, hworklist.take v, fun _ => hpending'.symm⟩
  occurrence := forall_split_concat h.occurrence (hoccurrence.trans (h.counted _))
  length := by
    rw [hhops, length_append, length_singleton]
    exact Nat.succ_le_succ h.length

end

lemma Accounted.waited (h : Accounted w delivery l walk) {a : Active}
    (running : walk.status = .running) (active : walk.promoted.current = some a) {nowMs : ℕ}
    (early : nowMs < a.retryUntilMs) : Accounted w delivery l walk.promoted where
  toWorkedOff := h.toWorkedOff.kept running walk.visits_promoted walk.hops_promoted.ge
    fun _ => walk.pending_promoted
  valid := Wiring.valid_next (.waiting a running active early) h.valid
  caller := walk.callerAttached_promoted.trans h.caller
  answered := h.answered.trans (congrArg _ walk.verdict_promoted.symm)
  limit := walk.hops_promoted.trans_le h.limit
  uncompleted := walk.status_promoted.trans_ne h.uncompleted

lemma Accounted.invoked (h : Accounted w delivery l walk) {a : Active} {node : WiringNode}
    {outcome : NodeOutcome} {nowMs : ℕ} (invokes : w.Invokes lib walk nowMs a node outcome walk') :
    Accounted w delivery (l.record lib w delivery.callerAttached
      (.invoked (Wiring.nodeCall walk a node) outcome)) walk' := by
  have hvalid := invokes.valid h.valid
  obtain ⟨running, active, -, limit, -, applied⟩ := invokes
  have hhops : walk'.hops = walk.hops + 1 := by
    rw [applied.hops_eq, walk.hops_promoted]
  have hcaller : walk.promoted.callerAttached = delivery.callerAttached :=
    walk.callerAttached_promoted.trans h.caller
  have hverdict : walk.promoted.verdict.isSome = l.answered := by
    rw [Walk.verdict_promoted, h.answered]
  -- The ledger reads the caller and the verdict where the walk does.
  obtain ⟨hanswered, hemission⟩ := emission_spec (Wiring.nodeCall walk a node) applied
  simp only [hcaller, hverdict] at hanswered hemission
  have hworkedOff : WorkedOff w delivery (l.record lib w delivery.callerAttached
      (.invoked (Wiring.nodeCall walk a node) outcome)).visits walk' := by
    rw [Ledger.record]
    cases hcase : emission lib w delivery.callerAttached l.answered (Wiring.nodeCall walk a node)
        outcome with
    | none =>
      -- The node is tried again or the walk ends.
      rw [hcase] at hemission
      have hkept := h.toWorkedOff.kept running (hemission.2.trans walk.visits_promoted)
        (hhops ▸ Nat.le_succ _) fun hstatus => (hemission.1 hstatus).trans walk.pending_promoted
      simpa using hkept
    | some emitted =>
      rw [hcase] at hemission
      have hpending : walk.pending = a.token :: walk.promoted.frontier := by
        rw [← Walk.pending_promoted, Walk.pending_of_current active]
      refine h.toWorkedOff.taken running
        ⟨Wiring.nodeCall walk a node, emitted.1, emitted.2⟩ hpending
        rfl ?_ hhops hemission.2.1
      rw [hemission.2.2, Wiring.countVisit, Walk.visits_promoted, ← Wiring.countVisit]
  exact { hworkedOff with
    valid := hvalid
    caller := applied.callerAttached_eq.trans hcaller
    answered := hanswered.symm
    limit := hhops ▸ limit
    uncompleted :=
      Wiring.not_completed_applied applied (walk.status_promoted.trans running) }

lemma accounted_of_iterates
    (h : Iterates (turn lib w invoker) (Routing.start w delivery) r) :
    Accounted w delivery (ledger lib w delivery.callerAttached r.history) r.walk := by
  refine h.invariant (I := fun r : Routing => Accounted w delivery
    (ledger lib w delivery.callerAttached r.history) r.walk) ?_ (accounted_start w delivery)
  intro before after accounted hturn
  obtain ⟨result, hresult, hturns⟩ := turn_spec lib invoker accounted.valid
  obtain rfl : result = .inl after := Except.ok.inj (hresult.symm.trans hturn)
  cases hturns with
  | waited a running active early =>
    rw [ledger, foldl_append]
    exact accounted.waited running active early
  | invoked a node outcome walk appliedMs invokes =>
    rw [ledger, foldl_append]
    exact accounted.invoked invokes

lemma Accounted.fifo {history : List Event}
    (h : Accounted w delivery (ledger lib w delivery.callerAttached history) walk) :
    Fifo lib w delivery history := by
  obtain ⟨pending, hworklist, -⟩ := h.worklist
  refine ⟨hworklist.next_of_split, h.occurrence, fun hlimit pre v post hsplit => ?_⟩
  have hoccurrence := h.occurrence pre v post hsplit
  have hlength : (visits lib w delivery history).length = pre.length + (post.length + 1) := by
    rw [hsplit, length_append, length_cons]
  have hcount : visitsOf v.call.node pre ≤ pre.length := countP_le_length
  have hvisits : (visits lib w delivery history).length ≤ walk.hops := h.length
  have hhops := h.limit
  rw [hoccurrence, Nat.mod_eq_of_lt (by omega)]

lemma idle_of_completed {nowMs : ℕ} {status : WalkStatus}
    (next : Nexts w nowMs walk (.done status) walk') (uncompleted : walk.status ≠ .completed)
    (completed : status = .completed) : walk.status = .running ∧ walk.pending = [] := by
  cases next with
  | ended => exact absurd completed uncompleted
  | unreleased => cases completed
  | settled running idle empty => exact ⟨running, Walk.pending_eq_nil.2 ⟨idle, empty⟩⟩
  | spent => cases completed

/-- The tokens of a delivery are conserved and worked off first in, first out, at every point of
every run. A running walk has the tokens pending that its visits spawned and did not take; a
completed one has taken all. -/
theorem tokens_conserved (lib : Library) (delivery : Delivery) (w : Wiring)
    (invoker : NodeInvoker) :
    (∀ r, Iterates (turn lib w invoker) (Routing.start w delivery) r →
      Fifo lib w delivery r.history ∧ (r.walk.status = .running →
        entryToken w delivery :: (visits lib w delivery r.history).flatMap (Visit.spawned w) =
          (visits lib w delivery r.history).map Visit.token ++ r.walk.pending)) ∧
    ∀ fuel routed history, route lib delivery w invoker fuel = .ok (some (routed, history)) →
      Fifo lib w delivery history ∧ (routed.status = .completed →
        entryToken w delivery :: (visits lib w delivery history).flatMap (Visit.spawned w) =
          (visits lib w delivery history).map Visit.token) := by
  constructor
  · intro r hiterates
    have haccounted := accounted_of_iterates hiterates
    refine ⟨haccounted.fifo, fun hrunning => ?_⟩
    obtain ⟨pending, hworklist, hpending⟩ := haccounted.worklist
    rw [← hpending hrunning]
    exact hworklist.conserved
  · intro fuel routed history hroute
    obtain ⟨r, hiterates, hturn⟩ := loop_eq_some hroute
    have haccounted := accounted_of_iterates hiterates
    obtain ⟨result, hresult, hturns⟩ := turn_spec lib invoker haccounted.valid
    obtain rfl : result = .inr (routed, history) := Except.ok.inj (hresult.symm.trans hturn)
    cases hturns with
    | returned status walk next =>
      -- The last reading of the clock is no visit.
      have hledger : ledger lib w delivery.callerAttached
          (r.history ++ [.clock (invoker.nowMs r.history)]) =
          ledger lib w delivery.callerAttached r.history := by
        rw [ledger, foldl_append]
        rfl
      rw [← hledger] at haccounted
      refine ⟨haccounted.fifo, fun hcompleted => ?_⟩
      obtain ⟨pending, hworklist, hpending⟩ := haccounted.worklist
      obtain ⟨hrunning, hempty⟩ := idle_of_completed next haccounted.uncompleted hcompleted
      rw [hpending hrunning, hempty] at hworklist
      have hconserved := hworklist.conserved
      rwa [append_nil] at hconserved

end Wamn.Workflow.Router
