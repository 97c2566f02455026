import Wamn.Workflow.Router.Checker
import Wamn.Workflow.Router.Verdict

/-!
# When the checks raise an alarm

A driver asks a walk for work, feeds back outcomes, folds refusals and records all of it in a trace.
The trace misreads one case: the success of a terminal node that the delivery has no use for takes
the error edges, but the trace puts the tokens on the emitted port. A node behind the error edge
then runs without a token by the reckoning of the trace, and WALK-3 fails on a sound walk.

The other assumption is that the counters of the trace do not wrap.
-/

namespace Wamn.Workflow.Router

open List Lib Lib.Json Function

/-! ## Driving and observing -/

/-- A walk under observation, and the call that is out. -/
structure Observed where
  walk : Walk
  trace : WalkTrace
  handed : Option NodeCall

/-- The driver asks for work at a clock reading, or feeds back an outcome. -/
inductive Drive where
  | ask (nowMs : ℕ)
  | feed (outcome : NodeOutcome) (nowMs : ℕ)

def Step.handedOut : Step → Option NodeCall
  | .invoke call => some call
  | .wait _ _ _ _ | .done _ => none

section

variable (lib : Library) (w : Wiring) (s : Observed)

/-- Drive and record. A driver does not ask while a call is out. -/
def observe : Drive → Observed
  | .ask nowMs =>
    match s.handed, w.next s.walk nowMs with
    | none, .ok (step, walk) =>
      ⟨walk, s.trace.stepped s.walk.status step nowMs, step.handedOut⟩
    | _, _ => s
  | .feed outcome nowMs =>
    match s.handed with
    | some call =>
      ⟨(w.answer lib s.walk call outcome nowMs).2, s.trace.applied w call outcome, none⟩
    | none => s

def Observed.start (delivery : Delivery) : Observed :=
  ⟨w.start delivery, .new w, none⟩

/-- The delivery has no use for the success of a terminal node. -/
def Unfit (walk : Walk) (payload : Value) : Terminal → Prop
  | .respond => walk.verdict ≠ none ∨ walk.callerAttached = false
  | .emit _ _ => walk.verdict ≠ none ∨ ∀ dedupId, ¬ HasDedupId payload dedupId

def edgesTo (node port target : String) : ℕ :=
  (w.successors node port).countP fun edge => edge.toNode = target

/-- A success that the delivery has no use for, where the error edges bring more tokens to some
target than the emitted port. -/
def Misread (walk : Walk) (node : String) (outcome : NodeOutcome) : Prop :=
  ∃ payload port terminal target, outcome = .success payload port ∧ w.Declares node terminal ∧
    Unfit walk payload terminal ∧ edgesTo w node port target < edgesTo w node errorPort target

/-- The counters of the trace have room for the tokens that an outcome adds. -/
def HasRoom (trace : WalkTrace) (call : NodeCall) (outcome : NodeOutcome) : Prop :=
  ∀ port target, WalkTrace.arrivalPort call outcome = some port →
    trace.arrivals target + edgesTo w call.node port target < 2 ^ 32

def Drive.Tracked : Drive → Prop
  | .ask _ => True
  | .feed outcome _ => ∀ call, s.handed = some call →
    ¬ Misread w s.walk call.node outcome ∧ HasRoom w s.trace call outcome

end

/-! ## What a step of the driver does -/

structure Observed.Driven (w : Wiring) (s : Observed) : Prop where
  valid : s.walk.Valid w
  handed : ∀ call, s.handed = some call → s.walk.status = .running ∧
    ∃ a node, s.walk.current = some a ∧ w.node a.node = some node ∧
      call = Wiring.nodeCall s.walk a node

inductive Observes (lib : Library) (w : Wiring) (s : Observed) : Drive → Observed → Prop where
  | ignored (drive : Drive) : Observes lib w s drive s
  | asked (nowMs : ℕ) (step : Step) (walk : Walk) (free : s.handed = none)
      (next : Nexts w nowMs s.walk step walk) :
      Observes lib w s (.ask nowMs)
        ⟨walk, s.trace.stepped s.walk.status step nowMs, step.handedOut⟩
  | fed (outcome : NodeOutcome) (nowMs : ℕ) (a : Active) (node : WiringNode) (walk : Walk)
      (held : s.handed = some (Wiring.nodeCall s.walk a node)) (running : s.walk.status = .running)
      (active : s.walk.current = some a) (found : w.node a.node = some node)
      (applied : Applied lib w s.walk a.attempt (Wiring.nodeCall s.walk a node) outcome walk) :
      Observes lib w s (.feed outcome nowMs)
        ⟨walk, s.trace.applied w (Wiring.nodeCall s.walk a node) outcome, none⟩

variable {lib : Library} {w : Wiring} {s s' : Observed} {drive : Drive}

lemma observe_spec (lib : Library) (driven : s.Driven w) (drive : Drive) :
    Observes lib w s drive (observe lib w s drive) := by
  cases drive with
  | ask nowMs =>
    unfold observe
    dsimp only
    split
    · rename_i step walk hhanded hnext
      exact .asked nowMs step walk hhanded (Wiring.next_eq_ok hnext)
    · exact .ignored _
  | feed outcome nowMs =>
    unfold observe
    dsimp only
    split
    · rename_i call hhanded
      obtain ⟨hrunning, a, node, hactive, hfound, rfl⟩ := driven.handed call hhanded
      obtain ⟨walk, hanswer, happlied⟩ := Wiring.answer_spec lib w outcome nowMs hrunning hactive
        (show a.node = (Wiring.nodeCall s.walk a node).node from rfl)
      rw [hanswer]
      exact .fed outcome nowMs a node walk hhanded hrunning hactive hfound happlied
    · exact .ignored _

lemma Observed.Driven.step (driven : s.Driven w) (h : Observes lib w s drive s') :
    s'.Driven w := by
  cases h with
  | ignored => exact driven
  | asked nowMs step walk free next =>
    refine ⟨Wiring.valid_next next driven.valid, fun call hcall => ?_⟩
    cases next with
    | ended | unreleased | settled | waiting | spent => cases hcall
    | invoked a node running active due limit found =>
      obtain rfl := Option.some_inj.1 hcall
      refine ⟨s.walk.status_promoted.trans running, a, node, active, found, ?_⟩
      rw [Wiring.nodeCall, Wiring.nodeCall]
      rw [Walk.visits_promoted]
  | fed outcome nowMs a node walk held running active found applied =>
    exact ⟨Wiring.valid_applied applied running driven.valid, fun call hcall => by cases hcall⟩

lemma WalkTrace.calls_stepped (trace : WalkTrace) (status : WalkStatus) (step : Step)
    (nowMs : ℕ) : (trace.stepped status step nowMs).calls = trace.calls := by
  unfold stepped
  split
  · split <;> rfl
  · rfl
  · rfl

lemma WalkTrace.arrivals_stepped (trace : WalkTrace) (status : WalkStatus) (step : Step)
    (nowMs : ℕ) : (trace.stepped status step nowMs).arrivals = trace.arrivals := by
  unfold stepped
  split
  · split <;> rfl
  · rfl
  · rfl

/-! ## Hops and waits -/

structure Observed.Paced (w : Wiring) (s : Observed) : Prop where
  limit : s.walk.hops ≤ w.hopLimit
  /-- Every call and the one that is out took a hop. -/
  calls : s.trace.calls.length + s.handed.toList.length ≤ s.walk.hops
  quiet : s.trace.invokesAfterDone = 0
  waits : ∀ wait ∈ s.trace.waits, wait.1 ≤ wait.2

lemma Observed.Paced.step (paced : s.Paced w) (h : Observes lib w s drive s') : s'.Paced w := by
  cases h with
  | ignored => exact paced
  | asked nowMs step walk free next =>
    have hcalls := paced.calls
    rw [free] at hcalls
    cases next with
    | ended | unreleased | settled => exact ⟨paced.limit, hcalls, paced.quiet, paced.waits⟩
    | waiting a running active early =>
      rw [← s.walk.hops_promoted] at hcalls
      refine ⟨s.walk.hops_promoted ▸ paced.limit, hcalls, paced.quiet, ?_⟩
      intro wait hwait
      rcases mem_append.1 hwait with hold | hnew
      · exact paced.waits wait hold
      · obtain rfl := mem_singleton.1 hnew
        exact early.le
    | spent =>
      rw [← s.walk.hops_promoted] at hcalls
      exact ⟨s.walk.hops_promoted ▸ paced.limit, hcalls, paced.quiet, paced.waits⟩
    | invoked a node running active due limit found =>
      have htrace : s.trace.stepped s.walk.status
          (.invoke (Wiring.nodeCall s.walk a node)) nowMs = s.trace := by
        rw [WalkTrace.stepped, running]
        rfl
      rw [htrace]
      refine ⟨?_, ?_, paced.quiet, paced.waits⟩
      · show s.walk.promoted.hops + 1 ≤ w.hopLimit
        rw [Walk.hops_promoted]
        exact limit
      · show s.trace.calls.length + 1 ≤ s.walk.promoted.hops + 1
        rw [Walk.hops_promoted]
        exact Nat.succ_le_succ hcalls
  | fed outcome nowMs a node walk held running active found applied =>
    have hhops : walk.hops = s.walk.hops := applied.hops_eq
    have hcalls := paced.calls
    rw [held] at hcalls
    refine ⟨hhops ▸ paced.limit, ?_, paced.quiet, paced.waits⟩
    rw [hhops, WalkTrace.applied, length_append]
    exact hcalls

/-! ## Arrivals -/

variable {arrivals : String → ℕ} {call : NodeCall} {outcome : NodeOutcome} {walk walk' : Walk}
  {detail : ErrorDetail} {kind : FailureKind} {a : Active} {nowMs : ℕ}

/-- Counting the tokens of some edges adds them up, where the counters have room. -/
theorem foldl_countArrival {edges : List WiringEdge}
    (hroom : ∀ target, arrivals target + edges.countP (fun edge => edge.toNode = target) < 2 ^ 32)
    (target : String) : edges.foldl countArrival arrivals target =
      arrivals target + edges.countP (fun edge => edge.toNode = target) := by
  induction edges generalizing arrivals with
  | nil => simp
  | cons edge rest ih =>
    have hcons : ∀ node, (edge :: rest).countP (fun edge => edge.toNode = node) =
        rest.countP (fun edge => edge.toNode = node) + if edge.toNode = node then 1 else 0 := by
      intro node
      rw [countP_cons]
      simp
    -- The counter of the source wraps, but here there is room for one more.
    have hcount : ∀ node, countArrival arrivals edge node =
        arrivals node + if edge.toNode = node then 1 else 0 := by
      intro node
      have hnode := hroom node
      rw [hcons] at hnode
      rw [countArrival, update_apply]
      by_cases hedge : node = edge.toNode
      · subst hedge
        rw [if_pos rfl] at hnode ⊢
        rw [if_pos rfl, Nat.mod_eq_of_lt (by omega)]
      · rw [if_neg hedge, if_neg (Ne.symm hedge)]
        rfl
    rw [foldl_cons, ih, hcount, hcons]
    · omega
    · intro node
      have hnode := hroom node
      rw [hcons] at hnode
      rw [hcount]
      omega

/-- The arrivals at a target after an outcome that the counters have room for. -/
theorem arrivals_applied {trace : WalkTrace} (hroom : HasRoom w trace call outcome)
    (target : String) : (trace.applied w call outcome).arrivals target = trace.arrivals target +
      (WalkTrace.arrivalPort call outcome).elim 0 fun port => edgesTo w call.node port target := by
  unfold WalkTrace.applied
  cases hport : WalkTrace.arrivalPort call outcome with
  | none => rfl
  | some port => exact foldl_countArrival (fun target => hroom port target hport) target

lemma exists_verdict_of_fit {payload : Value} {terminal : Terminal}
    (h : ¬ Unfit walk payload terminal) (node : String) :
    ∃ verdict, Wiring.terminalVerdict walk node terminal payload = .ok (some verdict) := by
  cases terminal with
  | respond =>
    rw [Unfit, not_or, not_not, Bool.not_eq_false] at h
    refine ⟨.respond payload node, ?_⟩
    rw [Wiring.terminalVerdict, h.1, h.2]
    rfl
  | emit entity operation =>
    rw [Unfit, not_or, not_not] at h
    push Not at h
    obtain ⟨hnone, dedupId, hid⟩ := h
    exact ⟨_, Wiring.terminalVerdict_emit_eq_some.2 ⟨hnone, dedupId, hid, rfl⟩⟩

/-- A success that fails is one the delivery has no use for. -/
theorem unfit_of_fails {attempt : ℕ} {payload : Value} {port : String}
    (h : Fails lib w walk attempt call (.success payload port) detail kind) :
    ∃ terminal, w.Declares call.node terminal ∧ Unfit walk payload terminal := by
  cases h with
  | refused _ _ terminal refusal kind code declared decided =>
    refine ⟨terminal, declared, ?_⟩
    by_contra hfit
    obtain ⟨verdict, hverdict⟩ := exists_verdict_of_fit hfit call.node
    cases decided.symm.trans hverdict
  | unkeyed _ _ terminal declared decided =>
    refine ⟨terminal, declared, ?_⟩
    by_contra hfit
    obtain ⟨verdict, hverdict⟩ := exists_verdict_of_fit hfit call.node
    cases decided.symm.trans hverdict

def tokensAt (node : String) (tokens : List Token) : ℕ :=
  tokens.countP fun token => token.node = node

structure Observed.Tallied (s : Observed) : Prop where
  room : ∀ target, s.trace.arrivals target < 2 ^ 32
  started : ∀ call ∈ s.trace.calls, call.occurrence + 1 ≤ s.trace.arrivals call.node
  /-- The visits of a node and the tokens that are pending for it have arrived. -/
  tokens : s.walk.status = .running → ∀ node,
    s.walk.visits node + tokensAt node s.walk.pending ≤ s.trace.arrivals node

/-- The visits and the pending tokens after an emission exceed those before by its edges. -/
theorem tally_emission (active : walk.current = some a) (room : ∀ target, arrivals target < 2 ^ 32)
    (tokens : ∀ node, walk.visits node + tokensAt node walk.pending ≤ arrivals node) (port : String)
    (payload : Value) (node : String) : Wiring.countVisit walk a.node node +
        tokensAt node (walk.frontier ++ w.tokens a.node port payload) ≤
      arrivals node + edgesTo w a.node port node := by
  have htoken := tokens node
  have hroom := room node
  have hedges : tokensAt node (w.tokens a.node port payload) = edgesTo w a.node port node := by
    rw [tokensAt, Wiring.tokens, countP_map]
    rfl
  have hpending : tokensAt node walk.pending =
      tokensAt node walk.frontier + if a.node = node then 1 else 0 := by
    rw [Walk.pending_of_current active, tokensAt, countP_cons, ← tokensAt,
      show a.token.node = a.node from rfl]
    simp only [decide_eq_true_eq]
  rw [hpending] at htoken
  rw [tokensAt, countP_append, ← tokensAt, ← tokensAt, hedges, Wiring.countVisit,
    update_apply]
  by_cases hnode : node = a.node
  · subst hnode
    rw [if_pos rfl] at htoken
    rw [if_pos rfl, Nat.mod_eq_of_lt (by omega)]
    omega
  · rw [if_neg (Ne.symm hnode)] at htoken
    rw [if_neg hnode]
    omega

/-- A failure that the trace does not misread adds at least the tokens of the error port. -/
theorem edgesTo_error_le (fails : Fails lib w walk call.attempt call outcome detail kind)
    (hread : ¬ Misread w walk call.node outcome) (target : String) :
    edgesTo w call.node errorPort target ≤
      (WalkTrace.arrivalPort call outcome).elim 0 fun port => edgesTo w call.node port target := by
  cases outcome with
  | success payload port =>
    obtain ⟨terminal, hdeclared, hunfit⟩ := unfit_of_fails fails
    by_contra hless
    exact hread ⟨payload, port, terminal, target, rfl, hdeclared, hunfit, not_le.1 hless⟩
  | error error =>
    cases fails with
    | exhausted _ retries spent =>
      rw [WalkTrace.arrivalPort, spent, Bool.and_false]
      exact le_rfl
    | terminal | invalidInput => exact le_rfl
  | cancelled => cases fails

lemma Observed.Tallied.step (tallied : s.Tallied) (tracked : drive.Tracked w s)
    (h : Observes lib w s drive s') : s'.Tallied := by
  cases h with
  | ignored => exact tallied
  | asked nowMs step walk free next =>
    constructor
    · rw [WalkTrace.arrivals_stepped]
      exact tallied.room
    · rw [WalkTrace.calls_stepped, WalkTrace.arrivals_stepped]
      exact tallied.started
    · rw [WalkTrace.arrivals_stepped]
      intro hrunning node
      cases next with
      | ended => exact tallied.tokens hrunning node
      | unreleased | settled => cases hrunning
      | waiting a running =>
        rw [Walk.visits_promoted, Walk.pending_promoted]
        exact tallied.tokens running node
      | spent => cases hrunning
      | invoked a node' running =>
        show s.walk.promoted.visits node + tokensAt node s.walk.promoted.pending ≤ _
        rw [Walk.visits_promoted, Walk.pending_promoted]
        exact tallied.tokens running node
  | fed outcome nowMs a node walk held running active found applied =>
    obtain ⟨hread, hroom⟩ := tracked _ held
    have harrivals := arrivals_applied hroom
    have hgrow : ∀ target, s.trace.arrivals target ≤
        (s.trace.applied w (Wiring.nodeCall s.walk a node) outcome).arrivals target := by
      intro target
      rw [harrivals]
      exact Nat.le_add_right _ _
    have htokens := tallied.tokens running
    constructor
    · intro target
      rw [harrivals]
      cases hport : WalkTrace.arrivalPort (Wiring.nodeCall s.walk a node) outcome with
      | none => exact tallied.room target
      | some port => exact hroom port target hport
    · intro call hcall
      rcases mem_append.1 hcall with hold | hnew
      · exact (tallied.started call hold).trans (hgrow _)
      · -- The token of this visit is pending, so it has arrived.
        obtain rfl := mem_singleton.1 hnew
        refine le_trans ?_ (hgrow _)
        have htoken := htokens a.node
        rw [Walk.pending_of_current active, tokensAt, countP_cons] at htoken
        simp only [Active.token, decide_true, if_true] at htoken
        show s.walk.visits a.node + 1 ≤ s.trace.arrivals a.node
        omega
    · intro hrunning target
      rw [harrivals]
      cases applied with
      | completed payload port verdict records =>
        exact tally_emission active tallied.room htokens port payload target
      | rerouted _ detail kind fails caught =>
        -- The tokens go to the error port, and the trace may have counted those of another port.
        exact (tally_emission active tallied.room htokens errorPort _ target).trans
          (Nat.add_le_add_left (edgesTo_error_le fails hread target) _)
      | failed => cases hrunning
      | retried error untilMs throttle =>
        refine le_trans ?_ (Nat.le_add_right _ _)
        rw [Wiring.pending_scheduleRetry]
        exact htokens target
      | cancelled => cases hrunning

/-! ## Attempts -/

structure Observed.Budgeted (w : Wiring) (s : Observed) : Prop where
  calls : ∀ call ∈ s.trace.calls, call.attempt + 1 ≤ nodeBudget w call.node
  retried : ∀ pair ∈ s.trace.calls.zip s.trace.calls.tail, wronglyRetried pair = false
  active : ∀ a, s.walk.current = some a → a.attempt + 1 ≤ nodeBudget w a.node
  /-- A node is on a further attempt only if the last call asked for it. -/
  again : ∀ a, s.walk.current = some a → a.attempt ≠ 0 → ∀ last,
    s.trace.calls.getLast? = some last → last.outcome = .retryable ∨ last.outcome = .rateLimited

lemma one_le_nodeBudget (w : Wiring) (node : String) : 1 ≤ nodeBudget w node := by
  unfold nodeBudget
  cases w.node node with
  | none => exact le_rfl
  | some wired => exact le_max_right _ _

lemma nodeBudget_eq {node : WiringNode} (found : w.node a.node = some node) (walk : Walk) :
    nodeBudget w a.node =
      max (RetryPolicy.fromConfig (Wiring.nodeCall walk a node).config).maxAttempts 1 := by
  rw [nodeBudget, found]
  rfl

lemma current_of_next {step : Step} (h : Nexts w nowMs walk step walk')
    (hcurrent : walk'.current = some a) : walk.current = some a ∨ a.attempt = 0 := by
  have hpromoted : walk.promoted.current = some a → walk.current = some a ∨ a.attempt = 0 := by
    intro hactive
    rcases Walk.promoted_cases hactive with hsame | ⟨-, token, rfl⟩
    · exact .inl hsame
    · exact .inr rfl
  cases h with
  | ended | unreleased | settled => exact .inl hcurrent
  | waiting => exact hpromoted hcurrent
  | spent => cases hcurrent
  | invoked => exact hpromoted hcurrent

lemma mem_zip_tail_concat {α : Type} {l : List α} {x : α} {pair : α × α}
    (h : pair ∈ (l ++ [x]).zip (l ++ [x]).tail) :
    pair ∈ l.zip l.tail ∨ ∃ y, l.getLast? = some y ∧ pair = (y, x) := by
  induction l with
  | nil => simp at h
  | cons a rest ih =>
    cases rest with
    | nil =>
      right
      refine ⟨a, rfl, ?_⟩
      simpa using h
    | cons b rest =>
      rcases mem_cons.1 h with rfl | h
      · exact .inl mem_cons_self
      · rcases ih h with hold | ⟨y, hy, rfl⟩
        · exact .inl (mem_cons_of_mem _ hold)
        · refine .inr ⟨y, ?_, rfl⟩
          rw [getLast?_cons_cons]
          exact hy

lemma wronglyRetried_eq_false {previous next : TracedCall}
    (h : next.attempt ≠ 0 → previous.outcome = .retryable ∨ previous.outcome = .rateLimited) :
    wronglyRetried (previous, next) = false := by
  unfold wronglyRetried
  by_cases hattempt : next.attempt = previous.attempt + 1
  · rcases h (by omega) with houtcome | houtcome
    · simp [houtcome]
    · simp [houtcome]
  · simp [hattempt]

lemma Observed.Budgeted.step (budgeted : s.Budgeted w) (h : Observes lib w s drive s') :
    s'.Budgeted w := by
  cases h with
  | ignored => exact budgeted
  | asked nowMs step walk free next =>
    -- A node that becomes active is on its first attempt.
    constructor
    · rw [WalkTrace.calls_stepped]
      exact budgeted.calls
    · rw [WalkTrace.calls_stepped]
      exact budgeted.retried
    · intro a hcurrent
      rcases current_of_next next hcurrent with hsame | hfresh
      · exact budgeted.active a hsame
      · rw [hfresh]
        exact one_le_nodeBudget w a.node
    · intro a hcurrent hagain
      rw [WalkTrace.calls_stepped]
      rcases current_of_next next hcurrent with hsame | hfresh
      · exact budgeted.again a hsame hagain
      · exact absurd hfresh hagain
  | fed outcome nowMs a node walk held running active found applied =>
    constructor
    · intro call hcall
      rcases mem_append.1 hcall with hold | hnew
      · exact budgeted.calls call hold
      · obtain rfl := mem_singleton.1 hnew
        exact budgeted.active a active
    · intro pair hpair
      rcases mem_zip_tail_concat hpair with hold | ⟨last, hlast, rfl⟩
      · exact budgeted.retried pair hold
      · exact wronglyRetried_eq_false fun hagain => budgeted.again a active hagain last hlast
    · intro b hb
      obtain ⟨error, untilMs, throttle, -, -, budget, -, rfl⟩ :=
        applied.retried_of_current active hb
      show a.attempt + 1 + 1 ≤ nodeBudget w a.node
      rw [nodeBudget_eq found s.walk]
      exact of_decide_eq_true budget
    · intro b hb hagain last hlast
      rw [WalkTrace.applied, getLast?_concat] at hlast
      obtain rfl := Option.some_inj.1 hlast
      obtain ⟨error, untilMs, throttle, rfl, retries, -⟩ := applied.retried_of_current active hb
      cases error with
      | retryable => exact .inl rfl
      | rateLimited => exact .inr rfl
      | terminal | invalidInput => cases retries

/-! ## Terminal failures -/

/-- What WALK-6 asks for, while the walk goes on and once it has ended. -/
def Observed.Settles (w : Wiring) (s : Observed) : Prop :=
  ∀ last, s.trace.calls.getLast? = some last → last.outcome = .terminal →
    (w.successors last.node errorPort = [] → s.walk.status = .failed ∧
      ∃ detail, s.walk.failure = some ⟨last.node, .terminal, detail⟩) ∧
    (w.successors last.node errorPort ≠ [] →
      s.walk.status = .running ∧ s.walk.pending ≠ [] ∨
      s.walk.status = .failed ∧ ∃ failure, s.walk.failure = some failure ∧
        failure.kind = .hopLimit)

lemma eq_of_next_of_ended {step : Step} (h : Nexts w nowMs walk step walk')
    (ended : walk.status ≠ .running) : walk' = walk := by
  cases h with
  | ended => rfl
  | unreleased running => exact absurd running ended
  | settled running | waiting a running | spent a running | invoked a node running =>
    exact absurd running ended

/-- Asking a running walk with work to do leaves it so, or the hop limit ends it. -/
theorem running_or_spent_of_next {step : Step} (h : Nexts w nowMs walk step walk')
    (running : walk.status = .running) (work : walk.pending ≠ []) :
    walk'.status = .running ∧ walk'.pending ≠ [] ∨
      walk'.status = .failed ∧ ∃ failure, walk'.failure = some failure ∧
        failure.kind = .hopLimit := by
  cases h with
  | ended => exact .inl ⟨running, work⟩
  | unreleased _ idle empty | settled _ idle empty =>
    exact absurd (Walk.pending_eq_nil.2 ⟨idle, empty⟩) work
  | waiting =>
    left
    rw [Walk.status_promoted, Walk.pending_promoted]
    exact ⟨running, work⟩
  | spent => exact .inr ⟨rfl, _, rfl, rfl⟩
  | invoked =>
    left
    show walk.promoted.status = .running ∧ walk.promoted.pending ≠ []
    rw [Walk.status_promoted, Walk.pending_promoted]
    exact ⟨running, work⟩

lemma outcomeKind_eq_terminal (h : outcomeKind outcome = .terminal) :
    ∃ detail, outcome = .error (.terminal detail) := by
  unfold outcomeKind at h
  split at h
  · cases h
  · cases h
  · cases h
  · cases h
  · rename_i detail
    exact ⟨detail, rfl⟩
  · cases h

/-- A terminal failure takes the error edges, or it ends the walk if there are none. -/
theorem settles_of_applied {attempt : ℕ} (running : walk.status = .running)
    (h : Applied lib w walk attempt call (.error (.terminal detail)) walk') :
    (w.successors call.node errorPort = [] → walk'.status = .failed ∧
      ∃ detail, walk'.failure = some ⟨call.node, .terminal, detail⟩) ∧
    (w.successors call.node errorPort ≠ [] →
      walk'.status = .running ∧ walk'.pending ≠ []) := by
  cases h with
  | rerouted _ detail kind fails caught =>
    refine ⟨fun huncaught => absurd huncaught caught, fun _ => ⟨running, ?_⟩⟩
    show walk.frontier ++ w.tokens call.node errorPort detail.toErrorPayload ≠ []
    intro hnil
    exact caught (map_eq_nil_iff.1 (append_eq_nil_iff.1 hnil).2)
  | failed _ detail kind fails uncaught =>
    refine ⟨fun _ => ?_, fun hcaught => absurd uncaught hcaught⟩
    cases fails with
    | exhausted _ retries => cases retries
    | terminal => exact ⟨rfl, _, rfl⟩
  | retried error untilMs throttle bounded retries => cases retries

lemma Observed.Settles.step (settles : s.Settles w) (h : Observes lib w s drive s') :
    s'.Settles w := by
  cases h with
  | ignored => exact settles
  | asked nowMs step walk free next =>
    intro last hlast hterminal
    rw [WalkTrace.calls_stepped] at hlast
    obtain ⟨huncaught, hcaught⟩ := settles last hlast hterminal
    -- A failed walk stays as it is, and one with work to do goes on or meets the hop limit.
    constructor
    · intro hedges
      obtain ⟨hfailed, hfailure⟩ := huncaught hedges
      have hsame : walk = s.walk := eq_of_next_of_ended next (by simp [hfailed])
      rw [hsame]
      exact ⟨hfailed, hfailure⟩
    · intro hedges
      rcases hcaught hedges with ⟨hrunning, hwork⟩ | ⟨hfailed, hfailure⟩
      · exact running_or_spent_of_next next hrunning hwork
      · have hsame : walk = s.walk := eq_of_next_of_ended next (by simp [hfailed])
        rw [hsame]
        exact .inr ⟨hfailed, hfailure⟩
  | fed outcome nowMs a node walk held running active found applied =>
    intro last hlast hterminal
    rw [WalkTrace.applied, getLast?_concat] at hlast
    obtain rfl := Option.some_inj.1 hlast
    obtain ⟨detail, rfl⟩ := outcomeKind_eq_terminal hterminal
    obtain ⟨huncaught, hcaught⟩ := settles_of_applied running applied
    exact ⟨huncaught, fun hedges => .inl (hcaught hedges)⟩

/-! ## Whole runs -/

structure Observed.Tracks (w : Wiring) (s : Observed) : Prop where
  driven : s.Driven w
  paced : s.Paced w
  tallied : s.Tallied
  budgeted : s.Budgeted w
  settles : s.Settles w

lemma Wiring.arrivals_new (w : Wiring) (node : String) :
    (WalkTrace.new w).arrivals node = if node = w.entry then 1 else 0 := by
  show update (fun _ => 0) w.entry 1 node = _
  rw [update_apply]

lemma Observed.tracks_start (w : Wiring) (delivery : Delivery) :
    (Observed.start w delivery).Tracks w where
  driven := ⟨w.valid_start delivery, by simp [start]⟩
  paced := ⟨Nat.zero_le _, Nat.zero_le _, rfl, by simp [start, WalkTrace.new]⟩
  tallied := by
    have harrivals := w.arrivals_new
    refine ⟨fun target => ?_, by simp [start, WalkTrace.new], fun _ node => ?_⟩
    · show (WalkTrace.new w).arrivals target < 2 ^ 32
      rw [harrivals]
      split <;> decide
    · show 0 + tokensAt node [⟨w.entry, none, delivery.payload⟩] ≤ (WalkTrace.new w).arrivals node
      rw [harrivals, tokensAt, countP_singleton, Nat.zero_add]
      by_cases hentry : node = w.entry
      · simp [hentry]
      · simp [hentry, Ne.symm hentry]
  budgeted := by
    refine ⟨?_, ?_, ?_, ?_⟩
    · simp [start, WalkTrace.new]
    · simp [start, WalkTrace.new]
    · simp [start, Wiring.start]
    · simp [start, Wiring.start]
  settles := by simp [Settles, start, WalkTrace.new]

lemma Observed.Tracks.step (tracks : s.Tracks w) (tracked : drive.Tracked w s) :
    (observe lib w s drive).Tracks w := by
  have hobserves := observe_spec lib tracks.driven drive
  exact {
    driven := tracks.driven.step hobserves
    paced := tracks.paced.step hobserves
    tallied := tracks.tallied.step tracked hobserves
    budgeted := tracks.budgeted.step hobserves
    settles := tracks.settles.step hobserves }

lemma Observed.Tracks.clean (tracks : s.Tracks w) : Clean w s.walk s.trace where
  hops := tracks.paced.limit
  handed := by
    have hcalls := tracks.paced.calls
    have hlimit := tracks.paced.limit
    omega
  quiet := tracks.paced.quiet
  arrived := tracks.tallied.started
  budget := tracks.budgeted.calls
  retried := tracks.budgeted.retried
  waits := tracks.paced.waits
  last := by
    intro call hcall hterminal
    -- The failure of a caught call is that of the hop limit, so the check does not take it for one
    -- of the node.
    obtain ⟨huncaught, hcaught⟩ := tracks.settles call hcall hterminal
    refine ⟨huncaught, fun hedges failure hfailure => ?_⟩
    rcases hcaught hedges with ⟨hrunning, -⟩ | ⟨-, failure', hfailure', hkind⟩
    · have hnone := tracks.driven.valid.failure_eq_none (by simp [hrunning])
      rw [hnone] at hfailure
      cases hfailure
    · obtain rfl := Option.some_inj.1 (hfailure.symm.trans hfailure')
      exact hkind

/-- The checks pass along every run whose trace reads each outcome as the walk does, with counters
that do not wrap. -/
theorem check_of_steps (lib : Library) (quoted : Quoted) (w : Wiring) (delivery : Delivery)
    (s : Observed)
    (h : Steps (observe lib w) (fun s drive => drive.Tracked w s) (Observed.start w delivery) s) :
    check quoted w s.walk s.trace = .ok () := by
  have htracks : s.Tracks w := by
    apply h.invariant _ (Observed.tracks_start w delivery)
    intro before drive tracks tracked
    exact tracks.step tracked
  exact check_of_clean quoted htracks.clean

namespace Sample

/-- The checks pass after a node with an error edge failed. -/
theorem check_after_failure : ∃ w, answerOrReport = .ok w ∧
    let s := [Drive.ask 0, .feed (.error (.terminal (.coded "down" "no answer"))) 0].foldl
      (observe ⟨id, fun _ _ _ => none⟩ w) (Observed.start w ⟨"d", .null, true⟩)
    check ⟨id, fun _ => ""⟩ w s.walk s.trace = .ok () := by
  refine ⟨_, rfl, check_of_steps ⟨id, fun _ _ _ => none⟩ _ _ ⟨"d", .null, true⟩ _ ?_⟩
  rw [foldl_cons, foldl_cons, foldl_nil]
  refine ((Steps.refl _).tail trivial).tail ?_
  intro call hcall
  constructor
  · rintro ⟨payload, port, terminal, target, houtcome, -⟩
    cases houtcome
  · intro port target hport
    obtain rfl := Option.some_inj.1 hcall
    obtain rfl := Option.some_inj.1 hport
    have hroom : ∀ arrived added, arrived ≤ 1 → added ≤ 1 → arrived + added < 2 ^ 32 := by
      omega
    apply hroom
    · show (WalkTrace.new _).arrivals target ≤ 1
      rw [Wiring.arrivals_new]
      split <;> decide
    · unfold edgesTo
      exact le_trans countP_le_length (by decide)

/-- The run that raises the alarm: nobody waits for `answer`, and the error edge to `report` is
taken. -/
theorem check_fails_on_folded_refusal : ∃ w, answerOrReport = .ok w ∧
    let s := [Drive.ask 0, .feed (.success .null mainPort) 0, .ask 0,
        .feed (.success .null mainPort) 0].foldl
      (observe ⟨id, fun _ _ _ => none⟩ w) (Observed.start w ⟨"d", .null, false⟩)
    s.walk.status = .running ∧ check ⟨id, fun _ => ""⟩ w s.walk s.trace =
      .error ⟨"WALK-3", "node report started 1 visits for 0 arriving tokens"⟩ := by
  refine ⟨_, rfl, ?_, ?_⟩
  · decide
  · decide

end Sample

end Wamn.Workflow.Router
