import Wamn.Workflow.Router.Route

/-!
# The attempts of a visit

A promoted token begins a visit of its node, which goes on over waits and attempts until an outcome
is folded otherwise than by a retry. `Visited` follows the visits of a run of `route` by the active
slot, not by the numbers that the calls carry.
-/

namespace Wamn.Workflow.Router

open Option List Lib Lib.Json

/-! ## Visits -/

/-- The calls of a visit with what they returned, and the kind of failure it ended with. -/
structure NodeVisit where
  attempts : List (NodeCall × NodeOutcome)
  failure : Option FailureKind

def calls (history : List Event) : List (NodeCall × NodeOutcome) :=
  history.filterMap fun
    | .invoked call outcome => some (call, outcome)
    | .clock _ | .waited _ _ _ => none

/-- The visits after one more attempt, in a new visit or in the last one. -/
def record (fresh : Bool) (visits : List NodeVisit) (attempt : NodeCall × NodeOutcome)
    (failure : Option FailureKind) : List NodeVisit :=
  if fresh then visits ++ [⟨[attempt], failure⟩]
  else match visits.getLast? with
    | some visit => visits.dropLast ++ [⟨visit.attempts ++ [attempt], failure⟩]
    | none => [⟨[attempt], failure⟩]

/-- The visits of a run up to a state of its loop. -/
inductive Visited (lib : Library) (w : Wiring) (invoker : NodeInvoker) (delivery : Delivery) :
    Routing → List NodeVisit → Prop where
  | start : Visited lib w invoker delivery (Routing.start w delivery) []
  /-- An iteration without an invocation. -/
  | waited {r r' : Routing} {visits : List NodeVisit}
    (before : Visited lib w invoker delivery r visits)
      (turned : turn lib w invoker r = .ok (.inl r')) (same : calls r'.history = calls r.history) :
      Visited lib w invoker delivery r' visits
  /-- An iteration with an invocation. The visit is a new one if no token was active. -/
  | invoked {r r' : Routing} {visits : List NodeVisit} {call : NodeCall} {outcome : NodeOutcome}
      {failure : Option FailureKind} (before : Visited lib w invoker delivery r visits)
      (turned : turn lib w invoker r = .ok (.inl r'))
      (called : calls r'.history = calls r.history ++ [(call, outcome)])
      (failed : ∀ kind, failure = some kind ↔ ∃ detail, Fails lib w
        { r.walk.promoted with hops := r.walk.promoted.hops + 1 } call.attempt call outcome detail
        kind) :
      Visited lib w invoker delivery r'
        (record r.walk.current.isNone visits (call, outcome) failure)

/-- The most attempts that a configuration allows. -/
def attemptLimit (config : Value) : ℕ := max 1 (RetryPolicy.fromConfig config).maxAttempts

/-- What holds of every visit. -/
structure NodeVisit.Regular (w : Wiring) (visit : NodeVisit) : Prop where
  nonempty : visit.attempts ≠ []
  /-- The attempts are numbered from zero, and are otherwise one call. -/
  alike : ∃ name node inputPort payload occurrence, w.node name = some node ∧
    ∀ (i : ℕ) (call : NodeCall) (outcome : NodeOutcome),
      visit.attempts[i]? = some (call, outcome) →
      call.node = name ∧ call.config = node.config ∧ call.inputPort = inputPort ∧
      call.payload = payload ∧ call.occurrence = occurrence ∧ call.attempt = i
  /-- There are no more of them than the configuration allows, and so many if the visit ended for
  want of more. -/
  bounded : ∀ (call : NodeCall) (outcome : NodeOutcome), (call, outcome) ∈ visit.attempts →
    visit.attempts.length ≤ attemptLimit call.config ∧
    (visit.failure = some .retryExhausted → visit.attempts.length = attemptLimit call.config)
  /-- All but the last asked to be tried again. -/
  retried : ∀ (i : ℕ) (call : NodeCall) (outcome : NodeOutcome),
    visit.attempts[i]? = some (call, outcome) →
    i + 1 < visit.attempts.length → ∃ error, outcome = .error error ∧ error.retries = true

/-! ## The visit that goes on -/

/-- The last visit goes on: the active node was tried, and is to be tried again. -/
structure NodeVisit.Ongoing (w : Wiring) (walk : Walk) (a : Active) (visit : NodeVisit) : Prop where
  length : visit.attempts.length = a.attempt
  tried : 0 < a.attempt
  /-- Every call was that of the active node, with its own number. -/
  same : ∃ node, w.node a.node = some node ∧ a.attempt < attemptLimit node.config ∧
    ∀ i call outcome, visit.attempts[i]? = some (call, outcome) →
      call = Wiring.nodeCall walk { a with attempt := i } node ∧
      ∃ error, outcome = .error error ∧ error.retries = true

/-- What holds of the visits between two iterations. -/
structure Tracks (w : Wiring) (r : Routing) (visits : List NodeVisit) : Prop where
  valid : r.walk.Valid w
  recorded : calls r.history = visits.flatMap NodeVisit.attempts
  regular : ∀ visit ∈ visits, visit.Regular w
  ongoing : ∀ a, r.walk.current = some a → ∃ before visit, visits = before ++ [visit] ∧
    visit.Ongoing w r.walk a

section Steps

variable {lib : Library} {w : Wiring} {walk walk' : Walk} {a : Active} {node : WiringNode}
  {outcome : NodeOutcome} {failure : Option FailureKind} {visits : List NodeVisit} {r r' : Routing}

lemma calls_append (history more : List Event) :
    calls (history ++ more) = calls history ++ calls more :=
  filterMap_append ..

lemma mayRetry_eq_true {config : Value} {attempt : ℕ} :
    (RetryPolicy.fromConfig config).mayRetry attempt = true ↔
      attempt + 1 < attemptLimit config := by
  rw [RetryPolicy.mayRetry, decide_eq_true_iff, attemptLimit, Nat.max_comm]

lemma attempt_of_exhausted {attempt : ℕ} {call : NodeCall} {detail : ErrorDetail}
    (h : Fails lib w walk attempt call outcome detail .retryExhausted)
    (hle : attempt < attemptLimit call.config) : attempt + 1 = attemptLimit call.config := by
  generalize hkind : FailureKind.retryExhausted = kind at h
  cases h with
  | exhausted error retries spent =>
    have hnot : ¬ attempt + 1 < attemptLimit call.config := by
      rw [← mayRetry_eq_true]
      simp [spent]
    omega
  | refused payload port terminal refusal kind code declared decided data =>
    subst hkind
    cases refusal <;> simp [ApplyError.nodeDataFailure] at data
  | unkeyed | terminal | invalidInput => cases hkind

lemma regular_of_attempts {attempts : List (NodeCall × NodeOutcome)}
    (found : w.node a.node = some node) (hlength : attempts.length = a.attempt)
    (hlimit : a.attempt < attemptLimit node.config)
    (hsame : ∀ i call outcome, attempts[i]? = some (call, outcome) →
      call = Wiring.nodeCall walk { a with attempt := i } node ∧
      ∃ error, outcome = .error error ∧ error.retries = true)
    (hfailure : ∀ kind, failure = some kind ↔ ∃ detail, Fails lib w walk' a.attempt
      (Wiring.nodeCall walk a node) outcome detail kind) :
    (⟨attempts ++ [(Wiring.nodeCall walk a node, outcome)], failure⟩ : NodeVisit).Regular w := by
  have hcases : ∀ i call outcome',
      (attempts ++ [(Wiring.nodeCall walk a node, outcome)])[i]? = some (call, outcome') →
      call = Wiring.nodeCall walk { a with attempt := i } node ∧
        (i < attempts.length → ∃ error, outcome' = .error error ∧ error.retries = true) := by
    intro i call outcome' hget
    by_cases hi : i < attempts.length
    · rw [getElem?_append_left hi] at hget
      exact ⟨(hsame i call outcome' hget).1, fun _ => (hsame i call outcome' hget).2⟩
    · rw [getElem?_append_right (not_lt.1 hi), getElem?_singleton] at hget
      split at hget
      · rename_i hzero
        obtain ⟨rfl, rfl⟩ := Prod.mk.inj (some_inj.1 hget)
        have hattempt : i = a.attempt := by omega
        exact ⟨by rw [hattempt], fun hlt => absurd hlt hi⟩
      · cases hget
  exact {
    nonempty := by simp
    alike := ⟨a.node, node, a.inputPort, a.payload, walk.visits a.node, found,
      fun i call outcome' hget => by
        obtain ⟨rfl, -⟩ := hcases i call outcome' hget
        exact ⟨rfl, rfl, rfl, rfl, rfl, rfl⟩⟩
    bounded := by
      intro call outcome' hmem
      obtain ⟨i, hi⟩ := mem_iff_getElem?.1 hmem
      obtain ⟨rfl, -⟩ := hcases i call outcome' hi
      simp only [length_append, length_singleton, hlength]
      refine ⟨hlimit, fun hexhausted => ?_⟩
      obtain ⟨detail, hfails⟩ := (hfailure _).1 hexhausted
      have hlast : a.attempt + 1 = attemptLimit (Wiring.nodeCall walk a node).config :=
        attempt_of_exhausted hfails hlimit
      exact hlast
    retried := by
      intro i call outcome' hget hlt
      simp only [length_append, length_singleton] at hlt
      exact (hcases i call outcome' hget).2 (by omega) }

/-- The attempts of the visit that the active node is in, before its next one. -/
theorem Tracks.attempts (h : Tracks w r visits) (active : r.walk.promoted.current = some a)
    (found : w.node a.node = some node) :
    ∃ before attempts,
      visits.flatMap NodeVisit.attempts = before.flatMap NodeVisit.attempts ++ attempts ∧
      (∀ visit ∈ before, visit ∈ visits) ∧
      (∀ attempt failure, record r.walk.current.isNone visits attempt failure =
        before ++ [⟨attempts ++ [attempt], failure⟩]) ∧
      attempts.length = a.attempt ∧ a.attempt < attemptLimit node.config ∧
      ∀ i call outcome, attempts[i]? = some (call, outcome) →
        call = Wiring.nodeCall r.walk { a with attempt := i } node ∧
        ∃ error, outcome = .error error ∧ error.retries = true := by
  rcases Walk.promoted_cases active with hcurrent | ⟨hidle, token, rfl⟩
  · obtain ⟨before, visit, rfl, hongoing⟩ := h.ongoing a hcurrent
    obtain ⟨node', hnode', hlimit, hsame⟩ := hongoing.same
    obtain rfl : node = node' := some_inj.1 (found.symm.trans hnode')
    refine ⟨before, visit.attempts, by simp, fun v hv => by simp [hv], fun attempt failure => ?_,
      hongoing.length, hlimit, hsame⟩
    simp [record, hcurrent]
  · -- The token is fresh, and its visit has no attempts yet.
    refine ⟨visits, [], by simp, fun v hv => hv, fun attempt failure => by simp [record, hidle],
      rfl, ?_, by simp⟩
    exact lt_of_lt_of_le Nat.zero_lt_one (Nat.le_max_left _ _)

lemma Tracks.invoked (h : Tracks w r visits) {nowMs : ℕ}
    (invokes : w.Invokes lib r.walk nowMs a node outcome walk)
    (hcalls : calls r'.history = calls r.history ++ [(Wiring.nodeCall r.walk a node, outcome)])
    (hwalk : r'.walk = walk)
    (hfailure : ∀ kind, failure = some kind ↔ ∃ detail, Fails lib w
      { r.walk.promoted with hops := r.walk.promoted.hops + 1 } a.attempt
      (Wiring.nodeCall r.walk a node) outcome detail kind) :
    Tracks w r' (record r.walk.current.isNone visits (Wiring.nodeCall r.walk a node, outcome)
      failure) := by
  have hvalid := invokes.valid h.valid
  obtain ⟨-, active, -, -, found, applied⟩ := invokes
  obtain ⟨before, attempts, hflat, hbefore, hrecord, hlength, hlimit, hsame⟩ :=
    h.attempts active found
  rw [hrecord]
  exact {
    valid := hwalk ▸ hvalid
    recorded := by
      rw [hcalls, h.recorded, hflat]
      simp
    regular := by
      intro visit hvisit
      rcases mem_append.1 hvisit with hvisit | hvisit
      · exact h.regular visit (hbefore visit hvisit)
      · obtain rfl := mem_singleton.1 hvisit
        exact regular_of_attempts found hlength hlimit hsame hfailure
    ongoing := by
      intro b hb
      rw [hwalk] at hb
      obtain ⟨error, untilMs, throttle, rfl, hretries, hbudget, -, rfl⟩ :=
        applied.retried_of_current active hb
      refine ⟨before, _, rfl, ?_⟩
      -- A retry leaves the counters of visits as they are.
      have hvisits : r'.walk.visits = r.walk.visits := by
        rw [hwalk]
        cases applied with
        | rerouted | failed => cases hb
        | retried => exact r.walk.visits_promoted
      have hcall : ∀ b : Active, Wiring.nodeCall r'.walk b node =
          Wiring.nodeCall r.walk b node := by
        intro b
        rw [Wiring.nodeCall, Wiring.nodeCall, hvisits]
      refine ⟨by simp [hlength], Nat.succ_pos _, node, found, mayRetry_eq_true.1 hbudget, ?_⟩
      intro i call outcome' hget
      rw [hcall]
      by_cases hi : i < attempts.length
      · rw [getElem?_append_left hi] at hget
        exact hsame i call outcome' hget
      · rw [getElem?_append_right (not_lt.1 hi), getElem?_singleton] at hget
        split at hget
        · obtain ⟨rfl, rfl⟩ := Prod.mk.inj (some_inj.1 hget)
          have hattempt : i = a.attempt := by omega
          subst hattempt
          exact ⟨rfl, error, rfl, hretries⟩
        · cases hget }

lemma Tracks.waited {nowMs : ℕ} (h : Tracks w r visits)
    (active : r.walk.promoted.current = some a) (early : nowMs < a.retryUntilMs)
    (hcalls : calls r'.history = calls r.history) (hwalk : r'.walk = r.walk.promoted) :
    Tracks w r' visits := by
  have hsame : r.walk.promoted = r.walk := by
    rcases Walk.promoted_cases active with hcurrent | ⟨-, token, rfl⟩
    · exact Walk.promoted_of_current hcurrent
    · exact absurd early (Nat.not_lt_zero _)
  exact {
    valid := hwalk ▸ hsame.symm ▸ h.valid
    recorded := hcalls.trans h.recorded
    regular := h.regular
    ongoing := by
      rw [hwalk, hsame]
      exact h.ongoing }

end Steps

/-! ## Whole runs -/

section Runs

variable {lib : Library} {w : Wiring} {invoker : NodeInvoker} {delivery : Delivery}
  {r r' : Routing} {visits : List NodeVisit}

lemma exists_failure (lib : Library) (w : Wiring) (walk : Walk) (attempt : ℕ) (call : NodeCall)
    (outcome : NodeOutcome) :
    ∃ failure : Option FailureKind, ∀ kind, failure = some kind ↔
      ∃ detail, Fails lib w walk attempt call outcome detail kind := by
  have hunique : ∀ kind kind' detail detail', Fails lib w walk attempt call outcome detail kind →
      Fails lib w walk attempt call outcome detail' kind' → kind = kind' := by
    intro kind kind' detail detail' h h'
    cases h with
    | refused payload port terminal refusal kind code declared decided data =>
      cases h' with
      | refused _ _ terminal' refusal' kind' code' declared' decided' data' =>
        obtain rfl := some_inj.1 (declared.symm.trans declared')
        obtain rfl := Except.error.inj (decided.symm.trans decided')
        exact congrArg Prod.fst (some_inj.1 (data.symm.trans data'))
      | unkeyed _ _ terminal' declared' decided' =>
        obtain rfl := some_inj.1 (declared.symm.trans declared')
        rw [decided] at decided'
        cases decided'
    | unkeyed payload port terminal declared decided =>
      cases h' with
      | refused _ _ terminal' refusal' kind' code' declared' decided' data' =>
        obtain rfl := some_inj.1 (declared.symm.trans declared')
        rw [decided] at decided'
        cases decided'
      | unkeyed => rfl
    | exhausted error retries spent =>
      cases h' with
      | exhausted => rfl
      | terminal | invalidInput => cases retries
    | terminal =>
      cases h' with
      | exhausted _ retries => cases retries
      | terminal => rfl
    | invalidInput =>
      cases h' with
      | exhausted _ retries => cases retries
      | invalidInput => rfl
  by_cases h : ∃ kind detail, Fails lib w walk attempt call outcome detail kind
  · obtain ⟨kind, detail, hfails⟩ := h
    refine ⟨some kind, fun kind' => ⟨?_, ?_⟩⟩
    · rintro hkind
      exact ⟨detail, some_inj.1 hkind ▸ hfails⟩
    · rintro ⟨detail', hfails'⟩
      rw [hunique _ _ _ _ hfails hfails']
  · refine ⟨none, fun kind => ⟨nofun, fun hkind => absurd ⟨kind, hkind⟩ h⟩⟩

lemma Tracks.turn (h : Tracks w r visits) (turned : Router.turn lib w invoker r = .ok (.inl r')) :
    (calls r'.history = calls r.history ∧ Tracks w r' visits) ∨
      ∃ call outcome, calls r'.history = calls r.history ++ [(call, outcome)] ∧
        ∀ failure, (∀ kind, failure = some kind ↔ ∃ detail, Fails lib w
            { r.walk.promoted with hops := r.walk.promoted.hops + 1 } call.attempt call outcome
            detail kind) →
          Tracks w r' (record r.walk.current.isNone visits (call, outcome) failure) := by
  obtain ⟨result, hresult, hturns⟩ := turn_spec lib invoker h.valid
  obtain rfl := Except.ok.inj (turned.symm.trans hresult)
  cases hturns with
  | waited a running active early =>
    have hcalls : calls (r.history ++ [.clock (invoker.nowMs r.history),
        .waited a.node a.retryUntilMs a.throttle]) = calls r.history := by
      rw [calls_append]
      exact append_nil _
    exact .inl ⟨hcalls, h.waited active early hcalls rfl⟩
  | invoked a node outcome walk appliedMs invokes =>
    refine .inr ⟨Wiring.nodeCall r.walk a node, outcome, calls_append _ _,
      fun failure hfailure => ?_⟩
    exact h.invoked invokes (calls_append _ _) rfl hfailure

lemma tracks_start (w : Wiring) (delivery : Delivery) :
    Tracks w (Routing.start w delivery) [] where
  valid := w.valid_start delivery
  recorded := rfl
  regular := by simp
  ongoing := by simp [Routing.start, Wiring.start]

lemma Visited.tracks (h : Visited lib w invoker delivery r visits) : Tracks w r visits := by
  induction h with
  | start => exact tracks_start w delivery
  | waited before turned same ih =>
    rcases ih.turn turned with ⟨-, htracks⟩ | ⟨call, outcome, hcalls, -⟩
    · exact htracks
    · rw [hcalls] at same
      simp at same
  | invoked before turned called failed ih =>
    rcases ih.turn turned with ⟨hcalls, -⟩ | ⟨call, outcome, hcalls, htracks⟩
    · rw [hcalls] at called
      simp at called
    · rw [hcalls] at called
      have hlast := (append_inj' called rfl).2
      obtain ⟨rfl, rfl⟩ := Prod.mk.inj (List.cons.inj hlast).1
      exact htracks _ failed

lemma exists_visited (h : Iterates (Router.turn lib w invoker) (Routing.start w delivery) r) :
    ∃ visits, Visited lib w invoker delivery r visits := by
  refine h.invariant (I := fun r => ∃ visits, Visited lib w invoker delivery r visits) ?_
    ⟨[], .start⟩
  rintro r r' ⟨visits, hvisited⟩ turned
  rcases hvisited.tracks.turn turned with ⟨hcalls, -⟩ | ⟨call, outcome, hcalls, -⟩
  · exact ⟨_, .waited hvisited turned hcalls⟩
  · obtain ⟨failure, hfailure⟩ := exists_failure lib w
      { r.walk.promoted with hops := r.walk.promoted.hops + 1 } call.attempt call outcome
    exact ⟨_, .invoked hvisited turned hcalls hfailure⟩

/-- In every run of `route`, up to every state of its loop, the invocations are those of its visits,
one after the other, and every visit is regular. -/
theorem visits_regular (lib : Library) (w : Wiring) (invoker : NodeInvoker) (delivery : Delivery)
    (r : Routing) (h : Iterates (Router.turn lib w invoker) (Routing.start w delivery) r) :
    (∃ visits, Visited lib w invoker delivery r visits) ∧
      (∀ visits, Visited lib w invoker delivery r visits →
        calls r.history = visits.flatMap NodeVisit.attempts ∧ ∀ visit ∈ visits, visit.Regular w) ∧
      ∀ routed history, Router.turn lib w invoker r = .ok (.inr (routed, history)) →
        calls history = calls r.history := by
  obtain ⟨visits, hvisited⟩ := exists_visited h
  refine ⟨⟨visits, hvisited⟩, fun visits hvisited => ?_, fun routed history hreturn => ?_⟩
  · exact ⟨hvisited.tracks.recorded, hvisited.tracks.regular⟩
  · obtain ⟨result, hresult, hturns⟩ := turn_spec lib invoker hvisited.tracks.valid
    obtain rfl := Except.ok.inj (hreturn.symm.trans hresult)
    cases hturns with
    | returned status walk next =>
      rw [calls_append]
      exact append_nil _

end Runs

namespace Sample

/-- A node that is tried, waited for and tried again: both attempts are of one visit. -/
theorem visits_retryOnce : ∃ w r, answerOrReport = .ok w ∧
    Iterates (Router.turn ⟨id, fun _ _ _ => none⟩ w retryOnce)
      (Routing.start w ⟨"d", .null, true⟩) r ∧
    (calls r.history).length = 2 ∧
    (∃ visits, Visited ⟨id, fun _ _ _ => none⟩ w retryOnce ⟨"d", .null, true⟩ r visits) ∧
      (∀ visits, Visited ⟨id, fun _ _ _ => none⟩ w retryOnce ⟨"d", .null, true⟩ r visits →
        calls r.history = visits.flatMap NodeVisit.attempts ∧ ∀ visit ∈ visits, visit.Regular w) ∧
      ∀ routed history, Router.turn ⟨id, fun _ _ _ => none⟩ w retryOnce r =
        .ok (.inr (routed, history)) → calls history = calls r.history := by
  refine ⟨_, _, rfl, .tail (.tail (.tail .refl rfl) rfl) rfl, ?_, visits_regular _ _ _ _ _
    (.tail (.tail (.tail .refl rfl) rfl) rfl)⟩
  rfl

end Sample

end Wamn.Workflow.Router
