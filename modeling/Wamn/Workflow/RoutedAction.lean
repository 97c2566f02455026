import Wamn.Workflow.RouterAction
import Wamn.Workflow.Router.Route
import Wamn.Workflow.Router.Verdict

/-!
# The action of a routed delivery

The translation of a router outcome refuses a walk that still runs, an answer that nobody waits for,
a discarded caller, a completion without a verdict and a failure that says nothing. No walk ends so,
and what `route` returns always has an action.
-/

namespace Wamn.Workflow

open Lib Lib.Json RunState Runtime

/-- What the run store is to do for a recorded verdict, with the result of the walk. -/
def verdictAction (result : Value) : Verdict → ProductionRouterAction
  | .respond payload nodeId =>
    .complete (.completed payload (some (.responded payload 200 nodeId)))
  | .emit event dedupId entity operation _ => .emit event dedupId entity operation
  | .discard => .complete (.completed result none)

namespace Router

/-! ## The verdict and the caller -/

/-- An answer is for a caller, and only what nobody waits for is discarded. -/
def Verdict.Fits (callerAttached : Bool) : Verdict → Prop
  | .respond _ _ => callerAttached = true
  | .emit _ _ _ _ _ => True
  | .discard => callerAttached = false

/-- The walk of a delivery with or without a caller. -/
structure Walk.Answers (callerAttached : Bool) (walk : Walk) : Prop where
  attached : walk.callerAttached = callerAttached
  fits : ∀ verdict, walk.verdict = some verdict → Verdict.Fits callerAttached verdict

variable {lib : Library} {w : Wiring} {invoker : NodeInvoker} {delivery : Delivery}
  {walk walk' : Walk} {r r' : Routing}

lemma fits_of_concludes {operation : Operation} {verdict : Verdict}
    (h : operation.Concludes w delivery walk verdict) :
    Verdict.Fits delivery.callerAttached verdict := by
  cases h with
  | respond call payload port nowMs caller => exact caller
  | emit => trivial
  | discard nowMs nobody => exact nobody

section

variable (h : walk.Answers delivery.callerAttached)

include h

/-- Keeping the verdict or recording one that an operation concludes with. -/
theorem Walk.Answers.of_verdict (same : walk'.callerAttached = walk.callerAttached) {start : Walk}
    {operation : Operation}
    (hverdict : walk'.verdict = walk.verdict ∨ walk.verdict = none ∧ ∃ verdict,
      walk'.verdict = some verdict ∧ operation.Concludes w delivery start verdict) :
    walk'.Answers delivery.callerAttached := by
  refine ⟨same.trans h.attached, fun verdict hsome => ?_⟩
  rcases hverdict with hkept | ⟨-, recorded, hrecorded, hconcludes⟩
  · exact h.fits verdict (hkept.symm.trans hsome)
  · obtain rfl : recorded = verdict := Option.some_inj.1 (hrecorded.symm.trans hsome)
    exact fits_of_concludes hconcludes

lemma Walk.Answers.next {nowMs : ℕ} {step : Step} (hnext : Nexts w nowMs walk step walk') :
    walk'.Answers delivery.callerAttached :=
  h.of_verdict (Wiring.callerAttached_next hnext) (Wiring.verdict_next hnext h.attached)

lemma Walk.Answers.applied {attempt : ℕ} {call : NodeCall} {outcome : NodeOutcome}
    (happlied : Applied lib w walk attempt call outcome walk') :
    walk'.Answers delivery.callerAttached :=
  h.of_verdict happlied.callerAttached_eq (Wiring.verdict_applied happlied h.attached 0)

lemma Walk.Answers.promoted {hops : ℕ} :
    ({ walk.promoted with hops := hops } : Walk).Answers delivery.callerAttached where
  attached := walk.callerAttached_promoted.trans h.attached
  fits := fun verdict hsome => h.fits verdict (walk.verdict_promoted.symm.trans hsome)

end

/-! ## Along a run -/

lemma answers_of_iterates (h : Iterates (turn lib w invoker) (Routing.start w delivery) r) :
    r.walk.Valid w ∧ r.walk.Answers delivery.callerAttached := by
  refine h.invariant
    (I := fun r => r.walk.Valid w ∧ r.walk.Answers delivery.callerAttached) ?_
    ⟨w.valid_start delivery, rfl, nofun⟩
  rintro r r' ⟨hvalid, hanswers⟩ hturn
  obtain ⟨result, hresult, hturns⟩ := turn_spec lib invoker hvalid
  obtain rfl := Except.ok.inj (hturn.symm.trans hresult)
  cases hturns with
  | waited a running active early =>
    have hnexts := Nexts.waiting (w := w) a running active early
    exact ⟨Wiring.valid_next hnexts hvalid, hanswers.next hnexts⟩
  | invoked a node outcome walk appliedMs invokes =>
    exact ⟨invokes.valid hvalid, hanswers.promoted.applied invokes.applied⟩

lemma status_of_done {nowMs : ℕ} {status : WalkStatus}
    (h : Nexts w nowMs walk (.done status) walk') :
    walk'.status = status ∧ status ≠ .running := by
  cases h with
  | ended terminal =>
    refine ⟨rfl, fun hrunning => ?_⟩
    rw [hrunning] at terminal
    cases terminal
  | unreleased | settled | spent => exact ⟨rfl, nofun⟩

lemma exists_walk_of_route {fuel : ℕ} {routed : Routed} {history : List Event}
    (h : route lib delivery w invoker fuel = .ok (some (routed, history))) :
    ∃ walk : Walk, routed = walk.report walk.status ∧ walk.status ≠ .running ∧ walk.Valid w ∧
      walk.Answers delivery.callerAttached := by
  obtain ⟨r, hiterates, hreturn⟩ := loop_eq_some h
  obtain ⟨hvalid, hanswers⟩ := answers_of_iterates hiterates
  obtain ⟨result, hresult, hturns⟩ := turn_spec lib invoker hvalid
  obtain rfl := Except.ok.inj (hreturn.symm.trans hresult)
  cases hturns with
  | returned status walk hnext =>
    obtain ⟨rfl, hdone⟩ := status_of_done hnext
    exact ⟨walk, rfl, hdone, Wiring.valid_next hnext hvalid, hanswers.next hnext⟩

end Router

/-! ## The translation -/

section Translation

variable {outcome : Outcome} {callerAttached : Bool}

lemma productionRouterAction_of_verdict {verdict : Verdict} (done : outcome.status ≠ .running)
    (recorded : outcome.verdict = some verdict)
    (fits : Router.Verdict.Fits callerAttached verdict) :
    productionRouterAction outcome callerAttached = .ok (verdictAction outcome.result verdict) := by
  rw [productionRouterAction, if_neg done, recorded]
  cases verdict with
  | respond payload nodeId => exact if_pos fits
  | emit => rfl
  | discard =>
    obtain rfl : callerAttached = false := fits
    rfl

lemma productionRouterAction_of_cancelled (cancelled : outcome.status = .cancelled)
    (silent : outcome.verdict = none) :
    productionRouterAction outcome callerAttached = .ok .cancelled := by
  simp only [productionRouterAction, cancelled, silent]
  rfl

lemma productionRouterAction_of_failed {failure : Failure} (failed : outcome.status = .failed)
    (silent : outcome.verdict = none) (recorded : outcome.failure = some failure) :
    productionRouterAction outcome callerAttached = .ok (.complete (.failed (failureBody failure)
      (persistedRouterFailure failure.kind)
      (if callerAttached then some (.failed (failureBody failure) 500 (some failure.node))
        else none))) := by
  simp only [productionRouterAction, failed, silent, recorded]
  rfl

lemma verdictAction_ne_cancelled (result : Value) (verdict : Verdict) :
    verdictAction result verdict ≠ .cancelled := by
  cases verdict <;> exact nofun

end Translation

/-- What `route` returns is translated without an error. A recorded verdict decides; without one a
cancelled walk is left to redelivery, and any other run completed as failed, with an outcome for the
caller exactly if one waits. -/
theorem productionRouterAction_route (lib : Router.Library) (delivery : Router.Delivery)
    (w : Router.Wiring) (invoker : Router.NodeInvoker) (fuel : ℕ) (routed : Router.Routed)
    (history : List Router.Event)
    (h : Router.route lib delivery w invoker fuel = .ok (some (routed, history))) :
    ∃ action, productionRouterAction routed.toOutcome delivery.callerAttached = .ok action ∧
      (∀ verdict, routed.verdict = some verdict → action = verdictAction routed.result verdict) ∧
      (action = .cancelled ↔ routed.status = .cancelled ∧ routed.verdict = none) ∧
      (routed.verdict = none → routed.status ≠ .cancelled → ∃ body failType caller,
        action = .complete (.failed body failType caller) ∧
        caller.isSome = delivery.callerAttached) := by
  obtain ⟨walk, rfl, hdone, hvalid, hanswers⟩ := Router.exists_walk_of_route h
  cases hverdict : walk.verdict with
  | some verdict =>
    refine ⟨_, productionRouterAction_of_verdict hdone hverdict (hanswers.fits verdict hverdict),
      fun verdict' h' => ?_, ?_, fun hnone => ?_⟩
    · rw [Option.some_inj.1 (hverdict.symm.trans h')]
    · refine iff_of_false (verdictAction_ne_cancelled _ _) fun hsilent => ?_
      cases hverdict.symm.trans hsilent.2
    · cases hverdict.symm.trans hnone
  | none =>
    cases hstatus : walk.status with
    | running => exact absurd hstatus hdone
    | completed =>
      -- A completed walk has a verdict.
      have hsome := (hvalid.completed hstatus).2.2.1
      rw [hverdict] at hsome
      cases hsome
    | cancelled =>
      refine ⟨_, productionRouterAction_of_cancelled rfl hverdict, fun verdict h' => ?_,
        iff_of_true rfl ⟨rfl, hverdict⟩, fun _ hnot => absurd rfl hnot⟩
      cases hverdict.symm.trans h'
    | failed =>
      obtain ⟨failure, hfailure⟩ := Option.isSome_iff_exists.1 (hvalid.failed.1 hstatus)
      refine ⟨_, productionRouterAction_of_failed rfl hverdict hfailure, fun verdict h' => ?_,
        iff_of_false nofun nofun, fun _ _ => ⟨_, _, _, rfl, ?_⟩⟩
      · cases hverdict.symm.trans h'
      · cases delivery.callerAttached <;> rfl

namespace Router.Sample

/-- The delivery whose node asks for one retry ends with an action. -/
theorem action_retryOnce : ∃ w routed history, answerOrReport = .ok w ∧
    route ⟨id, fun _ _ _ => none⟩ ⟨"d", .null, true⟩ w retryOnce 10 =
      .ok (some (routed, history)) ∧ routed.verdict.isSome = true ∧
    ∃ action, productionRouterAction routed.toOutcome true = .ok action ∧
      (∀ verdict, routed.verdict = some verdict → action = verdictAction routed.result verdict) ∧
      (action = .cancelled ↔ routed.status = .cancelled ∧ routed.verdict = none) ∧
      (routed.verdict = none → routed.status ≠ .cancelled → ∃ body failType caller,
        action = .complete (.failed body failType caller) ∧ caller.isSome = true) := by
  have hroute : ∃ w routed history, answerOrReport = .ok w ∧
      route ⟨id, fun _ _ _ => none⟩ ⟨"d", .null, true⟩ w retryOnce 10 =
        .ok (some (routed, history)) ∧ routed.verdict.isSome = true := ⟨_, _, _, rfl, rfl, rfl⟩
  obtain ⟨w, routed, history, hw, hroute, hverdict⟩ := hroute
  exact ⟨w, routed, history, hw, hroute, hverdict,
    productionRouterAction_route _ _ _ _ _ _ _ hroute⟩

end Router.Sample

end Wamn.Workflow
