import Wamn.Workflow.Queue

/-!
# Callers that wait for a queued run

A run of an HTTP, internal or studio trigger has a caller that waits for its stored outcome. Every
ending stores one, except the refusal of a claimed run without a workflow: `drain_one` ends the run
and passes no outcome on.
-/

namespace Wamn.Workflow

open Option List Lib Lib.Json RunState Runtime RunPlane

variable {J : Type} {pg : Postgres J} {p : Plane J}

/-! ## What a transaction does to waiting callers -/

/-- Every ended run with a caller has released it. -/
def NoneStranded (p : Plane J) : Prop :=
  ∀ id r, p.run id = some r → r.durableCallerAttached = true → r.status.isTerminal = true →
    r.callerReleasedAt.isSome = true

/-- The action brings an outcome for the caller of the run it ends. -/
def AnswersCaller (p : Plane J) : Action J → Prop
  | .complete _ id _ completion _ =>
    ∀ r, p.run id = some r → r.durableCallerAttached = true → completion.caller.isSome = true
  | .terminalize _ _ => False
  | _ => True

variable {a : Action J} {h : Holding} {progress : Progress}

lemma durableCallerAttached_rowChange {id : RunId} {grant : Option Grant} {r : Run J}
    {q q' : Option QueueRow} {r' : Option (Run J)} (h : RowChange pg id a grant (some r) q r' q') :
    ∃ kept, r' = some kept ∧ kept.durableCallerAttached = r.durableCallerAttached := by
  cases h with
  | grantRefused _ _ _ _ _ q | granted _ _ _ _ _ q =>
    have hcaller : (reclaimed r q).durableCallerAttached = r.durableCallerAttached :=
      reclaimed_rec (P := (·.durableCallerAttached = r.durableCallerAttached)) rfl rfl
    exact ⟨_, rfl, hcaller⟩
  | completed _ _ _ _ _ settled _ _ _ caller => exact ⟨_, rfl, caller.durableCallerAttached⟩
  | _ => exact ⟨_, rfl, rfl⟩

lemma callerReleasedAt_withExhaustion {r : Run J} (e : Exhaustion) (json : J) (hash : String)
    (instant : Instant) (hattached : r.durableCallerAttached = true) :
    (r.withExhaustion e json hash instant).callerReleasedAt.isSome = true := by
  cases hreleased : r.callerReleasedAt <;>
    simp [Run.withExhaustion, Run.unreleasedAttached, hattached, hreleased]

lemma NoneStranded.step (h : NoneStranded p) (ha : AnswersCaller p a) :
    NoneStranded (RunPlane.step pg p a) := by
  rcases step_rowChange pg p a with ⟨hsame, -⟩ | ⟨id, r', q', hrow, hrewrites⟩
  · rwa [hsame]
  intro id' r hr hattached hended
  rw [(hrewrites id').1] at hr
  by_cases hne : id' = id
  · -- The touched run: only the endings leave it in a terminal status.
    subst hne
    obtain rfl : r' = some r := by simpa using hr
    generalize hold : p.run id' = old at hrow
    generalize p.entry id' = oldEntry at hrow
    generalize granted pg p a = grant at hrow
    cases hrow with
    | admitted => simp [NewRun.row, RunStatus.isTerminal] at hended
    | grantRefused _ _ _ _ r q runnable =>
      have hstatus : (reclaimed r q).status = r.status :=
        reclaimed_rec (P := (·.status = r.status)) rfl rfl
      simp [hstatus, runnable] at hended
    | granted => simp [Run.markedRunning, RunStatus.isTerminal] at hended
    | renewed | parked | woken => exact h id' r hold hattached hended
    | callerReleased => rfl
    | terminalized => exact ha.elim
    | deadlinesReported _ _ _ r => exact h id' r hold hattached hended
    | completed _ _ _ _ r settled _ _ _ caller =>
      have hsome := ha r hold (caller.durableCallerAttached ▸ hattached)
      exact caller.released_of_isSome hsome
    | returned => exact h id' r hold hattached hended
    | releaseExhausted | reaped => exact callerReleasedAt_withExhaustion _ _ _ _ hattached
  · exact h id' r (by simpa [hne] using hr) hattached hended

/-! ## What a held claim knows -/

/-- The claimed run exists with the caller that the claim says, a run with a workflow has none, and
only that is executed. -/
structure Holding.Sound (p : Plane J) (h : Holding) : Prop where
  claimed : ∃ r, p.run h.claim.selected.runId = some r ∧
    r.durableCallerAttached = h.claim.selected.durableCallerAttached
  detached : h.claim.selected.workflow.isSome = true →
    h.claim.selected.durableCallerAttached = false
  executed : h.phase ≠ .claimed → h.claim.selected.workflow.isSome = true

lemma Holding.Sound.step (hsound : h.Sound p) (pg : Postgres J) (a : Action J) :
    h.Sound (RunPlane.step pg p a) := by
  obtain ⟨r, hr, hcaller⟩ := hsound.claimed
  refine ⟨?_, hsound.detached, hsound.executed⟩
  refine run_step pg a (fun id grant r q r' q' hkeep hrow => ?_) hr hcaller
  obtain ⟨kept, hkept, hsame⟩ := durableCallerAttached_rowChange hrow
  exact ⟨kept, hkept, hsame.trans hkeep⟩

lemma Holding.Sound.next {h' : Holding} (hsound : h.Sound p)
    (hnext : h.next pg p progress = some h') : h'.Sound p := by
  have hphase : h' = h ∨ ∃ phase, h' = { h with phase := phase } ∧
      h.claim.selected.workflow.isSome = true := by
    cases progress with
    | opened access turn =>
      simp only [Holding.next] at hnext
      split at hnext
      · rename_i hworkflow
        exact .inr ⟨.executing, (Option.some.inj hnext).symm, by simp [hworkflow]⟩
      · cases hnext
      · exact .inl (Option.some.inj hnext).symm
    | heartbeat turn =>
      simp only [Holding.next] at hnext
      repeat' split at hnext
      all_goals first | exact .inl (Option.some.inj hnext).symm | cases hnext
    | delivered adjustments delivery =>
      simp only [Holding.next] at hnext
      split at hnext
      · rename_i hexecuting
        exact .inr ⟨_, (Option.some.inj hnext).symm, hsound.executed (by simp [hexecuting])⟩
      · rename_i hexecuting
        split at hnext
        · exact .inr ⟨_, (Option.some.inj hnext).symm, hsound.executed (by simp [hexecuting])⟩
        · cases hnext
      · exact .inl (Option.some.inj hnext).symm
    | settled acknowledged turn =>
      simp only [Holding.next] at hnext
      split at hnext
      · cases hnext
      · exact .inl (Option.some.inj hnext).symm
    | stopped => cases hnext
  rcases hphase with rfl | ⟨phase, rfl, hworkflow⟩
  · exact hsound
  · exact ⟨hsound.claimed, hsound.detached, fun _ => hworkflow⟩

lemma sound_claimed {session : Session} {scope : Scope} {leaseTtlMs : ℤ} {turn : Turn}
    (hclaim : Executors.claimed pg p session scope leaseTtlMs turn = some h) :
    h.Sound (RunPlane.step pg p (.claimNext session scope leaseTtlMs turn)) := by
  obtain ⟨hphase, s, hr, hdecode⟩ := Executors.claimed_eq_some hclaim
  obtain ⟨hid, -, -, hcaller, -⟩ := decodeSelectedClaim_eq_ok hdecode
  -- The claim was decoded from the row before the step, which keeps its trigger.
  have hbefore : h.Sound p :=
    { claimed := ⟨s.run, by rw [hid, hr], hcaller.symm⟩
      detached := fun hworkflow => hcaller.trans (detached_of_workflow hdecode hworkflow)
      executed := fun hother => (hother hphase).elim }
  exact hbefore.step pg _

/-- Going on with a sound claim of a workflow brings an outcome for an attached caller. -/
theorem Holding.Sound.answersCaller (hsound : h.Sound p)
    (hrefused : ∀ access turn, progress = .opened access turn →
      h.claim.selected.workflow = none → ∀ r, p.run h.claim.selected.runId = some r →
        r.durableCallerAttached = false) (ha : h.action progress = some a) : AnswersCaller p a := by
  obtain ⟨row, hrow, hcaller⟩ := hsound.claimed
  have hattached : ∀ r, p.run h.claim.selected.runId = some r →
      r.durableCallerAttached = h.claim.selected.durableCallerAttached := by
    intro r hr
    rw [← hcaller, mem_unique hrow hr]
  cases progress with
  | opened access turn =>
    simp only [Holding.action] at ha
    split at ha
    · rename_i hworkflow
      obtain rfl := Option.some.inj ha
      intro r hr hwaits
      -- The refusal carries no outcome, so nobody may wait for one.
      have hdetached := hrefused _ _ rfl hworkflow r hr
      exact absurd hwaits (by rw [hdetached]; decide)
    · obtain rfl := Option.some.inj ha
      trivial
    · cases ha
  | heartbeat turn | delivered adjustments delivery =>
    simp only [Holding.action] at ha
    split at ha
    · obtain rfl := Option.some.inj ha
      trivial
    · cases ha
  | settled acknowledged turn =>
    simp only [Holding.action] at ha
    split at ha
    · rename_i delivery hphase
      obtain ⟨completion, hcompletion, rfl⟩ := map_eq_some_iff.1 ha
      intro r hr hwaits
      -- What is settled was executed, so it carries a workflow, and workflow runs have no caller.
      have hdetached := hsound.detached (hsound.executed (by simp [hphase]))
      exact absurd hwaits (by rw [hattached r hr, hdetached]; decide)
    · cases ha
  | stopped => cases ha

/-! ## Whole runs of the queue service -/

/-- A run that the queue service refuses for want of a workflow has no caller. -/
def Executors.RefusesDetached (s : Executors J) : Event J → Prop
  | .progress n (.opened _ _) => ∀ h, s.held[n]? = some h →
    h.claim.selected.workflow = none → ∀ r, s.plane.run h.claim.selected.runId = some r →
      r.durableCallerAttached = false
  | _ => True

/-- No caller is stranded and every held claim is sound. -/
structure Executors.Sound (s : Executors J) : Prop where
  answered : NoneStranded s.plane
  claims : ∀ h ∈ s.held, h.Sound s.plane

lemma Executors.Sound.act {s : Executors J} (hs : s.Sound) (ha : AnswersCaller s.plane a) :
    (s.act pg a).Sound :=
  ⟨hs.answered.step ha, fun h hh => (hs.claims h hh).step pg a⟩

lemma Executors.Sound.step {s : Executors J} {event : Event J} (hs : s.Sound)
    (hok : s.RefusesDetached event) : (s.step pg event).Sound := by
  cases event with
  | admitRun | park | releaseParked | reap => exact hs.act trivial
  | claim session scope leaseTtlMs turn =>
    refine ⟨hs.answered.step trivial, fun h hh => ?_⟩
    rcases mem_append.1 hh with hnew | hold
    · exact sound_claimed (mem_toList.1 hnew)
    · exact (hs.claims h hold).step pg (.claimNext session scope leaseTtlMs turn)
  | progress n progress =>
    unfold Executors.step
    cases hget : s.held[n]? with
    | none => simpa [hget] using hs
    | some h =>
      have hsound := hs.claims h (mem_of_getElem? hget)
      -- The claims held afterwards are sound on the rows before the transaction already.
      have hkept : ∀ h' ∈ (h.next pg s.plane progress).toList ++ s.held.eraseIdx n,
          h'.Sound s.plane := by
        intro h' hh
        rcases mem_append.1 hh with hnext | hold
        · exact hsound.next (mem_toList.1 hnext)
        · exact hs.claims h' (mem_of_mem_eraseIdx hold)
      cases haction : h.action (J := J) progress with
      | none => exact ⟨by simpa [hget, haction] using hs.answered,
          by simpa [hget, haction] using hkept⟩
      | some a =>
        have hanswers := hsound.answersCaller (fun access turn heq hnone => by
          subst heq; exact hok h hget hnone) haction
        refine ⟨by simpa [hget, haction] using hs.answered.step hanswers, fun h' hh => ?_⟩
        have hstep := (hkept h' (by simpa [hget] using hh)).step pg a
        simpa [hget, haction] using hstep

/-- States in which every refusal for want of a workflow met a run without a caller. -/
def Executors.Reachable (pg : Postgres J) : Executors J → Prop :=
  Steps (Executors.step pg) Executors.RefusesDetached .empty

/-- No stranded caller: if every run refused for want of a workflow had no caller, then every ended
run of an HTTP, internal or studio caller has released it. -/
theorem no_stranded_caller (pg : Postgres J) {s : Executors J} (hs : s.Reachable pg) {id : RunId}
    {r : Run J} (hr : s.plane.run id = some r)
    (hattached : r.triggerSource = some .http ∨ r.triggerSource = some .internal ∨
      r.triggerSource = some .studio)
    (hended : r.status.isTerminal = true) : ∃ instant, r.callerReleasedAt = some instant := by
  have hsound : s.Sound := Steps.invariant (fun s event hs hok => Executors.Sound.step hs hok) hs
    ⟨fun id r hr => by simp [Executors.empty] at hr, fun h hh => by cases hh⟩
  refine isSome_iff_exists.1 (hsound.answered id r hr ?_ hended)
  rcases hattached with h | h | h <;>
    simp [Run.durableCallerAttached, h, TriggerSource.durableCaller]

namespace Sample

open RunPlane.Sample

def serviceAfter (events : List (Event Value)) : Executors Value :=
  events.foldl (Executors.step .identity) .empty

/-- An HTTP run with one attempt left is claimed twice, and the janitor ends it. -/
def reaped : List (Event Value) :=
  [.admitRun 0 "r1" checkout 0 0 1, .claim (host "a") scope 30 (turn 1), .progress 0 .stopped,
    .claim (host "b") scope 30 (turn 40000), .progress 0 .stopped,
    .reap (host "a") scope (turn 4000000000)]

/-- The caller of the reaped run is released. -/
theorem reaped_checkout_is_released :
    ∃ r, (serviceAfter reaped).plane.run "r1" = some r ∧ r.status = .infrastructureFailure ∧
      ∃ instant, r.callerReleasedAt = some instant := by
  have hr : (serviceAfter reaped).plane.run "r1" =
      some (((serviceAfter reaped).plane.run "r1").get (by decide)) := (some_get _).symm
  refine ⟨_, hr, by decide, ?_⟩
  refine no_stranded_caller .identity (Steps.foldl _ _ ?_) hr (by decide) (by decide)
  intro s event hevent
  simp only [reaped, mem_cons, not_mem_nil, or_false] at hevent
  rcases hevent with rfl | rfl | rfl | rfl | rfl | rfl <;> trivial

/-- An HTTP run that a host claims and refuses, for it carries no workflow. -/
def refused : List (Event Value) :=
  [.admitRun 0 "r1" checkout 0 0 20, .claim (host "a") scope 30 (turn 1),
    .progress 0 (.opened .available (turn 2))]

/-- The refused run has ended with a caller attached that nothing releases. -/
theorem refused_checkout_strands_its_caller :
    ∃ r, (serviceAfter refused).plane.run "r1" = some r ∧ r.triggerSource = some .http ∧
      r.status = .failed ∧ r.failType = some .unresolvableName ∧ r.callerReleasedAt = none := by
  refine ⟨((serviceAfter refused).plane.run "r1").get (by decide), (some_get _).symm, ?_⟩
  decide

end Sample

end Wamn.Workflow
