import Wamn.RunPlane.System

/-!
# The life of a run

A run is admitted with its queue row, is claimed and released any number of times, and ends once.
The ending removes the queue row, and no statement writes a run that has ended or a caller outcome
that is stored.
-/

namespace Wamn.RunPlane

open Option Lib Lib.Json RunState Runtime

variable {J : Type} {pg : Postgres J} {p p' : Plane J}

/-! ## Ended runs -/

variable {id : RunId} {a : Action J} {grant : Option Grant} {r : Run J} {r' : Option (Run J)}

lemma RowChange.run_eq_of_terminal {q q' : Option QueueRow}
    (h : RowChange pg id a grant (some r) q r' q') (hterminal : r.status.isTerminal = true) :
    r' = some r := by
  cases h with
  | renewed | parked | woken => rfl
  -- Every write to a run row is guarded by its status, here or behind the fence.
  | grantRefused _ _ _ _ _ _ runnable | granted _ _ _ _ _ _ _ runnable
  | returned _ _ _ _ _ _ runnable | releaseExhausted _ _ _ _ _ _ _ runnable =>
    exact absurd runnable (by simp [hterminal])
  | callerReleased _ _ _ _ _ _ ready | terminalized _ _ _ _ _ _ ready
  | deadlinesReported _ _ _ _ _ _ ready | completed _ _ _ _ _ _ _ _ ready =>
    exact absurd ready.1 (by simp [hterminal])
  | reaped _ _ _ _ _ _ _ _ eligible =>
    simp [exhaustedEligible, Run.runnable, hterminal] at eligible

lemma run_eq_of_terminal (hruns : Runs pg p p') (hr : p.run id = some r)
    (hterminal : r.status.isTerminal = true) : p'.run id = some r := by
  refine Steps.invariant (I := fun s => s.run id = some r) (fun s a hs _ => ?_) hruns hr
  obtain ⟨kept, hkept, rfl⟩ := run_step pg a (K := (· = r))
    (fun id grant r₀ q r' q' hr₀ hrow => by
      subst hr₀; exact ⟨r₀, hrow.run_eq_of_terminal hterminal, rfl⟩) hs rfl
  exact hkept

/-! ## Queued exactly until the end -/

def QueuedUntilEnd (r : Option (Run J)) (q : Option QueueRow) : Prop :=
  q.isSome = true ↔ ∃ run, r = some run ∧ run.status.isTerminal = false

lemma RowChange.queuedUntilEnd {r : Option (Run J)} {q q' : Option QueueRow}
    (h : RowChange pg id a grant r q r' q') (hold : QueuedUntilEnd r q) : QueuedUntilEnd r' q' := by
  cases h with
  | admitted => simp [QueuedUntilEnd, NewRun.row, RunStatus.isTerminal]
  | grantRefused _ _ _ _ r q runnable =>
    have hstatus : (reclaimed r q).status = r.status :=
      reclaimed_rec (P := (·.status = r.status)) rfl rfl
    simpa [QueuedUntilEnd, hstatus] using runnable
  | granted => simp [QueuedUntilEnd, Run.markedRunning, RunStatus.isTerminal]
  | renewed | parked | woken => simpa [QueuedUntilEnd] using hold
  | callerReleased _ _ _ _ _ _ ready =>
    simpa [QueuedUntilEnd, Run.withCaller] using ready.1
  | deadlinesReported _ _ _ _ _ _ ready =>
    simpa [QueuedUntilEnd, Run.withDeadlineAdjustments] using ready.1
  | returned _ _ _ _ _ _ runnable => simpa [QueuedUntilEnd] using runnable
  -- The endings write a terminal status and remove the queue row in one statement.
  | terminalized _ t => simp [QueuedUntilEnd, Run.withTerminal, t.status_isTerminal]
  | completed _ _ completion turn =>
    simp [QueuedUntilEnd, Run.withTerminal,
      (completion.terminalization turn.hostTime).status_isTerminal]
  | releaseExhausted | reaped =>
    simp [QueuedUntilEnd, Run.withExhaustion, Exhaustion.status, RunStatus.isTerminal]

lemma queuedUntilEnd_of_reachable (hp : Reachable pg p) (id : RunId) :
    QueuedUntilEnd (p.run id) (p.entry id) := by
  refine Steps.invariant (I := fun s => ∀ id, QueuedUntilEnd (s.run id) (s.entry id))
    (fun s a hs _ => rows_step (fun _ _ _ _ _ _ hold hrow => hrow.queuedUntilEnd hold) hs)
    hp (fun id => by simp [QueuedUntilEnd]) id

/-- Ended runs are final: in every reachable plane a queue row exists for a run exactly when it is
dispatched or running, and a run that has ended keeps its whole row, whatever anyone does. -/
theorem terminal_runs_are_final (pg : Postgres J) {p : Plane J} (hp : Reachable pg p) :
    (∀ id, (∃ q, p.entry id = some q) ↔
      ∃ r, p.run id = some r ∧ (r.status = .dispatched ∨ r.status = .running)) ∧
    ∀ p', Runs pg p p' → ∀ id r, p.run id = some r →
      (r.status = .completed ∨ r.status = .failed ∨ r.status = .infrastructureFailure) →
        p'.run id = some r := by
  constructor
  · intro id
    have hqueued := queuedUntilEnd_of_reachable hp id
    rw [QueuedUntilEnd, isSome_iff_exists] at hqueued
    rw [hqueued]
    refine exists_congr fun r => and_congr_right fun _ => ?_
    cases r.status <;> simp [RunStatus.isTerminal]
  · intro p' hruns id r hr hended
    refine run_eq_of_terminal hruns hr ?_
    rcases hended with h | h | h <;> simp [h, RunStatus.isTerminal]

namespace Sample

/-- The claimed run, failed by its holder with an outcome for the caller. -/
def ended : List (Action Value) :=
  claimed ++ [.complete (host "a") "r1" 1
    (.failed .null .terminal (some (.failed .null 500 none))) (turn 2)]

/-- An operator's park of the ended run leaves its row. -/
theorem ended_run_survives_park :
    ∃ r, (planeAfter ended).run "r1" = some r ∧ r.status = .failed ∧
      (step .identity (planeAfter ended) (.park "r1" "dev" 3)).run "r1" = some r := by
  have hr : (planeAfter ended).run "r1" = some (((planeAfter ended).run "r1").get (by decide)) :=
    (some_get _).symm
  have hfailed : (((planeAfter ended).run "r1").get (by decide)).status = .failed := by decide
  refine ⟨_, hr, hfailed, ?_⟩
  exact (terminal_runs_are_final .identity (reachable_planeAfter ended)).2 _
    ((Steps.refl _).tail trivial) "r1" _ hr (.inr (.inl hfailed))

end Sample

/-! ## Stored caller outcomes -/

def callerColumns (r : Run J) :
    Option CallerOutcomeType × Option J × Option ℤ × Option String × Option String ×
      Option Instant :=
  (r.callerOutcomeType, r.callerOutcomeJson, r.callerHttpStatus, r.callerReleaseNodeId,
    r.callerOutcomeHash, r.callerReleasedAt)

section

variable (hstored : r.callerReleasedAt.isSome = true)

include hstored

lemma callerColumns_withExhaustion (e : Exhaustion) (json : J) (hash : String)
    (instant : Instant) :
    callerColumns (r.withExhaustion e json hash instant) = callerColumns r := by
  have hattached : r.unreleasedAttached = false := by
    simp [Run.unreleasedAttached, hstored]
  simp [callerColumns, Run.withExhaustion, hattached]

lemma RowChange.callerColumns_eq {q q' : Option QueueRow}
    (h : RowChange pg id a grant (some r) q r' q') :
    ∃ kept, r' = some kept ∧ callerColumns kept = callerColumns r := by
  cases h with
  | renewed | parked | woken | returned => exact ⟨r, rfl, rfl⟩
  | grantRefused _ _ _ _ _ q | granted _ _ _ _ _ q =>
    have hcolumns : callerColumns (reclaimed r q) = callerColumns r :=
      reclaimed_rec (P := (callerColumns · = callerColumns r)) rfl rfl
    exact ⟨_, rfl, hcolumns⟩
  | deadlinesReported | terminalized => exact ⟨_, rfl, rfl⟩
  | callerReleased _ _ _ _ _ _ _ unreleased => simp [unreleased] at hstored
  | completed _ _ _ _ _ settled _ _ _ caller =>
    obtain rfl := caller.eq_of_stored hstored
    exact ⟨_, rfl, rfl⟩
  | releaseExhausted | reaped =>
    exact ⟨_, rfl, callerColumns_withExhaustion hstored _ _ _ _⟩

lemma callerColumns_eq_of_runs (hruns : Runs pg p p') (hr : p.run id = some r) :
    ∃ r', p'.run id = some r' ∧ callerColumns r' = callerColumns r := by
  refine Steps.invariant
    (I := fun s => ∃ r', s.run id = some r' ∧ callerColumns r' = callerColumns r)
    (fun s a hs _ => ?_) hruns ⟨r, hr, rfl⟩
  obtain ⟨r', hr', hcolumns⟩ := hs
  refine run_step pg a (K := fun run => callerColumns run = callerColumns r) ?_ hr' hcolumns
  intro id grant r₀ q r₁ q₁ hsame hrow
  -- The instant is one of the six columns, so the row in between is a stored outcome too.
  have hinstant : r₀.callerReleasedAt = r.callerReleasedAt := congrArg (·.2.2.2.2.2) hsame
  have hstored₀ : r₀.callerReleasedAt.isSome = true := by rw [hinstant, hstored]
  obtain ⟨kept, hkept, hcolumns⟩ := RowChange.callerColumns_eq hstored₀ hrow
  exact ⟨kept, hkept, hcolumns.trans hsame⟩

/-- The current holder's completion is rolled back when another outcome is stored. -/
theorem complete_eq_error_of_conflict {session : Session} {generation : ℤ}
    {completion : ProductionCompletion} {caller : ProductionCallerOutcome} (turn : Turn)
    {q : QueueRow} (hr : p.run id = some r) (hq : p.entry id = some q)
    (hready : (session.fence id generation).Ready r q) (hcaller : completion.caller = some caller)
    (hconflict : ¬caller.Agrees pg r) :
    ∃ e, complete pg session id generation completion turn p = .error e := by
  cases h : complete pg session id generation completion turn p with
  | error e => exact ⟨e, rfl⟩
  | ok result =>
    -- A completion that commits has gone through the release of its caller.
    exfalso
    obtain ⟨-, -, h⟩ := bind_eq_ok.1 h
    obtain ⟨-, -, h⟩ := bind_eq_ok.1 h
    simp only [hcaller] at h
    obtain ⟨⟨early, p₁⟩, hrelease, -⟩ := bind_eq_ok.1 h
    -- The release ends early only without the fence, and goes on only over an agreeing outcome.
    rcases releaseForCompletion_eq_ok hrelease with
      ⟨-, -, hcode⟩ | ⟨-, -, stored, hrun, -, hagrees⟩ | ⟨-, found, _, _, hrun, -, -, hnone, -⟩
    · exact hcode (by rw [Plane.authority_of_ready rfl hr hq hready])
    · obtain rfl := mem_unique hrun hr
      exact hconflict hagrees
    · obtain rfl := mem_unique hrun hr
      simp [hnone] at hstored

end

/-- A caller outcome is written once: its six columns never change, whoever acts. A completion by
the current holder that carries one changes rows only if none was stored or the stored one agrees,
and else fails and leaves the plane as it was. -/
theorem caller_outcome_is_write_once (pg : Postgres J) (p : Plane J) :
    (∀ p', Runs pg p p' → ∀ id r, p.run id = some r → r.callerReleasedAt.isSome = true →
      ∃ r', p'.run id = some r' ∧ callerColumns r' = callerColumns r) ∧
    ∀ session id generation completion caller turn r q, p.run id = some r → p.entry id = some q →
      (session.fence id generation).Ready r q → completion.caller = some caller →
        (step pg p (.complete session id generation completion turn) ≠ p →
          r.callerReleasedAt = none ∨ caller.Agrees pg r) ∧
        (r.callerReleasedAt.isSome = true → ¬caller.Agrees pg r →
          (∃ e, complete pg session id generation completion turn p = .error e) ∧
            step pg p (.complete session id generation completion turn) = p) := by
  refine ⟨fun p' hruns id r hr hstored => callerColumns_eq_of_runs hstored hruns hr, ?_⟩
  intro session id generation completion caller turn r q hr hq hready hcaller
  have hconflict : r.callerReleasedAt.isSome = true → ¬caller.Agrees pg r →
      (∃ e, complete pg session id generation completion turn p = .error e) ∧
        step pg p (.complete session id generation completion turn) = p := by
    intro hstored hdisagrees
    obtain ⟨e, he⟩ := complete_eq_error_of_conflict hstored turn hr hq hready hcaller hdisagrees
    exact ⟨⟨e, he⟩, commit_of_error he⟩
  refine ⟨fun hchanged => ?_, hconflict⟩
  by_contra hneither
  obtain ⟨hstored, hdisagrees⟩ := not_or.1 hneither
  exact hchanged (hconflict (isSome_iff_ne_none.2 hstored) hdisagrees).2

namespace Sample

/-- The claimed run, whose holder stored a response for the caller. -/
def responded : List (Action Value) :=
  claimed ++ [.releaseCaller ((host "a").fence "r1" 1) ⟨.responded, .null, 200, some "reply",
    "sha256:canonical", 2⟩]

/-- The holder's failure does not replace the stored response: the completion is rolled back. -/
theorem stored_response_survives_failure :
    step .identity (planeAfter responded) (.complete (host "a") "r1" 1
      (.failed .null .terminal (some (.failed .null 500 none))) (turn 3)) =
        planeAfter responded := by
  have hr : (planeAfter responded).run "r1" =
      some (((planeAfter responded).run "r1").get (by decide)) := (some_get _).symm
  have hq : (planeAfter responded).entry "r1" =
      some (((planeAfter responded).entry "r1").get (by decide)) := (some_get _).symm
  have hwriteOnce := (caller_outcome_is_write_once .identity (planeAfter responded)).2 (host "a")
    "r1" 1 (.failed .null .terminal (some (.failed .null 500 none))) (.failed .null 500 none)
    (turn 3) _ _ hr hq ⟨by decide, by decide, by decide⟩ rfl
  exact (hwriteOnce.2 (by decide) fun hagrees => absurd hagrees.type (by decide)).2

end Sample

end Wamn.RunPlane
