import Wamn.Admission.System

/-!
# One key admits once

A redelivered event, a repeated start and a schedule tick that two hosts take all meet the run that
the first of them admitted, by the unique index over keys, the read-back by grain and input after a
conflict, and the rollback of a whole event batch.
-/

namespace Wamn.Admission

open Lib Lib.Json RunState Runtime Materializer

variable {J G : Type} [DecidableEq J] {pg : Postgres J} {platform : Platform G} {p p' : Plane J}

/-! ## One insert-or-read-back -/

variable {id : RunId} {r : Run J} {release : LoadedRelease G} {actor : Option String}
  {matched : List (EventWorkflow × Value)} {w : EventWorkflow} {input : Value}

omit [DecidableEq J] in
/-- Where a run holds the key, nothing is written, and it is answered exactly if it is the one asked
for. -/
theorem AdmitOutcome.of_taken {grain : Grain} {now : Instant} {drawn : RunId} {q : Request J}
    {answer : Option RunId} (h : AdmitOutcome grain now drawn q p answer p')
    (hunique : KeysUnique p) (hr : p.run id = some r)
    (hkey : r.idempotencyKey = some q.idempotencyKey) :
    p' = p ∧ (r.AnswersTo q.idempotencyKey grain.source q.input → answer = some id) ∧
      (¬ r.AnswersTo q.idempotencyKey grain.source q.input → answer = none) := by
  cases h with
  -- Nothing was stored: that would need the key free.
  | inserted free => exact absurd hkey (free id r hr)
  | found id' r' stored answers =>
    -- The run found carries the same key, so it is the same run.
    obtain rfl : id' = id := hunique id' id r' r _ stored hr answers.idempotencyKey hkey
    obtain rfl := Option.mem_unique stored hr
    exact ⟨rfl, fun _ => rfl, fun hother => absurd answers hother⟩
  | conflict taken other =>
    exact ⟨rfl, fun hanswers => absurd hanswers (other id r hr), fun _ => rfl⟩

omit [DecidableEq J] in
lemma AdmitOutcome.answersTo {grain : Grain} {now : Instant} {drawn : RunId} {q : Request J}
    (h : AdmitOutcome grain now drawn q p (some id) p') :
    ∃ r, p'.run id = some r ∧ r.AnswersTo q.idempotencyKey grain.source q.input := by
  cases h with
  | inserted => exact ⟨(q.newRun grain.source).row now, by simp, rfl, rfl, rfl⟩
  | found _ r stored answers => exact ⟨r, stored, answers⟩

/-! ## Batches -/

/-- Every matched workflow of a batch that commits has a run that answers to the delivery. -/
theorem answersTo_of_admitEventRuns {turn : AdmissionTurn} {delivery : String} {ancestry : Lineage}
    {n : ℕ}
    (h : admitEventRuns pg platform release turn delivery actor ancestry n matched p = .ok p')
    (hmem : (w, input) ∈ matched) : ∃ id r stored, p'.run id = some r ∧ pg.bind input = .ok stored ∧
      r.AnswersTo (eventKey release.environment w.trigger.application w.trigger.workflowId delivery)
        .event stored := by
  induction matched generalizing n p with
  | nil => cases hmem
  | cons head rest ih =>
    obtain ⟨⟨runId, p₁⟩, hrun, hrest⟩ := bind_eq_ok.1 h
    obtain ⟨q, hkey, hinput, -, -, -, houtcome⟩ := admitEventRun_eq_ok hrun
    rcases List.mem_cons.1 hmem with rfl | hmem
    · -- The run of this workflow is there, and the admissions after it keep it.
      obtain ⟨r, hr, hanswers⟩ := houtcome.answersTo
      obtain ⟨r', hr', hsame⟩ := (grows_of_admitEventRuns hrest).kept runId r hr
      rw [hkey] at hanswers
      exact ⟨runId, r', q.input, hr', hinput, hsame.answersTo_iff.2 hanswers⟩
    · exact ih hrest hmem

/-- The event of the batch is one of its entity, and a workflow of it matches with this input. -/
def EventBatch.Matches (platform : Platform G) (b : EventBatch G) (w : EventWorkflow)
    (input : Value) : Prop :=
  ∃ event, identifyEvent platform b.release b.admission = .ok event ∧
    event.source = (b.admission.sourcePackage, b.admission.entity) ∧ w ∈ b.workflows ∧
    w.trigger.isMatch platform.jmes event b.admission.sequence
      (b.release.applications.flatMap Prod.snd) b.release.envKey = .ok (some input)

/-- The key that the batch binds for the run of a workflow. -/
def EventBatch.key (b : EventBatch G) (w : EventWorkflow) : String :=
  eventKey b.release.environment w.trigger.application w.trigger.workflowId b.admission.delivery

/-- A batch that commits has admitted every workflow that its own event matched. -/
theorem admitted_of_eventBatch {b : EventBatch G} {u : Unit}
    (h : b.transact pg platform p = .ok (u, p')) (hmatches : b.Matches platform w input) :
    ∃ matched actor ancestry, (w, input) ∈ matched ∧
      admitEventRuns pg platform b.release b.turn b.admission.delivery actor ancestry 0 matched p =
        .ok p' := by
  obtain ⟨event, hevent, hown, hw, hmatch⟩ := hmatches
  obtain ⟨event', hevent', hcases⟩ := admitEventBatch_eq_ok h
  obtain rfl := Except.ok.inj (hevent.symm.trans hevent')
  rcases hcases with ⟨hforeign, -⟩ | ⟨-, matched, hmatched, hadmitted⟩
  · exact absurd hown hforeign
  · have hmem := ((matchTriggers_eq_ok hmatched).2.2 w input).2 ⟨hw, hmatch⟩
    rcases hadmitted with ⟨rfl, -⟩ | ⟨actor, ancestry, -, hruns⟩
    · cases hmem
    · exact ⟨matched, actor, ancestry, hmem, hruns⟩

/-- A workflow whose key belongs to a run of another grain or input stops the batch. -/
theorem admitEventRuns_conflict {turn : AdmissionTurn} {delivery : String} {ancestry : Lineage}
    {n : ℕ} (hunique : KeysUnique p) (hr : p.run id = some r)
    (hkey : r.idempotencyKey = some (eventKey release.environment w.trigger.application
      w.trigger.workflowId delivery)) (hother : ∀ stored, pg.bind input = .ok stored →
      ¬ r.AnswersTo (eventKey release.environment w.trigger.application w.trigger.workflowId
        delivery) .event stored) (hmem : (w, input) ∈ matched) :
    admitEventRuns pg platform release turn delivery actor ancestry n matched p ≠ .ok p' := by
  intro h
  obtain ⟨id', r', stored, hr', hstored, hanswers⟩ := answersTo_of_admitEventRuns h hmem
  -- The run that answers afterwards carries the key, so it is the stored one, which does not.
  have hgrows := grows_of_admitEventRuns h
  obtain ⟨kept, hkept, hsame⟩ := hgrows.kept id r hr
  obtain rfl : id' = id := hgrows.unique hunique id' id r' kept _ hr' hkept hanswers.idempotencyKey
    (hsame.idempotencyKey.trans hkey)
  obtain rfl := Option.mem_unique hr' hkept
  exact hother stored hstored (hsame.answersTo_iff.1 hanswers)

/-! ## All admissions -/

/-- How admissions under the key of a stored run end. Manual and schedule admissions that commit
write nothing; they answer the run if it is of their grain and input and refuse otherwise. A
schedule admission does not come to the key if its workflow is not enabled or not served. An event
batch that wants the key for another grain or input does not commit. -/
structure KeySettled (pg : Postgres J) (platform : Platform G) (p : Plane J) (id : RunId)
    (r : Run J) (key : String) : Prop where
  manual : ∀ turn a answer p', a.idempotencyKey = key →
    admitManualRun pg turn a p = .ok (answer, p') → p' = p ∧ ∃ input, pg.bind a.input = .ok input ∧
      (r.AnswersTo key .manual input → answer = .queued id) ∧
      (¬ r.AnswersTo key .manual input → answer = .conflict)
  schedule : ∀ turn enabled release a answer p',
    scheduleKey a.application a.workflowId (platform.dueText a.due) = key →
    admitScheduleRun pg platform turn enabled release a p = .ok (answer, p') →
      p' = p ∧ (enabled = none → answer = .notEnabled) ∧
        (NotInRelease platform enabled release a → answer = .notServed) ∧
        (enabled ≠ none → ¬ NotInRelease platform enabled release a → ∃ input,
          pg.bind (.object [("due", .string (platform.dueText a.due))]) = .ok input ∧
          (r.AnswersTo key .schedule input → answer = .queued id) ∧
          (¬ r.AnswersTo key .schedule input → answer = .conflict))
  eventBatch : ∀ (b : EventBatch G) w input p', b.Matches platform w input → b.key w = key →
    (∀ stored, pg.bind input = .ok stored → ¬ r.AnswersTo key .event stored) →
      b.transact pg platform p ≠ .ok ((), p')

lemma keySettled {key : String} (hunique : KeysUnique p) (hr : p.run id = some r)
    (hkey : r.idempotencyKey = some key) : KeySettled pg platform p id r key where
  manual := by
    rintro turn a answer p' rfl h
    obtain ⟨q, read, hq, rfl, houtcome⟩ := admitManualRun_eq_ok h
    obtain ⟨hqkey, hinput⟩ := ManualRunAdmission.request_eq_ok hq
    rw [← hqkey] at hkey ⊢
    obtain ⟨hsame, hanswers, hother⟩ := houtcome.of_taken hunique hr hkey
    refine ⟨hsame, q.input, hinput, fun h => ?_, fun h => ?_⟩
    · rw [hanswers h]; rfl
    · rw [hother h]; rfl
  schedule := by
    rintro turn enabled release a answer p' rfl h
    rcases admitScheduleRun_eq_ok h with ⟨rfl, rfl, rfl⟩ | ⟨hunserved, rfl, rfl⟩ |
      ⟨henabled, hserved, q, read, hqkey, hinput, rfl, houtcome⟩
    · exact ⟨rfl, fun _ => rfl, fun ⟨_, _, _, h, _⟩ => (nomatch h), fun h => absurd rfl h⟩
    · refine ⟨rfl, fun hnone => ?_, fun _ => rfl, fun _ h => absurd hunserved h⟩
      obtain ⟨_, _, _, henabled, -⟩ := hunserved
      cases hnone.symm.trans henabled
    · rw [← hqkey] at hkey ⊢
      obtain ⟨hsame, hanswers, hother⟩ := houtcome.of_taken hunique hr hkey
      refine ⟨hsame, fun h => absurd h henabled, fun h => absurd h hserved,
        fun _ _ => ⟨q.input, hinput, fun h => ?_, fun h => ?_⟩⟩
      · rw [hanswers h]; rfl
      · rw [hother h]; rfl
  eventBatch := by
    rintro b w input p' hmatches rfl hother h
    obtain ⟨matched, actor, ancestry, hmem, hruns⟩ := admitted_of_eventBatch h hmatches
    exact admitEventRuns_conflict hunique hr hkey hother hmem hruns

omit [DecidableEq J] in
lemma answersTo_congr {r' : Run J} (h : SameAdmission r r') : r'.AnswersTo = r.AnswersTo := by
  funext key source input
  exact propext h.answersTo_iff

lemma KeySettled.congr {r' : Run J} {key : String} (h : KeySettled pg platform p id r' key)
    (hsame : SameAdmission r r') : KeySettled pg platform p id r key where
  manual := answersTo_congr hsame ▸ h.manual
  schedule := answersTo_congr hsame ▸ h.schedule
  eventBatch := answersTo_congr hsame ▸ h.eventBatch

/-- A batch that commits leaves exactly one run for every workflow the delivery matched. -/
theorem existsUnique_run_of_eventBatch {b : EventBatch G} {u : Unit} (hunique : KeysUnique p)
    (h : b.transact pg platform p = .ok (u, p')) (hmatches : b.Matches platform w input) :
    ∃! id, ∃ r stored, p'.run id = some r ∧ pg.bind input = .ok stored ∧
      r.AnswersTo (b.key w) .event stored := by
  obtain ⟨matched, actor, ancestry, hmem, hruns⟩ := admitted_of_eventBatch h hmatches
  obtain ⟨id, r, stored, hr, hstored, hanswers⟩ := answersTo_of_admitEventRuns hruns hmem
  refine ⟨id, ⟨r, stored, hr, hstored, hanswers⟩, ?_⟩
  -- Another run that answers to the delivery carries the same key.
  rintro id' ⟨r', stored', hr', -, hanswers'⟩
  exact (grows_of_eventBatch h).unique hunique id' id r' r _ hr' hr hanswers'.idempotencyKey
    hanswers.idempotencyKey

/-- One key admits once. In every reachable plane no two runs carry one key. An admission that
answers a run answers a stored one of its key, grain and input; later, whatever became of the run,
every admission of that key that commits writes nothing and answers that run if grain and input
agree, and refuses otherwise: an event batch by not committing, and a schedule admission also where
its workflow is not enabled or not served. A batch that commits leaves exactly one run for every
workflow it matched, and one that fails leaves the plane as it was. -/
theorem one_key_admits_once (pg : Postgres J) (platform : Platform G) {p : Plane J}
    (hp : Reachable pg platform p) :
    KeysUnique p ∧
    (∀ turn a id p', admitManualRun pg turn a p = .ok (.queued id, p') →
      ∃ r input, p'.run id = some r ∧ pg.bind a.input = .ok input ∧
        r.AnswersTo a.idempotencyKey .manual input) ∧
    (∀ turn enabled release a id p',
      admitScheduleRun pg platform turn enabled release a p = .ok (.queued id, p') →
      ∃ r input, p'.run id = some r ∧
        pg.bind (.object [("due", .string (platform.dueText a.due))]) = .ok input ∧
        r.AnswersTo (scheduleKey a.application a.workflowId (platform.dueText a.due)) .schedule
          input) ∧
    (∀ id r key, p.run id = some r → r.idempotencyKey = some key →
      ∀ p', Runs pg platform p p' → KeySettled pg platform p' id r key) ∧
    (∀ (b : EventBatch G) p', b.transact pg platform p = .ok ((), p') → ∀ w input,
      b.Matches platform w input → ∃! id, ∃ r stored, p'.run id = some r ∧
        pg.bind input = .ok stored ∧ r.AnswersTo (b.key w) .event stored) ∧
    (∀ (b : EventBatch G) e, b.transact pg platform p = .error e →
      step pg platform p (.eventBatch b, true) = p) ∧
    ∀ t : Transaction J G, step pg platform p (t, false) = p := by
  have hunique := keysUnique_of_reachable hp
  refine ⟨hunique, ?_, ?_, ?_, ?_, ?_, fun _ => rfl⟩
  · intro turn a id p' h
    obtain ⟨q, read, hq, hanswer, houtcome⟩ := admitManualRun_eq_ok h
    obtain ⟨hkey, hinput⟩ := ManualRunAdmission.request_eq_ok hq
    cases read with
    | none => cases hanswer
    | some id' =>
      obtain rfl := ManualRunAdmitted.queued.inj hanswer
      obtain ⟨r, hr, hanswers⟩ := houtcome.answersTo
      exact ⟨r, q.input, hr, hinput, hkey ▸ hanswers⟩
  · intro turn enabled release a id p' h
    rcases admitScheduleRun_eq_ok h with
      ⟨-, hanswer, -⟩ | ⟨-, hanswer, -⟩ | ⟨-, -, q, read, hkey, hinput, hanswer, houtcome⟩
    · cases hanswer
    · cases hanswer
    · cases read with
      | none => cases hanswer
      | some id' =>
        obtain rfl := ScheduleRunAdmitted.queued.inj hanswer
        obtain ⟨r, hr, hanswers⟩ := houtcome.answersTo
        exact ⟨r, q.input, hr, hinput, hkey ▸ hanswers⟩
  · intro id r key hr hkey p' hruns
    -- The run is still stored, and its row answers to what the first row answered to.
    have hgrows := grows_of_runs hruns
    obtain ⟨r', hr', hsame⟩ := hgrows.kept id r hr
    have hsettled : KeySettled pg platform p' id r' key :=
      keySettled (hgrows.unique hunique) hr' (hsame.idempotencyKey.trans hkey)
    exact hsettled.congr hsame
  · intro b p' h w input hmatches
    exact existsUnique_run_of_eventBatch hunique h hmatches
  · intro b e h
    exact commit_of_error h

namespace Sample

open RunPlane.Sample

/-- A started run that a host claims and completes. -/
def completed : List (Transaction Value Unit) :=
  [.manual (admissionTurn "r1") (sync "orders"),
    .runPlane (.claimNext ⟨"a", some digest, true⟩ scope 30 (turn 1)),
    .runPlane (.complete ⟨"a", some digest, true⟩ "r1" 1 (.completed .null none) (turn 2))]

/-- A repeated start answers the run even after it has ended, and writes nothing. -/
theorem repeated_start_answers_the_ended_run :
    (∃ r, (planeAfter completed).run "r1" = some r ∧ r.status = .completed) ∧
      admitManualRun .identity (admissionTurn "r2") (sync "orders") (planeAfter completed) =
        .ok (.queued "r1", planeAfter completed) := by
  have hr : (planeAfter completed).run "r1" =
      some (((planeAfter completed).run "r1").get (by decide)) := (Option.some_get _).symm
  refine ⟨⟨_, hr, by decide⟩, ?_⟩
  cases hstart : admitManualRun .identity (admissionTurn "r2") (sync "orders")
      (planeAfter completed) with
  | error e =>
    have hok : (admitManualRun .identity (admissionTurn "r2") (sync "orders")
      (planeAfter completed)).isOk = true := by decide
    rw [hstart] at hok
    cases hok
  | ok result =>
    obtain ⟨answer, p'⟩ := result
    obtain ⟨-, -, -, hsettled, -⟩ := one_key_admits_once .identity library
      (reachable_planeAfter completed)
    obtain ⟨rfl, input, hinput, hanswer, -⟩ :=
      (hsettled "r1" _ (manualKey "u1" "sync" "k1") hr (by decide) _ (Steps.refl _)).manual
        (admissionTurn "r2") (sync "orders") answer p' rfl hstart
    obtain rfl := Except.ok.inj hinput
    rw [hanswer ⟨by decide, by decide, by decide⟩]

/-- The nightly run of `sync` in the application `orders`. -/
def nightly : ScheduleRunAdmission := ⟨"dev", "orders", [], "sync", digest, 7200⟩

/-- The admission of the nightly run, with the version of `sync` that is enabled. -/
def admitNightly (id : RunId) (enabled : Option EnabledVersion) (p : Plane Value) :
    Except ProductionClaimError (ScheduleRunAdmitted × Plane Value) :=
  admitScheduleRun .identity library (admissionTurn id) enabled
    (.ok ⟨fun _ _ => .ok digest, fun _ _ => .ok []⟩) nightly p

/-- A repeated due moment answers the first run while the workflow is enabled, and none
afterwards. -/
theorem disabled_schedule_answers_no_run :
    ∃ p, admitNightly "r1" (some ⟨1, "", digest, none⟩) .empty = .ok (.queued "r1", p) ∧
      admitNightly "r2" (some ⟨1, "", digest, none⟩) p = .ok (.queued "r1", p) ∧
      admitNightly "r2" none p = .ok (.notEnabled, p) :=
  ⟨_, rfl, rfl, rfl⟩

end Sample

end Wamn.Admission
