import Wamn.Admission.Admit
import Wamn.Lib.Rfc3339
import Wamn.RunPlane.System

/-!
# Admissions and the run plane together

Manual starts, schedules and event deliveries arrive in any number and order while executors,
janitors and operators work on the queue. Each is one serialized transaction that commits or aborts.
No later transaction changes what an admission fixes about a run, and none gives two runs one
idempotency key.
-/

namespace Wamn.Admission

open List
open Lib Lib.Json RunState Runtime RunPlane Events Materializer

variable {J G : Type} [DecidableEq J] {pg : Postgres J} {platform : Platform G} {p p' : Plane J}

/-! ## What admission transactions do -/

/-- Insert-or-read-back stored a new run, found the run asked for, or found the key in the hands of
another run. -/
inductive AdmitOutcome (grain : Grain) (now : Instant) (id : RunId) (q : Request J) (p : Plane J) :
    Option RunId → Plane J → Prop where
  | inserted (free : ∀ id' r, p.run id' = some r → r.idempotencyKey ≠ some q.idempotencyKey)
      (fresh : p.run id = none) :
      AdmitOutcome grain now id q p (some id)
        ((p.putRun id ((q.newRun grain.source).row now)).putEntry
          id (.admitted now 0 defaultMaxAttempts))
  | found (id' : RunId) (r : Run J) (stored : p.run id' = some r)
      (answers : r.AnswersTo q.idempotencyKey grain.source q.input) :
      AdmitOutcome grain now id q p (some id') p
  | conflict (taken : ∃ id' r, p.run id' = some r ∧ r.idempotencyKey = some q.idempotencyKey)
      (other : ∀ id' r, p.run id' = some r →
        ¬ r.AnswersTo q.idempotencyKey grain.source q.input) :
      AdmitOutcome grain now id q p none p

variable {grain : Grain} {now : Instant} {id : RunId} {q : Request J} {answer : Option RunId}
  {turn : AdmissionTurn} {a : ManualRunAdmission} {release : LoadedRelease G}
  {actor : Option String}

lemma admitOrRead_outcome (h : admitOrRead pg grain now id q p = .ok (answer, p')) :
    AdmitOutcome grain now id q p answer p' := by
  obtain ⟨⟨inserted, p₁⟩, hinsert, hrest⟩ := bind_eq_ok.1 h
  rcases insertRun_eq_ok (mapError_eq_ok.1 hinsert) with
    ⟨rfl, htaken, rfl⟩ | ⟨rfl, hfree, hfresh, -, rfl⟩
  · obtain ⟨rfl, rfl⟩ := done_eq_ok.1 hrest
    cases hselect : selectRun q.idempotencyKey grain.source q.input p₁ with
    | none =>
      have htaken := Plane.keyTaken_eq_true.1 htaken
      exact .conflict htaken fun id' r hr => selectRun_eq_none hselect hr
    | some id' =>
      obtain ⟨r, hr, hanswers⟩ := selectRun_eq_some hselect
      exact .found id' r hr hanswers
  · obtain ⟨p₂, hqueue, hrest⟩ := bind_eq_ok.1 hrest
    obtain ⟨-, rfl⟩ := insertQueueRow_eq_ok (mapError_eq_ok.1 hqueue)
    obtain ⟨rfl, rfl⟩ := done_eq_ok.1 hrest
    -- The insert returned its id, so no stored run carried the key.
    refine .inserted (fun id' r hr hkey => ?_) hfresh
    have htaken := Plane.keyTaken_eq_true.2 ⟨id', r, hr, hkey⟩
    exact absurd (hfree.symm.trans htaken) (by decide)

/-- Where key and drawn id are free, a row that meets its constraints is stored and queued. -/
theorem admitOrRead_of_free (hrow : ((q.newRun grain.source).row now).violated pg id = none)
    (hkey : p.keyTaken (some q.idempotencyKey) = false) (hrun : p.run id = none)
    (hentry : p.entry id = none) : admitOrRead pg grain now id q p = .ok (some id,
      (p.putRun id ((q.newRun grain.source).row now)).putEntry id
        (.admitted now 0 defaultMaxAttempts)) := by
  have hinsert : insertRun pg now id (q.newRun grain.source) p =
      .ok (some id, p.putRun id ((q.newRun grain.source).row now)) := by
    have hnewKey : (q.newRun grain.source).idempotencyKey = some q.idempotencyKey := rfl
    simp only [insertRun, hrow, hnewKey, hkey, hrun]
    rfl
  refine bind_eq_ok.2 ⟨_, mapError_eq_ok.2 hinsert, bind_eq_ok.2 ⟨_, ?_, rfl⟩⟩
  refine mapError_eq_ok.2 ?_
  simp [insertRunQueue, insertQueueRow, hentry]
  rfl

lemma admitManualRun_eq_ok {answer : ManualRunAdmitted}
    (h : admitManualRun pg turn a p = .ok (answer, p')) :
    ∃ q read, a.request pg = .ok q ∧ answer = read.elim .conflict .queued ∧
      AdmitOutcome .manual turn.now (turn.drawnId 0) q p read p' := by
  obtain ⟨-, -, h⟩ := bind_eq_ok.1 h
  obtain ⟨-, -, h⟩ := bind_eq_ok.1 h
  obtain ⟨q, hq, h⟩ := bind_eq_ok.1 h
  obtain ⟨⟨read, p₁⟩, hread, h⟩ := bind_eq_ok.1 h
  obtain ⟨rfl, rfl⟩ := done_eq_ok.1 h
  exact ⟨q, read, mapError_eq_ok.1 hq, rfl, admitOrRead_outcome hread⟩

omit [DecidableEq J] in
lemma ManualRunAdmission.request_eq_ok (h : a.request pg = .ok q) :
    q.idempotencyKey = a.idempotencyKey ∧ pg.bind a.input = .ok q.input := by
  obtain ⟨digests, -, h⟩ := bind_eq_ok.1 h
  obtain ⟨input, hinput, h⟩ := bind_eq_ok.1 h
  obtain rfl := pure_eq_ok.1 h
  exact ⟨rfl, hinput⟩

/-- A schedule admission writes nothing where no version is enabled or the enabled one is not
served, and else binds its key and inserts or reads back. -/
theorem admitScheduleRun_eq_ok {enabled : Option EnabledVersion}
    {release : Except ProductionClaimError (Manifest G)} {a : ScheduleRunAdmission}
    {answer : ScheduleRunAdmitted}
    (h : admitScheduleRun pg platform turn enabled release a p = .ok (answer, p')) :
    (enabled = none ∧ answer = .notEnabled ∧ p' = p) ∨
      (NotInRelease platform enabled release a ∧ answer = .notServed ∧ p' = p) ∨
      enabled ≠ none ∧ ¬ NotInRelease platform enabled release a ∧
      ∃ (q : Request J) (read : Option RunId),
        q.idempotencyKey = scheduleKey a.application a.workflowId (platform.dueText a.due) ∧
        pg.bind (.object [("due", .string (platform.dueText a.due))]) = .ok q.input ∧
        answer = read.elim .conflict .queued ∧
        AdmitOutcome .schedule turn.now (turn.drawnId 0) q p read p' := by
  obtain ⟨-, -, h⟩ := bind_eq_ok.1 h
  cases enabled with
  | none =>
    obtain ⟨rfl, rfl⟩ := done_eq_ok.1 h
    exact .inl ⟨rfl, rfl, rfl⟩
  | some workflow =>
    obtain ⟨graph, hgraph, h⟩ := bind_eq_ok.1 h
    obtain ⟨manifest, hmanifest, h⟩ := bind_eq_ok.1 h
    have hgraph := mapError_eq_ok.1 hgraph
    split at h
    · rename_i hunserved
      obtain ⟨rfl, rfl⟩ := done_eq_ok.1 h
      exact .inr (.inl ⟨⟨workflow, graph, manifest, rfl, hgraph, hmanifest, hunserved⟩, rfl, rfl⟩)
    · rename_i components hcomponents
      have hserved : ¬ NotInRelease platform (some workflow) release a := by
        rintro ⟨_, _, _, ⟨⟩, hgraph', hmanifest', hunserved⟩
        cases hgraph.symm.trans hgraph'
        cases hmanifest.symm.trans hmanifest'
        cases hcomponents.symm.trans hunserved
      obtain ⟨-, -, h⟩ := bind_eq_ok.1 h
      obtain ⟨q, hq, h⟩ := bind_eq_ok.1 h
      obtain ⟨⟨read, p₁⟩, hread, h⟩ := bind_eq_ok.1 h
      obtain ⟨rfl, rfl⟩ := done_eq_ok.1 h
      obtain ⟨digests, -, hq⟩ := bind_eq_ok.1 (mapError_eq_ok.1 hq)
      obtain ⟨input, hinput, hq⟩ := bind_eq_ok.1 hq
      obtain rfl := pure_eq_ok.1 hq
      exact .inr (.inr ⟨nofun, hserved, _, read, rfl, hinput, rfl, admitOrRead_outcome hread⟩)

/-- The admission of one matched workflow binds key, input and ancestry, and inserts or finds its
run. -/
theorem admitEventRun_eq_ok {runId : RunId} {delivery : String} {ancestry : Lineage}
    {matched : EventWorkflow × Value}
    (h : admitEventRun pg platform release now id delivery actor ancestry matched p =
      .ok (runId, p')) : ∃ q : Request J,
      q.idempotencyKey = eventKey release.environment matched.1.trigger.application
        matched.1.trigger.workflowId delivery ∧
      pg.bind matched.2 = .ok q.input ∧ q.eventSourceRunId = ancestry.sourceRun ∧
      q.eventRootRunId = ancestry.rootRun ∧ q.eventDepth = ancestry.depth ∧
      AdmitOutcome .event now id q p (some runId) p' := by
  obtain ⟨components, -, h⟩ := bind_eq_ok.1 h
  obtain ⟨q, hq, h⟩ := bind_eq_ok.1 h
  obtain ⟨⟨read, p₁⟩, hread, h⟩ := bind_eq_ok.1 h
  cases read with
  | none => cases h
  | some found =>
    obtain ⟨rfl, rfl⟩ := done_eq_ok.1 h
    obtain ⟨digests, -, hq⟩ := bind_eq_ok.1 (mapError_eq_ok.1 hq)
    obtain ⟨input, hinput, hq⟩ := bind_eq_ok.1 hq
    obtain rfl := pure_eq_ok.1 hq
    exact ⟨_, rfl, hinput, rfl, rfl, rfl, admitOrRead_outcome hread⟩

section Match

variable {jmes : JmesPathLibrary} {event : SourceEvent} {sequence : ℕ} {packages : List String}
  {envKey : String} {workflows : List EventWorkflow} {matched : List (EventWorkflow × Value)}

/-- The matched workflows are those that answer the event with an input, in their order. -/
theorem matchTriggers_eq_ok
    (h : matchTriggers jmes event sequence packages envKey workflows = .ok matched) :
    (∀ w ∈ workflows, ∃ answer,
        w.trigger.isMatch jmes event sequence packages envKey = .ok answer) ∧
      (matched.map Prod.fst).Sublist workflows ∧
      ∀ w input, (w, input) ∈ matched ↔ w ∈ workflows ∧
        w.trigger.isMatch jmes event sequence packages envKey = .ok (some input) := by
  induction workflows generalizing matched with
  | nil =>
    obtain rfl := pure_eq_ok.1 h
    exact ⟨nofun, .slnil, by simp⟩
  | cons first rest ih =>
    obtain ⟨answer, hanswer, h⟩ := bind_eq_ok.1 h
    obtain ⟨others, hothers, h⟩ := bind_eq_ok.1 h
    obtain rfl := pure_eq_ok.1 h
    have hfirst := mapError_eq_ok.1 hanswer
    obtain ⟨hall, hsublist, hmem⟩ := ih hothers
    refine ⟨forall_mem_cons.2 ⟨⟨answer, hfirst⟩, hall⟩, ?_, fun w input => ?_⟩
    · cases answer with
      | none => exact hsublist.cons first
      | some input => exact hsublist.cons_cons first
    · -- A match is of the head of the list or of the rest.
      rw [mem_append, hmem, mem_cons, or_and_right]
      refine or_congr_left ?_
      simp only [mem_map, Option.mem_toList, Prod.mk.injEq]
      constructor
      · rintro ⟨found, rfl, rfl, rfl⟩
        exact ⟨rfl, hfirst⟩
      · rintro ⟨rfl, hw⟩
        exact ⟨input, Except.ok.inj (hfirst.symm.trans hw), rfl, rfl⟩

lemma exists_matchTriggers (h : ∀ w ∈ workflows, ∃ answer,
      w.trigger.isMatch jmes event sequence packages envKey = .ok answer) :
    ∃ matched, matchTriggers jmes event sequence packages envKey workflows = .ok matched := by
  induction workflows with
  | nil => exact ⟨[], rfl⟩
  | cons first rest ih =>
    obtain ⟨⟨answer, hfirst⟩, hrest⟩ := forall_mem_cons.1 h
    obtain ⟨others, hothers⟩ := ih hrest
    exact ⟨_, bind_eq_ok.2 ⟨answer, mapError_eq_ok.2 hfirst,
      bind_eq_ok.2 ⟨others, hothers, rfl⟩⟩⟩

end Match

/-- A batch that commits is of an identified event, and writes nothing or admits the matched
workflows. -/
theorem admitEventBatch_eq_ok {workflows : List EventWorkflow}
    {history : Except ProductionClaimError (Option String)} {a : EventBatchAdmission} {u : Unit}
    (h : admitEventBatch pg platform release turn workflows history a p = .ok (u, p')) :
    ∃ event, identifyEvent platform release a = .ok event ∧
      ((event.source ≠ (a.sourcePackage, a.entity) ∧ p' = p) ∨
        event.source = (a.sourcePackage, a.entity) ∧
        ∃ matched, matchTriggers platform.jmes event a.sequence
            (release.applications.flatMap Prod.snd) release.envKey workflows = .ok matched ∧
          ((matched = [] ∧ p' = p) ∨
            ∃ actor ancestry, lineage event.causation = .ok ancestry ∧
              admitEventRuns pg platform release turn a.delivery actor ancestry 0 matched p =
                .ok p')) := by
  obtain ⟨-, -, h⟩ := bind_eq_ok.1 h
  obtain ⟨event, hevent, h⟩ := bind_eq_ok.1 h
  refine ⟨event, hevent, ?_⟩
  split at h
  · rename_i hother
    obtain ⟨-, rfl⟩ := done_eq_ok.1 h
    exact .inl ⟨hother, rfl⟩
  · rename_i hown
    obtain ⟨p₁, hadmit, h⟩ := bind_eq_ok.1 h
    obtain ⟨-, rfl⟩ := done_eq_ok.1 h
    obtain ⟨matched, hmatched, hadmit⟩ := bind_eq_ok.1 hadmit
    refine .inr ⟨not_ne_iff.1 hown, matched, hmatched, ?_⟩
    split at hadmit
    · rename_i hempty
      exact .inl ⟨isEmpty_iff.1 hempty, (pure_eq_ok.1 hadmit).symm⟩
    · obtain ⟨actor, -, hadmit⟩ := bind_eq_ok.1 hadmit
      obtain ⟨-, -, hadmit⟩ := bind_eq_ok.1 hadmit
      obtain ⟨ancestry, hancestry, hadmit⟩ := bind_eq_ok.1 hadmit
      exact .inr ⟨actor, ancestry, hancestry, hadmit⟩

/-! ## What an admission fixes -/

/-- What an admission fixes for the life of a run: the request it answers to, and its event
ancestry. -/
structure SameAdmission (r r' : Run J) : Prop where
  idempotencyKey : r'.idempotencyKey = r.idempotencyKey
  triggerSource : r'.triggerSource = r.triggerSource
  inputJson : r'.inputJson = r.inputJson
  eventRootRunId : r'.eventRootRunId = r.eventRootRunId
  eventDepth : r'.eventDepth = r.eventDepth

namespace SameAdmission

variable {r r' r'' : Run J}

omit [DecidableEq J] in
lemma refl (r : Run J) : SameAdmission r r := ⟨rfl, rfl, rfl, rfl, rfl⟩

omit [DecidableEq J] in
lemma trans (h : SameAdmission r r') (h' : SameAdmission r' r'') : SameAdmission r r'' :=
  ⟨h'.1.trans h.1, h'.2.trans h.2, h'.3.trans h.3, h'.4.trans h.4, h'.5.trans h.5⟩

omit [DecidableEq J] in
lemma answersTo_iff (h : SameAdmission r r') {key : String} {source : TriggerSource} {input : J} :
    r'.AnswersTo key source input ↔ r.AnswersTo key source input := by
  constructor
  · rintro ⟨hkey, hsource, hinput⟩
    exact ⟨h.1 ▸ hkey, h.2 ▸ hsource, h.3 ▸ hinput⟩
  · rintro ⟨hkey, hsource, hinput⟩
    exact ⟨h.1.trans hkey, h.2.trans hsource, h.3.trans hinput⟩

end SameAdmission

omit [DecidableEq J] in
lemma sameAdmission_of_callerSettled {instant : Instant}
    {caller : Option ProductionCallerOutcome} {r settled : Run J}
    (h : CallerSettled pg instant caller r settled) : SameAdmission r settled := by
  cases h <;> exact ⟨rfl, rfl, rfl, rfl, rfl⟩

omit [DecidableEq J] in
lemma sameAdmission_of_rowChange {a : Action J} {grant : Option Grant} {r : Run J}
    {q q' : Option QueueRow} {r' : Option (Run J)} (h : RowChange pg id a grant (some r) q r' q') :
    ∃ kept, r' = some kept ∧ SameAdmission r kept := by
  cases h with
  | grantRefused _ _ _ _ _ q | granted _ _ _ _ _ q =>
    obtain ⟨hkey, hsource, hinput, hroot, hdepth⟩ : SameAdmission r (reclaimed r q) :=
      reclaimed_rec (P := SameAdmission r) ⟨rfl, rfl, rfl, rfl, rfl⟩ ⟨rfl, rfl, rfl, rfl, rfl⟩
    exact ⟨_, rfl, hkey, hsource, hinput, hroot, hdepth⟩
  -- A completion settles the caller first and then the run itself.
  | completed _ _ _ _ _ settled _ _ _ caller =>
    have hsettled := sameAdmission_of_callerSettled caller
    exact ⟨_, rfl, hsettled.trans ⟨rfl, rfl, rfl, rfl, rfl⟩⟩
  | _ => exact ⟨_, rfl, ⟨rfl, rfl, rfl, rfl, rfl⟩⟩

/-! ## Growth of the run plane -/

/-- No two runs have one key. -/
def KeysUnique (p : Plane J) : Prop :=
  ∀ id id' r r' key, p.run id = some r → p.run id' = some r' → r.idempotencyKey = some key →
    r'.idempotencyKey = some key → id = id'

/-- Every transaction keeps stored runs with what their admission fixed, and keys unique. -/
structure Grows (p p' : Plane J) : Prop where
  kept : ∀ id r, p.run id = some r → ∃ r', p'.run id = some r' ∧ SameAdmission r r'
  unique : KeysUnique p → KeysUnique p'

namespace Grows

omit [DecidableEq J] in
lemma refl (p : Plane J) : Grows p p :=
  ⟨fun _ r hr => ⟨r, hr, SameAdmission.refl r⟩, id⟩

omit [DecidableEq J] in
lemma trans {p'' : Plane J} (h : Grows p p') (h' : Grows p' p'') : Grows p p'' := by
  refine ⟨fun id r hr => ?_, h'.unique ∘ h.unique⟩
  obtain ⟨r', hr', hsame⟩ := h.kept id r hr
  obtain ⟨r'', hr'', hsame'⟩ := h'.kept id r' hr'
  exact ⟨r'', hr'', hsame.trans hsame'⟩

omit [DecidableEq J] in
lemma insert {id : RunId} {r : Run J} {q : QueueRow} (hfresh : p.run id = none)
    (hfree : ∀ id' r' key, p.run id' = some r' → r.idempotencyKey = some key →
      r'.idempotencyKey ≠ some key) :
    Grows p ((p.putRun id r).putEntry id q) := by
  constructor
  · intro id' r' hr'
    have hne : id' ≠ id := by
      rintro rfl
      rw [hfresh] at hr'
      cases hr'
    exact ⟨r', by simpa [hne] using hr', SameAdmission.refl r'⟩
  · intro hunique id₁ id₂ r₁ r₂ key hr₁ hr₂ hkey₁ hkey₂
    simp only [Plane.run_putEntry, Plane.run_putRun] at hr₁ hr₂
    -- Two runs under one key: both new, one of each, or both old.
    split at hr₁ <;> split at hr₂
    · exact ‹id₁ = id›.trans ‹id₂ = id›.symm
    · obtain rfl := Option.some.inj hr₁
      exact absurd hkey₂ (hfree id₂ r₂ key hr₂ hkey₁)
    · obtain rfl := Option.some.inj hr₂
      exact absurd hkey₁ (hfree id₁ r₁ key hr₁ hkey₂)
    · exact hunique id₁ id₂ r₁ r₂ key hr₁ hr₂ hkey₁ hkey₂

omit [DecidableEq J] in
lemma of_kept (hkept : ∀ id r, p.run id = some r →
      ∃ r', p'.run id = some r' ∧ SameAdmission r r')
    (hold : ∀ id r', p'.run id = some r' → ∃ r, p.run id = some r) : Grows p p' := by
  -- Both runs were there before, under the keys they carry now.
  refine ⟨hkept, fun hunique id₁ id₂ r₁ r₂ key hr₁ hr₂ hkey₁ hkey₂ => ?_⟩
  obtain ⟨old₁, hold₁⟩ := hold id₁ r₁ hr₁
  obtain ⟨old₂, hold₂⟩ := hold id₂ r₂ hr₂
  obtain ⟨kept₁, hkept₁, hsame₁⟩ := hkept id₁ old₁ hold₁
  obtain ⟨kept₂, hkept₂, hsame₂⟩ := hkept id₂ old₂ hold₂
  obtain rfl := Option.mem_unique hr₁ hkept₁
  obtain rfl := Option.mem_unique hr₂ hkept₂
  exact hunique id₁ id₂ old₁ old₂ key hold₁ hold₂ (hsame₁.1 ▸ hkey₁) (hsame₂.1 ▸ hkey₂)

end Grows

omit [DecidableEq J] in
lemma AdmitOutcome.grows (h : AdmitOutcome grain now id q p answer p') : Grows p p' := by
  cases h with
  | inserted free fresh =>
    refine Grows.insert fresh fun id' r' key hr' hkey => ?_
    obtain rfl := Option.some.inj hkey
    exact free id' r' hr'
  | found | conflict => exact Grows.refl p

lemma grows_of_admitEventRuns {delivery : String} {ancestry : Lineage} {n : ℕ}
    {matched : List (EventWorkflow × Value)}
    (h : admitEventRuns pg platform release turn delivery actor ancestry n matched p = .ok p') :
    Grows p p' := by
  induction matched generalizing n p with
  | nil =>
    obtain rfl := pure_eq_ok.1 h
    exact Grows.refl p
  | cons matched rest ih =>
    obtain ⟨⟨runId, p₁⟩, hrun, hrest⟩ := bind_eq_ok.1 h
    obtain ⟨q, -, -, -, -, -, houtcome⟩ := admitEventRun_eq_ok hrun
    exact houtcome.grows.trans (ih hrest)

omit [DecidableEq J] in
lemma grows_runPlane (pg : Postgres J) (p : Plane J) (a : Action J) :
    Grows p (RunPlane.step pg p a) := by
  by_cases hadmit : ∃ now id run availableAt streamSeq maxAttempts,
      a = .admitRun now id run availableAt streamSeq maxAttempts
  · obtain ⟨now, id, run, availableAt, streamSeq, maxAttempts, rfl⟩ := hadmit
    refine commit_rec (Grows.refl p) fun answer p' h => ?_
    -- A run that the plane admits directly may have no key; one with a key has it alone.
    rcases admitRun_eq_ok h with ⟨-, -, rfl⟩ | ⟨-, hfree, hfresh, -, -, rfl⟩
    · exact Grows.refl _
    · refine Grows.insert hfresh fun id' r' key hr' hkey hkey' => ?_
      have hrow : run.idempotencyKey = some key := hkey
      rw [hrow] at hfree
      have htaken := Plane.keyTaken_eq_true.2 ⟨id', r', hr', hkey'⟩
      exact absurd (hfree.symm.trans htaken) (by decide)
  · refine Grows.of_kept (fun id r hr => ?_) fun id r' hr' => ?_
    · refine run_step pg a (K := fun r' => SameAdmission r r')
        (fun id grant r₁ q r' q' hkeep hrow => ?_) hr (SameAdmission.refl r)
      obtain ⟨kept, hkept, hsame⟩ := sameAdmission_of_rowChange hrow
      exact ⟨kept, hkept, hkeep.trans hsame⟩
    · -- Only an admission stores the first row of a run.
      rcases step_rowChange pg p a with ⟨hsame, -⟩ | ⟨id', row, q', hrow, hrewrites⟩
      · exact ⟨r', by rw [← hsame, hr']⟩
      · rw [(hrewrites id).1] at hr'
        by_cases hne : id = id'
        · subst hne
          obtain rfl : row = some r' := by simpa using hr'
          generalize p.run id = old at hrow
          generalize p.entry id = oldEntry at hrow
          generalize granted pg p a = grant at hrow
          cases hrow with
          | admitted => exact absurd ⟨_, _, _, _, _, _, rfl⟩ hadmit
          | _ => exact ⟨_, rfl⟩
        · exact ⟨r', by simpa [hne] using hr'⟩

/-! ## The system -/

/-- One event delivery to admit, with what its transaction reads. -/
structure EventBatch (G : Type) where
  release : LoadedRelease G
  turn : AdmissionTurn
  workflows : List EventWorkflow
  history : Except ProductionClaimError (Option String)
  admission : EventBatchAdmission

section

variable (pg : Postgres J) (platform : Platform G) (b : EventBatch G) (p : Plane J)

/-- The transaction of the delivery. -/
def EventBatch.transact : Except ProductionClaimError (Unit × Plane J) :=
  admitEventBatch pg platform b.release b.turn b.workflows b.history b.admission p

/-- The transactions of a tenant: the three admissions, and those of the run plane. -/
inductive Transaction (J G : Type) where
  | manual (turn : AdmissionTurn) (a : ManualRunAdmission)
  | schedule (turn : AdmissionTurn) (enabled : Option EnabledVersion)
      (release : Except ProductionClaimError (Manifest G)) (a : ScheduleRunAdmission)
  | eventBatch (batch : EventBatch G)
  | runPlane (action : Action J)

/-- The plane after a transaction, which may be aborted whatever it did. -/
def step : Transaction J G × Bool → Plane J
  | (_, false) => p
  | (.manual turn a, true) => commit (admitManualRun pg turn a) p
  | (.schedule turn enabled release a, true) =>
    commit (admitScheduleRun pg platform turn enabled release a) p
  | (.eventBatch batch, true) => commit (batch.transact pg platform) p
  | (.runPlane action, true) => RunPlane.step pg p action

/-- The plane reaches another one by transactions, committed or aborted. -/
def Runs : Plane J → Plane J → Prop :=
  Steps (step pg platform) fun _ _ => True

/-- The planes of a tenant. -/
def Reachable : Prop :=
  Runs pg platform .empty p

end

lemma grows_of_eventBatch {b : EventBatch G} {u : Unit}
    (h : b.transact pg platform p = .ok (u, p')) : Grows p p' := by
  obtain ⟨event, -, ⟨-, rfl⟩ | ⟨-, matched, -, ⟨-, rfl⟩ | ⟨actor, ancestry, -, hruns⟩⟩⟩ :=
    admitEventBatch_eq_ok h
  · exact Grows.refl _
  · exact Grows.refl _
  · exact grows_of_admitEventRuns hruns

lemma grows_step (pg : Postgres J) (platform : Platform G) (p : Plane J)
    (t : Transaction J G × Bool) : Grows p (step pg platform p t) := by
  obtain ⟨transaction, committed⟩ := t
  cases committed with
  | false => exact Grows.refl p
  | true =>
    cases transaction with
    | manual turn a =>
      refine commit_rec (Grows.refl p) fun answer p' h => ?_
      obtain ⟨q, read, -, -, houtcome⟩ := admitManualRun_eq_ok h
      exact houtcome.grows
    | schedule turn enabled release a =>
      refine commit_rec (Grows.refl p) fun answer p' h => ?_
      rcases admitScheduleRun_eq_ok h with
        ⟨-, -, rfl⟩ | ⟨-, -, rfl⟩ | ⟨-, -, q, read, -, -, -, houtcome⟩
      · exact Grows.refl _
      · exact Grows.refl _
      · exact houtcome.grows
    | eventBatch batch => exact commit_rec (Grows.refl p) fun _ p' h => grows_of_eventBatch h
    | runPlane action => exact grows_runPlane pg p action

lemma grows_of_runs (h : Runs pg platform p p') : Grows p p' :=
  Steps.related Grows.refl (fun _ _ _ => Grows.trans) (fun s t _ => grows_step pg platform s t) h

lemma keysUnique_of_reachable (h : Reachable pg platform p) : KeysUnique p :=
  (grows_of_runs h).unique fun id _ r _ _ hr => by simp at hr

/-! ## A small tenant

The pieces of the concrete runs that stand beside the general theorems. -/

namespace Sample

open RunPlane.Sample

/-- Some digest. -/
def digest : String := "sha256:" ++ String.ofList (List.replicate 64 'a')

/-- A platform with one graph and RFC 3339 moments, which decodes no event. -/
def library : Platform Unit where
  parseGraph := fun _ => .ok ()
  dueText due := String.ofList (Rfc3339.secondsText due)
  decodeEvent := fun _ => .error "not an event"
  derivedMsgId := fun _ => "derived:"
  jmes := Events.Sample.jmes
  workflowUserId := "workflow"

/-- An admission at the epoch that draws this id. -/
def admissionTurn (id : RunId) : AdmissionTurn := ⟨host "host", some "standard", 0, fun _ => id⟩

/-- A start of `sync` in an application, under the key `k1` of the user `u1`. -/
def sync (application : String) : ManualRunAdmission where
  packageId := application
  manifestDigest := digest
  environment := "dev"
  workflowId := "sync"
  workflowVersion := 1
  wiringHash := digest
  executionPrincipalId := "u1"
  executionRole := "clerk"
  invokedByUserId := "u1"
  nodeDigests := .object []
  idempotencyKey := manualKey "u1" "sync" "k1"
  input := .null

/-- The plane after committed transactions on a tenant without rows. -/
def planeAfter (transactions : List (Transaction Value Unit)) : Plane Value :=
  (transactions.map fun t => (t, true)).foldl (step .identity library) .empty

lemma reachable_planeAfter (transactions : List (Transaction Value Unit)) :
    Reachable .identity library (planeAfter transactions) :=
  Steps.foldl _ _ fun _ _ _ => trivial

end Sample

end Wamn.Admission
