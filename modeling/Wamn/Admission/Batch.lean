import Wamn.Admission.System

/-!
# The workflows of one batch

A batch admits the workflows that an event matches one after the other in one transaction. Their
keys differ and their run ids are fresh, so that no admission of the batch makes another one succeed
or fail: it commits exactly if the transaction of every single enabled workflow would.
-/

namespace Wamn.Admission

open List
open Lib Lib.Json Lib.Text RunState Runtime Events Materializer

variable {J G : Type} [DecidableEq J] {pg : Postgres J} {platform : Platform G} {p p' : Plane J}

/-! ## One run -/

omit [DecidableEq J] in
lemma violated_eq_of_depth {r : Run J} (h : r.eventDepth ≠ some 0) (id id' : RunId) :
    r.violated pg id = r.violated pg id' := by
  simp [Run.violated, Run.checks, h]

/-- Under a fresh id, a run is answered exactly if the row meets its constraints and agrees with a
run that has the key. -/
theorem admitOrRead_some_iff {grain : Grain} {now : Instant} {id : RunId} {q : Request J}
    (hrun : p.run id = none) (hentry : p.entry id = none) :
    (∃ id' p', admitOrRead pg grain now id q p = .ok (some id', p')) ↔
      ((q.newRun grain.source).row now).violated pg id = none ∧
        (p.keyTaken (some q.idempotencyKey) = true →
          (selectRun q.idempotencyKey grain.source q.input p).isSome = true) := by
  cases hrow : ((q.newRun grain.source).row now).violated pg id with
  | some constraint =>
    simp only [reduceCtorEq, false_and, iff_false]
    rintro ⟨id', p', h⟩
    simp only [admitOrRead, insertRun, hrow] at h
    cases h
  | none =>
    cases hkey : p.keyTaken (some q.idempotencyKey) with
    | false =>
      exact ⟨fun _ => ⟨rfl, (absurd · (by decide))⟩,
        fun _ => ⟨id, _, admitOrRead_of_free hrow hkey hrun hentry⟩⟩
    | true =>
      have hread : admitOrRead pg grain now id q p =
          .ok (selectRun q.idempotencyKey grain.source q.input p, p) := by
        have hnewKey : (q.newRun grain.source).idempotencyKey = some q.idempotencyKey := rfl
        simp only [admitOrRead, insertRun, hrow, hnewKey, hkey]
        rfl
      rw [hread]
      cases selectRun q.idempotencyKey grain.source q.input p with
      | none | some found => simp

/-! ## One workflow -/

/-- The ids from the `n`-th on are drawn fresh. -/
structure FreshIds (turn : AdmissionTurn) (n : ℕ) (p : Plane J) : Prop where
  distinct : Function.Injective turn.drawnId
  unused : ∀ k, n ≤ k → p.run (turn.drawnId k) = none ∧ p.entry (turn.drawnId k) = none

section Runs

variable {release : LoadedRelease G} {turn : AdmissionTurn} {delivery : String}
  {actor : Option String} {ancestry : Lineage} {n : ℕ} {m m' : EventWorkflow × Value}

/-- The key of a workflow's run for this delivery. -/
def runKey (release : LoadedRelease G) (delivery : String) (w : EventWorkflow) : String :=
  eventKey release.environment w.trigger.application w.trigger.workflowId delivery

/-- A matched workflow can be admitted: its graph is served, its row meets the constraints, and a
run that has its key is its own. -/
def Ready (pg : Postgres J) (platform : Platform G) (release : LoadedRelease G)
    (turn : AdmissionTurn) (delivery : String) (actor : Option String) (ancestry : Lineage)
    (p : Plane J) (m : EventWorkflow × Value) : Prop :=
  ∃ components q, eventComponents platform release m.1 = .ok components ∧
    eventRequest pg platform release delivery actor ancestry m.1 components m.2 = .ok q ∧
    ((q.newRun .event).row turn.now).violated pg (turn.drawnId 0) = none ∧
    ((∃ id r, p.run id = some r ∧ r.idempotencyKey = some (runKey release delivery m.1)) →
      ∃ id r, p.run id = some r ∧ r.AnswersTo (runKey release delivery m.1) .event q.input)

omit [DecidableEq J] in
lemma eventRequest_eq_ok {components : List (String × String)} {q : Request J}
    (h : eventRequest pg platform release delivery actor ancestry m.1 components m.2 = .ok q) :
    q.idempotencyKey = runKey release delivery m.1 ∧ q.eventDepth = ancestry.depth := by
  obtain ⟨digests, -, h⟩ := bind_eq_ok.1 h
  obtain ⟨input, -, h⟩ := bind_eq_ok.1 h
  obtain rfl := pure_eq_ok.1 h
  exact ⟨rfl, rfl⟩

/-- A key that is taken belongs to the run that is asked for, in terms of what is stored. -/
theorem selectRun_of_taken_iff {key : String} {source : TriggerSource} {input : J} :
    (p.keyTaken (some key) = true → (selectRun key source input p).isSome = true) ↔
      ((∃ id r, p.run id = some r ∧ r.idempotencyKey = some key) →
        ∃ id r, p.run id = some r ∧ r.AnswersTo key source input) := by
  rw [Plane.keyTaken_eq_true]
  refine imp_congr_right fun _ => ?_
  cases hselect : selectRun key source input p with
  | none =>
    simp only [Option.isSome_none, Bool.false_eq_true, false_iff]
    rintro ⟨id, r, hr, hanswers⟩
    exact selectRun_eq_none hselect hr hanswers
  | some id =>
    obtain ⟨r, hr, hanswers⟩ := selectRun_eq_some hselect
    exact ⟨fun _ => ⟨id, r, hr, hanswers⟩, fun _ => rfl⟩

lemma admitEventRun_ok_iff (hdepth : ancestry.depth ≠ some 0) (hfresh : FreshIds turn n p) :
    (∃ id p', admitEventRun pg platform release turn.now (turn.drawnId n) delivery actor ancestry
        m p = .ok (id, p')) ↔
      Ready pg platform release turn delivery actor ancestry p m := by
  obtain ⟨hrun, hentry⟩ := hfresh.unused n (Nat.le_refl n)
  have hread : ∀ {q : Request J}, q.idempotencyKey = runKey release delivery m.1 →
      q.eventDepth = ancestry.depth →
      ((∃ id p', admitOrRead pg .event turn.now (turn.drawnId n) q p = .ok (some id, p')) ↔
        ((q.newRun .event).row turn.now).violated pg (turn.drawnId 0) = none ∧
          ((∃ id r, p.run id = some r ∧ r.idempotencyKey = some (runKey release delivery m.1)) →
            ∃ id r, p.run id = some r ∧
              r.AnswersTo (runKey release delivery m.1) .event q.input)) := by
    intro q hkey hq
    rw [admitOrRead_some_iff hrun hentry, selectRun_of_taken_iff, hkey]
    have hrow : ((q.newRun .event).row turn.now).eventDepth ≠ some 0 := by
      show q.eventDepth ≠ some 0
      rw [hq]
      exact hdepth
    rw [show Grain.event.source = .event from rfl, violated_eq_of_depth hrow _ (turn.drawnId 0)]
  constructor
  · rintro ⟨id, p', h⟩
    obtain ⟨components, hcomponents, h⟩ := bind_eq_ok.1 h
    obtain ⟨q, hq, h⟩ := bind_eq_ok.1 h
    obtain ⟨⟨answer, p₁⟩, hadmit, h⟩ := bind_eq_ok.1 h
    have hq := mapError_eq_ok.1 hq
    obtain ⟨hkey, hdepth'⟩ := eventRequest_eq_ok hq
    cases answer with
    | none => cases h
    | some found =>
      exact ⟨components, q, hcomponents, hq, (hread hkey hdepth').1 ⟨found, p₁, hadmit⟩⟩
  · rintro ⟨components, q, hcomponents, hq, hready⟩
    obtain ⟨hkey, hdepth'⟩ := eventRequest_eq_ok hq
    obtain ⟨found, p₁, hadmit⟩ := (hread hkey hdepth').2 hready
    exact ⟨found, p₁, bind_eq_ok.2 ⟨components, hcomponents, bind_eq_ok.2
      ⟨q, mapError_eq_ok.2 hq, bind_eq_ok.2 ⟨_, hadmit, rfl⟩⟩⟩⟩

omit [DecidableEq J] in
lemma exists_putRun_iff {id : RunId} {row : Run J} {e : QueueRow} {key : String}
    (hfresh : p.run id = none) (hkey : row.idempotencyKey ≠ some key) {P : Run J → Prop}
    (hP : ∀ r, P r → r.idempotencyKey = some key) :
    (∃ id' r, ((p.putRun id row).putEntry id e).run id' = some r ∧ P r) ↔
      ∃ id' r, p.run id' = some r ∧ P r := by
  constructor
  · rintro ⟨id', r, hr, hpr⟩
    rw [Plane.run_putEntry, Plane.run_putRun] at hr
    split at hr
    · obtain rfl := Option.some.inj hr
      exact absurd (hP _ hpr) hkey
    · exact ⟨id', r, hr, hpr⟩
  · rintro ⟨id', r, hr, hpr⟩
    refine ⟨id', r, ?_, hpr⟩
    rw [Plane.run_putEntry, Plane.run_putRun, if_neg, hr]
    rintro rfl
    rw [hfresh] at hr
    cases hr

/-- An admission leaves the later ids fresh, and what another workflow needs as it was. -/
theorem ready_admitEventRun {id : RunId} (hfresh : FreshIds turn n p)
    (h : admitEventRun pg platform release turn.now (turn.drawnId n) delivery actor ancestry m p =
      .ok (id, p')) :
    FreshIds turn (n + 1) p' ∧ ∀ m', runKey release delivery m'.1 ≠ runKey release delivery m.1 →
      (Ready pg platform release turn delivery actor ancestry p' m' ↔
        Ready pg platform release turn delivery actor ancestry p m') := by
  obtain ⟨q, hkey, -, -, -, -, houtcome⟩ := admitEventRun_eq_ok h
  cases houtcome with
  | found _ r stored answers =>
    exact ⟨⟨hfresh.distinct, fun k hk => hfresh.unused k (by omega)⟩, fun _ _ => Iff.rfl⟩
  | inserted free fresh =>
    refine ⟨⟨hfresh.distinct, fun k hk => ?_⟩, fun m' hne => ?_⟩
    · have hk' : turn.drawnId k ≠ turn.drawnId n := fun heq =>
        absurd (hfresh.distinct heq) (by omega)
      simpa [hk'] using hfresh.unused k (by omega)
    · have hrow : ((q.newRun Grain.event.source).row turn.now).idempotencyKey ≠
          some (runKey release delivery m'.1) := fun heq =>
        hne ((Option.some.inj heq).symm.trans hkey)
      unfold Ready
      rw [exists_putRun_iff fresh hrow fun r h => h]
      simp only [exists_putRun_iff fresh hrow fun r (h : r.AnswersTo _ _ _) => h.idempotencyKey]

/-- The runs of a batch are admitted exactly if each of them can be. -/
theorem admitEventRuns_ok_iff {matched : List (EventWorkflow × Value)}
    (hdepth : ancestry.depth ≠ some 0) (hfresh : FreshIds turn n p)
    (hkeys : (matched.map fun m => runKey release delivery m.1).Nodup) :
    (∃ p', admitEventRuns pg platform release turn delivery actor ancestry n matched p = .ok p') ↔
      ∀ m ∈ matched, Ready pg platform release turn delivery actor ancestry p m := by
  induction matched generalizing n p with
  | nil => exact ⟨fun _ => nofun, fun _ => ⟨p, rfl⟩⟩
  | cons m rest ih =>
    obtain ⟨hm, hrest⟩ := nodup_cons.1 hkeys
    have hother : ∀ m' ∈ rest, runKey release delivery m'.1 ≠ runKey release delivery m.1 :=
      fun m' hm' heq => hm (mem_map.2 ⟨m', hm', heq⟩)
    rw [forall_mem_cons, ← admitEventRun_ok_iff hdepth hfresh]
    constructor
    · rintro ⟨p', h⟩
      obtain ⟨⟨id, p₁⟩, hfirst, h⟩ := bind_eq_ok.1 h
      obtain ⟨hfresh', hsame⟩ := ready_admitEventRun hfresh hfirst
      exact ⟨⟨id, p₁, hfirst⟩, fun m' hm' =>
        (hsame m' (hother m' hm')).1 ((ih hfresh' hrest).1 ⟨p', h⟩ m' hm')⟩
    · rintro ⟨⟨id, p₁, hfirst⟩, hready⟩
      obtain ⟨hfresh', hsame⟩ := ready_admitEventRun hfresh hfirst
      obtain ⟨p', h⟩ := (ih hfresh' hrest).2 fun m' hm' =>
        (hsame m' (hother m' hm')).2 (hready m' hm')
      exact ⟨p', bind_eq_ok.2 ⟨_, hfirst, h⟩⟩

end Runs

/-! ## The transaction of an event -/

section Own

variable {release : LoadedRelease G} {turn : AdmissionTurn} {event : SourceEvent}
  {history : Except ProductionClaimError (Option String)} {a : EventBatchAdmission}

/-- What the trigger says of the event. -/
def EventWorkflow.answer (platform : Platform G) (release : LoadedRelease G)
    (a : EventBatchAdmission) (event : SourceEvent) (w : EventWorkflow) :
    Except TriggerMatchError (Option Value) :=
  w.trigger.isMatch platform.jmes event a.sequence (release.applications.flatMap Prod.snd)
    release.envKey

section

variable (pg : Postgres J) (platform : Platform G) (release : LoadedRelease G)
  (turn : AdmissionTurn) (history : Except ProductionClaimError (Option String))
  (a : EventBatchAdmission) (event : SourceEvent) (p : Plane J)

/-- A matched workflow can be admitted. -/
def Admissible (m : EventWorkflow × Value) : Prop :=
  ∃ actor ancestry, eventActor history event = .ok actor ∧ turn.durability.isSome = true ∧
    lineage event.causation = .ok ancestry ∧
    Ready pg platform release turn a.delivery actor ancestry p m

/-- The event goes through the transaction as far as one workflow is concerned. -/
def GoesThrough (w : EventWorkflow) : Prop :=
  ∃ answer, w.answer platform release a event = .ok answer ∧ ∀ input, answer = some input →
    Admissible pg platform release turn history a event p (w, input)

end

variable {workflows : List EventWorkflow}

lemma lineage_depth {ancestry : Lineage} {parent : Option Causation}
    (h : lineage parent = .ok ancestry) : ancestry.depth ≠ some 0 := by
  cases parent with
  | none =>
    obtain rfl := pure_eq_ok.1 h
    exact nofun
  | some parent =>
    simp only [lineage] at h
    split at h
    · obtain rfl := pure_eq_ok.1 h
      simp only [ne_eq, Option.some.injEq]
      omega
    · cases h

variable (hunique : (workflows.map fun w => (w.trigger.application, w.trigger.workflowId)).Nodup)

include hunique

lemma nodup_runKey {matched : List (EventWorkflow × Value)} {delivery : String}
    (hmatched : (matched.map Prod.fst).Sublist workflows) :
    (matched.map fun m => runKey release delivery m.1).Nodup := by
  have hsub := hunique.sublist (hmatched.map fun w => (w.trigger.application, w.trigger.workflowId))
  rw [map_map] at hsub
  have hmap : (matched.map fun m => runKey release delivery m.1) =
      (matched.map ((fun w => (w.trigger.application, w.trigger.workflowId)) ∘ Prod.fst)).map
        fun id => eventKey release.environment id.1 id.2 delivery := by
    rw [map_map]
    rfl
  rw [hmap]
  refine hsub.map fun id id' h => ?_
  have hparts := jsonStrings_injective h
  simp only [List.cons.injEq, true_and, and_true] at hparts
  exact Prod.ext hparts.1 hparts.2

/-- A batch commits exactly if the event goes through for every enabled workflow. -/
theorem admitOwnEvent_ok_iff (hfresh : FreshIds turn 0 p) :
    (∃ p', admitOwnEvent pg platform release turn workflows history a event p = .ok p') ↔
      ∀ w ∈ workflows, GoesThrough pg platform release turn history a event p w := by
  constructor
  · rintro ⟨p', h⟩ w hw
    obtain ⟨matched, hmatched, h⟩ := bind_eq_ok.1 h
    obtain ⟨hall, hsublist, hmem⟩ := matchTriggers_eq_ok hmatched
    obtain ⟨answer, hanswer⟩ := hall w hw
    refine ⟨answer, hanswer, ?_⟩
    rintro input rfl
    have hw' := (hmem w input).2 ⟨hw, hanswer⟩
    rw [if_neg (by simp [ne_nil_of_mem hw'])] at h
    obtain ⟨actor, hactor, h⟩ := bind_eq_ok.1 h
    obtain ⟨_, hdurability, h⟩ := bind_eq_ok.1 h
    obtain ⟨ancestry, hancestry, h⟩ := bind_eq_ok.1 h
    have hready := (admitEventRuns_ok_iff (lineage_depth hancestry) hfresh
      (nodup_runKey hunique hsublist)).1 ⟨p', h⟩
    exact ⟨actor, ancestry, hactor, ensure_eq_ok.1 hdurability, hancestry, hready _ hw'⟩
  · intro h
    obtain ⟨matched, hmatched⟩ := exists_matchTriggers fun w hw => by
      obtain ⟨answer, hanswer, -⟩ := h w hw
      exact ⟨answer, hanswer⟩
    obtain ⟨-, hsublist, hmem⟩ := matchTriggers_eq_ok hmatched
    -- What a matched workflow needs.
    have hneeds : ∀ m ∈ matched, Admissible pg platform release turn history a event p m := by
      intro m hm
      obtain ⟨hw, hmatch⟩ := (hmem m.1 m.2).1 hm
      obtain ⟨answer, hanswer, hready⟩ := h m.1 hw
      exact hready m.2 (Except.ok.inj (hanswer.symm.trans hmatch))
    cases matched with
    | nil => exact ⟨p, bind_eq_ok.2 ⟨[], hmatched, rfl⟩⟩
    | cons first rest =>
      obtain ⟨actor, ancestry, hactor, hdurability, hancestry, -⟩ := hneeds first mem_cons_self
      obtain ⟨p', hruns⟩ := (admitEventRuns_ok_iff (lineage_depth hancestry) hfresh
        (nodup_runKey hunique hsublist)).2 fun m hm => by
          obtain ⟨actor', ancestry', hactor', -, hancestry', hready⟩ := hneeds m hm
          obtain rfl := Except.ok.inj (hactor.symm.trans hactor')
          obtain rfl := Except.ok.inj (hancestry.symm.trans hancestry')
          exact hready
      exact ⟨p', bind_eq_ok.2 ⟨_, hmatched, bind_eq_ok.2 ⟨actor, hactor, bind_eq_ok.2
        ⟨(), ensure_eq_ok.2 hdurability, bind_eq_ok.2 ⟨ancestry, hancestry, hruns⟩⟩⟩⟩⟩

/-- A batch commits exactly if it does with each workflow alone. -/
theorem admitOwnEvent_ok_iff_alone (hfresh : FreshIds turn 0 p) :
    (∃ p', admitOwnEvent pg platform release turn workflows history a event p = .ok p') ↔
      ∀ w ∈ workflows,
        ∃ p', admitOwnEvent pg platform release turn [w] history a event p = .ok p' := by
  rw [admitOwnEvent_ok_iff hunique hfresh]
  refine forall₂_congr fun w _ => ?_
  rw [admitOwnEvent_ok_iff (by simp) hfresh, forall_mem_singleton]

end Own

end Wamn.Admission
