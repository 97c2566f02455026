import Wamn.Admission.Batch
import Wamn.Admission.Recursion
import Wamn.Admission.Serve

/-!
# Workflows that share an event

The messages of an entity are delivered, and delivered again, to its one consumer. A delivery
prepares the message for every trigger of the entity and admits the runs of all triggers that match
in one transaction. A run is admitted exactly if it would be with its workflow alone, and the event
goes through for every other enabled workflow too: the condition of any other trigger of the
environment can keep it from being admitted.
-/

namespace Wamn.Admission

open List Lib Lib.Json RunState Runtime Events Materializer

variable {J G : Type} [DecidableEq J]

/-! ## Deliveries -/

/-- What one delivery of a message meets: the packages the sweep knows, the host of the
materializer's environment with its release, connection, plane and fresh run ids, and whether the
broker takes the settlement. -/
structure Attempt (J G : Type) (config : Config) where
  knownPackages : List String
  release : LoadedRelease G
  turn : AdmissionTurn
  history : Except ProductionClaimError (Option String)
  plane : Plane J
  settled : Bool
  scope : release.envKey = config.envKey
  fresh : FreshIds turn 0 plane

/-- The package and entity of the trigger. -/
def EventWorkflow.source (w : EventWorkflow) : String × String :=
  (w.trigger.sourcePackage, w.trigger.entity)

/-- The servings of one consumer. -/
def servingsOf (platform : Platform G) (source : String × String)
    (workflows : List EventWorkflow) : List Serving :=
  Serving.ofSource source (loadServings platform.jmes (workflows.map EventWorkflow.trigger))

namespace Attempt

variable {config : Config}

variable (pg : Postgres J) (platform : Platform G)

section

variable (source : String × String) (workflows : List EventWorkflow) (m : Message)

/-- A delivery of the message to a consumer, up to the commit. A consumer without a serving fetches
nothing. -/
def run (d : Attempt J G config) : Except Unserved (Plane J) :=
  match servingsOf platform source workflows with
  | [] => .error .nack
  | servings => serve platform config d.knownPackages source servings m fun a =>
      (admitEventBatch pg platform d.release d.turn workflows d.history a d.plane).map Prod.snd

/-- The delivery commits, and the workflow matches the event. -/
def Admits (w : EventWorkflow) (d : Attempt J G config) : Prop :=
  (∃ p', d.run pg platform w.source workflows m = .ok p') ∧
    ∃ event input, platform.decodeEvent m.body = .ok event ∧
      w.trigger.isMatch platform.jmes event m.sequence (d.release.applications.flatMap Prod.snd)
        d.release.envKey = .ok (some input)

/-- The message is given back, or the broker does not take its settlement. -/
def Redelivers (w : EventWorkflow) (d : Attempt J G config) : Prop :=
  d.run pg platform w.source workflows m = .error .nack ∨ d.settled = false

end

/-- The transaction with one enabled workflow alone goes through. -/
def Passes (m : Message) (source : String × String)
    (d : Attempt J G config) (w : EventWorkflow) : Prop :=
  ∃ event id p', platform.decodeEvent m.body = .ok event ∧
    verifiedSourceEventId platform config event m.messageIds = some id ∧
    admitOwnEvent pg platform d.release d.turn [w] d.history
      ⟨source.1, source.2, m.body, m.sequence, id⟩ event d.plane = .ok p'

end Attempt

/-- One of the deliveries of the message admits a run of the workflow. -/
def AdmittedOver (pg : Postgres J) (platform : Platform G) {config : Config}
    (workflows : List EventWorkflow) (m : Message) (w : EventWorkflow) :
    List (Attempt J G config) → Prop
  | [] => False
  | d :: later => d.Admits pg platform workflows m w ∨
      d.Redelivers pg platform workflows m w ∧ AdmittedOver pg platform workflows m w later

/-! ## One delivery -/

section Delivery

variable {pg : Postgres J} {platform : Platform G} {config : Config} {m : Message}
  {event : SourceEvent} {workflows : List EventWorkflow} {w other : EventWorkflow}

lemma mem_servings {source : String × String} {s : Serving} :
    s ∈ servingsOf platform source workflows ↔ ∃ w ∈ workflows,
      w.source = source ∧ s.trigger = w.trigger ∧
        w.trigger.serviceable platform.jmes = .ok s.condition := by
  simp only [servingsOf, Serving.ofSource, loadServings, mem_filter, mem_filterMap,
    mem_map, exists_exists_and_eq_and, decide_eq_true_eq]
  constructor
  · rintro ⟨⟨w, hw, hs⟩, hsource⟩
    split at hs
    · rename_i condition hcondition
      obtain rfl := Option.some.inj hs
      exact ⟨w, hw, hsource, rfl, hcondition⟩
    · cases hs
  · rintro ⟨w, hw, hsource, htrigger, hcondition⟩
    refine ⟨⟨w, hw, ?_⟩, by rw [htrigger]; exact hsource⟩
    rw [hcondition]
    exact congrArg some (by cases s; cases htrigger; rfl)

lemma servingsOf_mono {s : Serving} (hw : w ∈ workflows)
    (h : s ∈ servingsOf platform w.source [w]) : s ∈ servingsOf platform w.source workflows := by
  obtain ⟨w', hw', hserving⟩ := mem_servings.1 h
  obtain rfl := mem_singleton.1 hw'
  exact mem_servings.2 ⟨w', hw, hserving⟩

/-- The event is for the workflow, as far as that does not depend on the delivery. -/
structure Wanted (platform : Platform G) (config : Config) (m : Message) (w : EventWorkflow)
    (event : SourceEvent) (condition : Option CompiledCondition) : Prop where
  decoded : platform.decodeEvent m.body = .ok event
  enabled : w.trigger.enableSequence < m.sequence
  compiled : w.trigger.serviceable platform.jmes = .ok condition
  concerns : w.trigger.Concerns event
  scope : event.checkScope config.envKey (some config.envKey) = .ok ()
  holds : checkCondition platform.jmes w.trigger.registration condition event.oldAbsent
    event.context = .ok ()
  depth : checkDepth event.causation maxCausationDepth = .ok ()

omit [DecidableEq J] in
lemma wanted_of_isMatch {d : Attempt J G config} {input : Value}
    (hevent : platform.decodeEvent m.body = .ok event)
    (h : w.trigger.isMatch platform.jmes event m.sequence (d.release.applications.flatMap Prod.snd)
      d.release.envKey = .ok (some input)) :
    ∃ condition, Wanted platform config m w event condition := by
  obtain ⟨henabled, condition, hcompiled, hchecks, -⟩ := EventTrigger.isMatch_eq_some.1 h
  obtain ⟨-, hsubject, hscope, hholds, hdepth⟩ := EventTrigger.checkEvent_eq_ok.1 hchecks
  exact ⟨condition, hevent, henabled, hcompiled, EventTrigger.checkSubject_eq_ok.1 hsubject,
    d.scope ▸ hscope, hholds, hdepth⟩

namespace Wanted

variable {condition : Option CompiledCondition} (h : Wanted platform config m w event condition)
  {d : Attempt J G config}
include h

lemma sequence_ne_zero : m.sequence ≠ 0 := fun heq => by
  have := h.enabled
  omega

omit [DecidableEq J] in
/-- A wanted event is matched by the host, unless the matching fails there. -/
theorem isMatch_of_ok {answer : Option Value}
    (hok : w.trigger.isMatch platform.jmes event m.sequence
      (d.release.applications.flatMap Prod.snd) d.release.envKey = .ok answer) :
    ∃ input, w.trigger.isMatch platform.jmes event m.sequence
      (d.release.applications.flatMap Prod.snd) d.release.envKey = .ok (some input) := by
  have hscope := h.scope
  rw [← d.scope] at hscope
  cases hknown : (d.release.applications.flatMap Prod.snd).contains event.source.1 with
  | true =>
    refine ⟨event.input,
      EventTrigger.isMatch_eq_some.2 ⟨h.enabled, condition, h.compiled, ?_, rfl⟩⟩
    exact EventTrigger.checkEvent_eq_ok.2 ⟨hknown,
      EventTrigger.checkSubject_eq_ok.2 h.concerns, hscope, h.holds, h.depth⟩
  | false =>
    obtain ⟨e, he⟩ := (EventTrigger.isMatch_eq_error_of_serviceable h.enabled h.compiled).2
      ⟨_, EventTrigger.checkEvent_of_unknown hknown⟩
    rw [hok] at he
    cases he

lemma checkEvent_eq_checkDepth {known : List String} {maxDepth : ℕ}
    (hknown : known.contains event.source.1 = true) :
    checkEvent platform.jmes w.trigger.registration condition event known config.envKey
      (some config.envKey) maxDepth = checkDepth event.causation maxDepth := by
  have hensure : ensure (known.contains event.source.1)
      (Declined.refuse (.sourcePackageIdentityUnknown event.source.1)) = .ok () :=
    ensure_eq_ok.2 hknown
  have hsubject : checkSubject w.trigger.registration event = .ok () :=
    EventTrigger.checkSubject_eq_ok.2 h.concerns
  rw [checkEvent, hensure, hsubject, h.scope, h.holds]
  rfl

lemma serving_mem (hw : w ∈ workflows) :
    ⟨w.trigger, condition⟩ ∈ servingsOf platform w.source workflows :=
  mem_servings.2 ⟨w, hw, rfl, rfl, h.compiled⟩

/-- A wanted event that passes with the workflow alone is stopped only by a serving that cannot
tell. -/
theorem passes_all {knownPackages : List String}
    (hpasses : ∀ s ∈ servingsOf platform w.source [w],
      (prepareMessage platform config knownPackages m s).Passes)
    (hdecided : ∀ other ∈ workflows, other ≠ w →
      ¬ other.trigger.Undecided platform.jmes event m.sequence) :
    ∀ s ∈ servingsOf platform w.source workflows,
      (prepareMessage platform config knownPackages m s).Passes := by
  intro s hs
  obtain ⟨other, hother, hsource, htrigger, hcompiled⟩ := mem_servings.1 hs
  by_cases hne : other = w
  · subst hne
    exact hpasses s (mem_servings.2 ⟨other, mem_singleton.2 rfl, hsource, htrigger,
      hcompiled⟩)
  obtain ⟨id, hid, hknown, hchecks⟩ := (prepareMessage_passes h.decoded h.sequence_ne_zero).1
    (hpasses _ (h.serving_mem (mem_singleton.2 rfl)))
  have hdepth : checkDepth event.causation config.maxDepth = .ok () := by
    cases hcheck : checkDepth event.causation config.maxDepth with
    | ok u => rfl
    | error e =>
      obtain ⟨reason, rfl⟩ := refuse_of_checkDepth hcheck
      exact absurd ((h.checkEvent_eq_checkDepth hknown).trans hcheck) (hchecks h.enabled reason)
  refine (prepareMessage_passes h.decoded h.sequence_ne_zero).2
    ⟨id, hid, hknown, fun henabled reason hrefuse => hdecided other hother hne ?_⟩
  rw [Serving.checks, htrigger] at hrefuse
  obtain ⟨hconcerns, c, hc, hunanswered⟩ :=
    (EventTrigger.checkEvent_eq_refuse hknown h.scope hdepth hcompiled).1 ⟨reason, hrefuse⟩
  exact ⟨htrigger ▸ henabled, .inr ⟨c, hc ▸ hcompiled, hconcerns, hunanswered⟩⟩

/-- The consumer of the workflow terminates a wanted event or hands it to the host. -/
theorem run_cases (pg : Postgres J) (hw : w ∈ workflows) (d : Attempt J G config) :
    ((∀ s ∈ servingsOf platform w.source workflows,
        (prepareMessage platform config d.knownPackages m s).Passes) ∧
        ∃ id, verifiedSourceEventId platform config event m.messageIds = some id ∧
          d.run pg platform w.source workflows m =
            ((admitEventBatch pg platform d.release d.turn workflows d.history
              ⟨w.source.1, w.source.2, m.body, m.sequence, id⟩ d.plane).map Prod.snd).mapError
                fun _ => .nack) ∨
      (¬ ∀ s ∈ servingsOf platform w.source workflows,
        (prepareMessage platform config d.knownPackages m s).Passes) ∧
        ∃ reason, d.run pg platform w.source workflows m = .error (.terminate reason) := by
  have hmem := h.serving_mem hw
  have hrun : d.run pg platform w.source workflows m =
      serve platform config d.knownPackages w.source (servingsOf platform w.source workflows) m
        fun a => (admitEventBatch pg platform d.release d.turn workflows d.history a d.plane).map
          Prod.snd := by
    obtain ⟨s, rest, hcons⟩ := exists_cons_of_ne_nil (ne_nil_of_mem hmem)
    rw [Attempt.run, hcons]
  by_cases hpasses : ∀ s ∈ servingsOf platform w.source workflows,
      (prepareMessage platform config d.knownPackages m s).Passes
  · obtain ⟨id, hid, -⟩ :=
      (prepareMessage_passes h.decoded h.sequence_ne_zero).1 (hpasses _ hmem)
    exact .inl ⟨hpasses, id, hid, hrun.trans (serve_of_passes h.decoded hid hpasses)⟩
  · obtain ⟨reason, hserve⟩ := serve_of_not_passes h.sequence_ne_zero hpasses
    exact .inr ⟨hpasses, reason, hrun.trans hserve⟩

lemma host_cases (d : Attempt J G config) (id : String) :
    let a : EventBatchAdmission := ⟨w.source.1, w.source.2, m.body, m.sequence, id⟩
    let answer := ((admitEventBatch pg platform d.release d.turn workflows d.history a d.plane).map
      Prod.snd).mapError fun _ => Unserved.nack
    ((∃ p', answer = .ok p') ↔ (requireExecutorAuthority d.turn.session = .ok () ∧
        identifyEvent platform d.release a = .ok event) ∧
          ∃ p', admitOwnEvent pg platform d.release d.turn workflows d.history a event d.plane =
            .ok p') ∧
      ((∃ p', answer = .ok p') ∨ answer = .error .nack) := by
  intro a answer
  have hown : event.source = (a.sourcePackage, a.entity) := h.concerns.1
  refine ⟨?_, ?_⟩
  · constructor
    · rintro ⟨p', hanswer⟩
      have hbatch := mapError_eq_ok.1 hanswer
      cases hresult :
          admitEventBatch pg platform d.release d.turn workflows d.history a d.plane with
      | error e =>
        rw [hresult] at hbatch
        cases hbatch
      | ok result =>
        obtain ⟨_, hauthority, hrest⟩ := bind_eq_ok.1 hresult
        obtain ⟨event', hevent', hrest⟩ := bind_eq_ok.1 hrest
        obtain rfl : event' = event := by
          obtain ⟨decoded, hdecoded, hidentity⟩ := bind_eq_ok.1 hevent'
          obtain ⟨_, -, hpure⟩ := bind_eq_ok.1 hidentity
          obtain rfl := pure_eq_ok.1 hpure
          exact Except.ok.inj ((mapError_eq_ok.1 hdecoded).symm.trans h.decoded)
        rw [if_neg (not_ne_iff.2 hown)] at hrest
        obtain ⟨p₁, hadmit, -⟩ := bind_eq_ok.1 hrest
        exact ⟨⟨hauthority, hevent'⟩, p₁, hadmit⟩
    · rintro ⟨⟨hauthority, hidentity⟩, p', hadmit⟩
      have hbatch : admitEventBatch pg platform d.release d.turn workflows d.history a d.plane =
          .ok ((), p') := by
        refine bind_eq_ok.2 ⟨(), hauthority, bind_eq_ok.2 ⟨event, hidentity, ?_⟩⟩
        rw [if_neg (not_ne_iff.2 hown)]
        exact bind_eq_ok.2 ⟨p', hadmit, rfl⟩
      exact ⟨p', by simp only [answer, hbatch]; rfl⟩
  · cases hresult : admitEventBatch pg platform d.release d.turn workflows d.history a d.plane with
    | error e => exact .inr (by simp only [answer, hresult]; rfl)
    | ok result => exact .inl ⟨result.2, by simp only [answer, hresult]; rfl⟩

end Wanted

namespace Attempt

variable {d : Attempt J G config}

/-- Where one workflow matches the event, the transaction with another one alone goes through
exactly if the message is verified, the other's condition compiles and has an answer, and its run
can be admitted if it matches. -/
theorem passes_iff {source : String × String} {input : Value}
    (hevent : platform.decodeEvent m.body = .ok event)
    (hmatch : w.trigger.isMatch platform.jmes event m.sequence
      (d.release.applications.flatMap Prod.snd) d.release.envKey = .ok (some input)) :
    d.Passes pg platform m source other ↔
      ∃ id, verifiedSourceEventId platform config event m.messageIds = some id ∧
        ¬ other.trigger.Undecided platform.jmes event m.sequence ∧
        let a : EventBatchAdmission := ⟨source.1, source.2, m.body, m.sequence, id⟩
        ∀ input, other.answer platform d.release a event = .ok (some input) →
          Admissible pg platform d.release d.turn d.history a event d.plane (other, input) := by
  constructor
  · rintro ⟨event', id, p', hevent', hid, hp'⟩
    obtain rfl := Except.ok.inj (hevent.symm.trans hevent')
    obtain ⟨answer, hanswer, hready⟩ := forall_mem_singleton.1
      ((admitOwnEvent_ok_iff (by simp) d.fresh).1 ⟨p', hp'⟩)
    refine ⟨id, hid, fun hundecided => ?_,
      fun input h => hready input (Except.ok.inj (hanswer.symm.trans h))⟩
    obtain ⟨e, he⟩ := (EventTrigger.isMatch_eq_error hmatch).2 hundecided
    cases hanswer.symm.trans he
  · rintro ⟨id, hid, hdecided, hready⟩
    cases hanswer : other.answer platform d.release ⟨source.1, source.2, m.body, m.sequence, id⟩
        event with
    | error e => exact absurd ((EventTrigger.isMatch_eq_error hmatch).1 ⟨e, hanswer⟩) hdecided
    | ok answer =>
      obtain ⟨p', hp'⟩ := (admitOwnEvent_ok_iff (by simp) d.fresh).2
        (forall_mem_singleton.2 ⟨answer, hanswer, fun input h => hready input (h ▸ hanswer)⟩)
      exact ⟨event, id, p', hevent, hid, hp'⟩

/-- A delivery admits a run of a workflow exactly if it does with that workflow alone, and the
transaction goes through with every other enabled workflow alone. -/
theorem admits_iff (hunique : (workflows.map fun w =>
      (w.trigger.application, w.trigger.workflowId)).Nodup) (hw : w ∈ workflows) :
    d.Admits pg platform workflows m w ↔ d.Admits pg platform [w] m w ∧
      ∀ other ∈ workflows, other ≠ w → d.Passes pg platform m w.source other := by
  constructor
  · rintro ⟨⟨p', hrun⟩, event, input, hevent, hmatch⟩
    obtain ⟨condition, hwanted⟩ := wanted_of_isMatch hevent hmatch
    rcases hwanted.run_cases pg hw d with ⟨hpasses, id, hid, heq⟩ | ⟨-, reason, heq⟩
    · obtain ⟨hhost, hadmit⟩ := (hwanted.host_cases d id).1.1 ⟨p', heq.symm.trans hrun⟩
      have halone := (admitOwnEvent_ok_iff_alone hunique d.fresh).1 hadmit
      refine ⟨⟨?_, event, input, hevent, hmatch⟩, fun other hother _ => ?_⟩
      · rcases hwanted.run_cases pg (mem_singleton.2 rfl) d with
          ⟨-, id', hid', heq'⟩ | ⟨hstopped, -⟩
        · obtain rfl := Option.mem_unique hid hid'
          obtain ⟨p₁, hp₁⟩ := (hwanted.host_cases d id).1.2 ⟨hhost, halone w hw⟩
          exact ⟨p₁, heq'.trans hp₁⟩
        · exact absurd (fun s hs => hpasses s (servingsOf_mono hw hs)) hstopped
      · obtain ⟨p₁, hp₁⟩ := halone other hother
        exact ⟨event, id, p₁, hevent, hid, hp₁⟩
    · rw [hrun] at heq
      cases heq
  · rintro ⟨⟨⟨p', hrun⟩, event, input, hevent, hmatch⟩, hothers⟩
    obtain ⟨condition, hwanted⟩ := wanted_of_isMatch hevent hmatch
    refine ⟨?_, event, input, hevent, hmatch⟩
    rcases hwanted.run_cases pg (mem_singleton.2 rfl) d with
      ⟨hpasses, id, hid, heq⟩ | ⟨-, reason, heq⟩
    · obtain ⟨hhost, p₁, hadmit⟩ := (hwanted.host_cases d id).1.1 ⟨p', heq.symm.trans hrun⟩
      -- Every workflow goes through alone.
      have halone : ∀ other ∈ workflows, ∃ p', admitOwnEvent pg platform d.release d.turn [other]
          d.history ⟨w.source.1, w.source.2, m.body, m.sequence, id⟩ event d.plane = .ok p' := by
        intro other hother
        by_cases hne : other = w
        · exact ⟨p₁, hne ▸ hadmit⟩
        · obtain ⟨event', id', p₂, hevent', hid', hp₂⟩ := hothers other hother hne
          obtain rfl := Except.ok.inj (hevent.symm.trans hevent')
          obtain rfl := Option.mem_unique hid hid'
          exact ⟨p₂, hp₂⟩
      rcases hwanted.run_cases pg hw d with ⟨-, id', hid', heq'⟩ | ⟨hstopped, -⟩
      · obtain rfl := Option.mem_unique hid hid'
        obtain ⟨p₂, hp₂⟩ := (hwanted.host_cases d id).1.2
          ⟨hhost, (admitOwnEvent_ok_iff_alone hunique d.fresh).2 halone⟩
        exact ⟨p₂, heq'.trans hp₂⟩
      · -- No serving of the consumer stops the message: a trigger that cannot tell would not pass.
        refine absurd (hwanted.passes_all hpasses fun other hother _ => ?_) hstopped
        obtain ⟨p₂, hp₂⟩ := halone other hother
        obtain ⟨_, -, hdecided, -⟩ :=
          (passes_iff hevent hmatch).1 ⟨event, id, p₂, hevent, hid, hp₂⟩
        exact hdecided
    · rw [hrun] at heq
      cases heq

lemma admits_of_run {p' : Plane J} (hwanted : Wanted platform config m w event condition)
    (hw : w ∈ workflows) (hrun : d.run pg platform w.source workflows m = .ok p') :
    d.Admits pg platform workflows m w := by
  rcases hwanted.run_cases pg hw d with ⟨-, id, hid, heq⟩ | ⟨-, reason, heq⟩
  · obtain ⟨-, p₁, hadmit⟩ := (hwanted.host_cases d id).1.1 ⟨p', heq.symm.trans hrun⟩
    obtain ⟨matched, hmatched, -⟩ := bind_eq_ok.1 hadmit
    obtain ⟨answer, hanswer⟩ := (matchTriggers_eq_ok hmatched).1 w hw
    obtain ⟨input, hinput⟩ := hwanted.isMatch_of_ok hanswer
    exact ⟨⟨p', hrun⟩, event, input, hwanted.decoded, hinput⟩
  · rw [hrun] at heq
    cases heq

/-- Where no trigger is undecided, a delivery without a run of a wanted event is repeated with all
workflows as with the one. -/
theorem redelivers_iff (hwanted : Wanted platform config m w event condition) (hw : w ∈ workflows)
    (hdecided : ∀ other ∈ workflows, other ≠ w →
      ¬ other.trigger.Undecided platform.jmes event m.sequence)
    (hall : ¬ d.Admits pg platform workflows m w) (halone : ¬ d.Admits pg platform [w] m w) :
    d.Redelivers pg platform workflows m w ↔ d.Redelivers pg platform [w] m w := by
  have hself : w ∈ [w] := mem_singleton.2 rfl
  unfold Redelivers
  rcases hwanted.run_cases pg hw d with ⟨hpasses, id, hid, heq⟩ | ⟨hstopped, reason, heq⟩
  · -- The message passes, so both times the host gives it back.
    have hnack : d.run pg platform w.source workflows m = .error .nack := by
      rcases (hwanted.host_cases d id).2 with ⟨p', hp'⟩ | hnack
      · exact absurd (admits_of_run hwanted hw (heq.trans hp')) hall
      · exact heq.trans hnack
    rcases hwanted.run_cases pg hself d with ⟨-, id', -, heq'⟩ | ⟨hstopped, -⟩
    · have hnack' : d.run pg platform w.source [w] m = .error .nack := by
        rcases (hwanted.host_cases d id').2 with ⟨p', hp'⟩ | hnack'
        · exact absurd (admits_of_run hwanted hself (heq'.trans hp')) halone
        · exact heq'.trans hnack'
      exact ⟨fun _ => .inl hnack', fun _ => .inl hnack⟩
    · exact absurd (fun s hs => hpasses s (servingsOf_mono hw hs)) hstopped
  · rcases hwanted.run_cases pg hself d with ⟨hpasses, -⟩ | ⟨-, reason', heq'⟩
    · exact absurd (hwanted.passes_all hpasses hdecided) hstopped
    · rw [heq, heq']
      simp

end Attempt

/-! ## All deliveries -/

variable {deliveries : List (Attempt J G config)}

lemma exists_of_admittedOver (h : AdmittedOver pg platform workflows m w deliveries) :
    ∃ d ∈ deliveries, d.Admits pg platform workflows m w := by
  induction deliveries with
  | nil => exact h.elim
  | cons d later ih =>
    rcases h with h | ⟨-, h⟩
    · exact ⟨d, mem_cons_self, h⟩
    · obtain ⟨d', hd', h⟩ := ih h
      exact ⟨d', mem_cons_of_mem _ hd', h⟩

lemma not_undecided_of_passes {d : Attempt J G config}
    (hevent : platform.decodeEvent m.body = .ok event)
    (hadmits : d.Admits pg platform workflows m w)
    (hpasses : d.Passes pg platform m w.source other) :
    ¬ other.trigger.Undecided platform.jmes event m.sequence := by
  obtain ⟨-, event', input, hevent', hmatch⟩ := hadmits
  obtain rfl := Except.ok.inj (hevent.symm.trans hevent')
  obtain ⟨_, -, hdecided, -⟩ := (Attempt.passes_iff hevent hmatch).1 hpasses
  exact hdecided

/-- Where no other workflow stands in the way, the runs over all deliveries are those a workflow has
alone. -/
theorem admittedOver_iff (hunique : (workflows.map fun w =>
      (w.trigger.application, w.trigger.workflowId)).Nodup) (hw : w ∈ workflows)
    (hquiet : ∀ d ∈ deliveries, d.Admits pg platform [w] m w → ∀ other ∈ workflows, other ≠ w →
      d.Passes pg platform m w.source other) : AdmittedOver pg platform workflows m w deliveries ↔
      AdmittedOver pg platform [w] m w deliveries := by
  induction deliveries with
  | nil => exact Iff.rfl
  | cons d later ih =>
    obtain ⟨hd, hlater⟩ := forall_mem_cons.1 hquiet
    have hiff : d.Admits pg platform workflows m w ↔ d.Admits pg platform [w] m w :=
      (d.admits_iff hunique hw).trans (and_iff_left_of_imp hd)
    by_cases halone : d.Admits pg platform [w] m w
    · exact ⟨fun _ => .inl halone, fun _ => .inl (hiff.2 halone)⟩
    have hall : ¬ d.Admits pg platform workflows m w := fun h => halone (hiff.1 h)
    -- Only a message that is admitted later can tell the deliveries apart, and then every trigger
    -- can tell.
    have hredelivers : AdmittedOver pg platform [w] m w later →
        (d.Redelivers pg platform workflows m w ↔ d.Redelivers pg platform [w] m w) := by
      intro hover
      obtain ⟨d', hd', hadmits⟩ := exists_of_admittedOver hover
      obtain ⟨-, event, input, hevent, hmatch⟩ := id hadmits
      obtain ⟨condition, hwanted⟩ := wanted_of_isMatch hevent hmatch
      exact Attempt.redelivers_iff hwanted hw (fun other hother hne =>
        not_undecided_of_passes hevent hadmits (hlater d' hd' hadmits other hother hne)) hall halone
    constructor
    · rintro (h | ⟨hagain, hover⟩)
      · exact absurd h hall
      · have hover := (ih hlater).1 hover
        exact .inr ⟨(hredelivers hover).1 hagain, hover⟩
    · rintro (h | ⟨hagain, hover⟩)
      · exact absurd h halone
      · exact .inr ⟨(hredelivers hover).2 hagain, (ih hlater).2 hover⟩

/-- One delivery admits a run of a workflow exactly if it does with that workflow alone and the
transaction goes through with every other enabled workflow alone. If that holds in every delivery
that would admit the run, the message admits it exactly if it does with its workflow alone. A
trigger of any entity whose condition does not compile or has no answer stands in the way of every
delivery. -/
theorem workflows_isolated_iff (pg : Postgres J) (platform : Platform G)
    (hunique : (workflows.map fun w => (w.trigger.application, w.trigger.workflowId)).Nodup)
    (hw : w ∈ workflows) (m : Message) (deliveries : List (Attempt J G config)) :
    (∀ d ∈ deliveries, d.Admits pg platform workflows m w ↔ d.Admits pg platform [w] m w ∧
      ∀ other ∈ workflows, other ≠ w → d.Passes pg platform m w.source other) ∧
    ((∀ d ∈ deliveries, d.Admits pg platform [w] m w → ∀ other ∈ workflows, other ≠ w →
        d.Passes pg platform m w.source other) →
      (AdmittedOver pg platform workflows m w deliveries ↔
        AdmittedOver pg platform [w] m w deliveries)) ∧
    ∀ event, platform.decodeEvent m.body = .ok event → ∀ other ∈ workflows, other ≠ w →
      other.trigger.Undecided platform.jmes event m.sequence →
        ¬ AdmittedOver pg platform workflows m w deliveries := by
  refine ⟨fun d _ => d.admits_iff hunique hw, admittedOver_iff hunique hw,
    fun event hevent other hother hne hundecided hover => ?_⟩
  obtain ⟨d, -, hadmits⟩ := exists_of_admittedOver hover
  have hpasses := ((d.admits_iff hunique hw).1 hadmits).2 other hother hne
  exact not_undecided_of_passes hevent hadmits hpasses hundecided

end Delivery

namespace Sample

open RunPlane.Sample

/-- The materializer of the environment `dev`. -/
def materializer : Config := ⟨"shop", "dev", "acme", maxCausationDepth⟩

/-- A host library that reads every text as the insert of an order. -/
def insertReader : Platform Unit := { library with decodeEvent := fun _ => .ok (.cdc (inserted 0)) }

/-- A workflow on the invoices. -/
def ledger (condition : Option String) : EventWorkflow where
  trigger := ⟨"orders", "ledger", "orders", "invoice", [.insert], condition, 0⟩
  enabled := ⟨1, "", digest, none⟩

/-- The message of the first insert. -/
def insertMessage : Message := ⟨1, "0", [msgId "shop" "dev" 0]⟩

/-- A delivery to a host whose tenant has no runs. -/
def firstDelivery : Attempt Value Unit materializer where
  knownPackages := ["orders"]
  release := orders
  turn := ⟨host "host", some "standard", 0, Nat.repr⟩
  history := .ok none
  plane := .empty
  settled := true
  scope := rfl
  fresh := ⟨fun _ _ h => Decimal.repr_injective h, fun _ _ => ⟨rfl, rfl⟩⟩

lemma admits_firstDelivery :
    firstDelivery.Admits .identity insertReader [copy, ledger none] insertMessage copy := by
  have hok : (firstDelivery.run .identity insertReader copy.source [copy, ledger none]
      insertMessage).isOk = true := by decide +kernel
  refine ⟨?_, .cdc (inserted 0), eventInput (inserted 0), rfl, rfl⟩
  cases h :
      firstDelivery.run .identity insertReader copy.source [copy, ledger none] insertMessage with
  | ok p' => exact ⟨p', rfl⟩
  | error e =>
    rw [h] at hok
    cases hok

/-- The copy is admitted with its workflow alone too: the one on invoices is not in the way. -/
theorem copy_is_admitted_alone :
    AdmittedOver .identity insertReader [copy, ledger none] insertMessage copy [firstDelivery] ∧
      AdmittedOver .identity insertReader [copy] insertMessage copy [firstDelivery] := by
  have hmem : copy ∈ [copy, ledger none] := mem_cons_self
  obtain ⟨hone, hover, -⟩ := workflows_isolated_iff .identity insertReader (by decide) hmem
    insertMessage [firstDelivery]
  have hall : AdmittedOver .identity insertReader [copy, ledger none] insertMessage copy
      [firstDelivery] := .inl admits_firstDelivery
  refine ⟨hall, (hover fun d hd _ => ?_).1 hall⟩
  obtain rfl := mem_singleton.1 hd
  exact ((hone _ hd).1 admits_firstDelivery).2

/-- A condition on invoices that does not compile rolls back the run for an order, in every
delivery. -/
theorem condition_of_another_entity_withholds_the_copy :
    ¬ ∀ (w : EventWorkflow) (other : Option String → EventWorkflow) (m : Message)
        (deliveries : List (Attempt Value Unit materializer))
        (condition condition' : Option String),
      (∀ condition, other condition ≠ w) →
      (AdmittedOver .identity insertReader [w, other condition] m w deliveries ↔
        AdmittedOver .identity insertReader [w, other condition'] m w deliveries) := by
  intro hisolated
  have hover := (hisolated copy ledger insertMessage [firstDelivery] none (some "status ==")
    (fun _ h => absurd (congrArg (·.trigger.workflowId) h) (by simp [ledger, copy]))).1
      (.inl admits_firstDelivery)
  obtain ⟨d, hd, ⟨p', hrun⟩, -⟩ := exists_of_admittedOver hover
  obtain rfl := mem_singleton.1 hd
  have hfails : (firstDelivery.run .identity insertReader copy.source
      [copy, ledger (some "status ==")] insertMessage).isOk = false := by decide +kernel
  rw [hrun] at hfails
  cases hfails

end Sample

end Wamn.Admission
