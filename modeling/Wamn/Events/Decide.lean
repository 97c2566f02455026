import Wamn.Events.Condition
import Wamn.Lib.Transaction

/-!
# Selection of events for workflow triggers

A trigger matches an event of its package, entity and operations after its enable boundary, if its
condition holds and the causation of the event is not too deep. Where it cannot tell, it refuses,
and the whole delivery is held.
-/

namespace Wamn.Materializer

open Lib Lib.Json Events

/-- The limit of the materializer and of the host. -/
def maxCausationDepth : ℕ := 16

/-! ## Decoded events -/

/-- A decoded event with its frozen source identity. -/
inductive SourceEvent where
  | cdc (envelope : Envelope)
  | derived (event : DerivedEvent)
  deriving DecidableEq

namespace SourceEvent

/-- The package and the entity. -/
def source : SourceEvent → String × String
  | cdc envelope => (envelope.packageId, envelope.entity)
  | derived event => (event.packageId, event.entity)

/-- The causation the event carries. A row event of a write without one carries none. -/
def causation : SourceEvent → Option Causation
  | cdc envelope => envelope.causation
  | derived event => some event.causation

/-- `identity`: the event is what the message id names. A derived event must be of this scope. -/
def identity (derivedMsgId : DerivedEvent → String) (envKey project environment : String)
    (header : String) : SourceEvent → Bool
  | cdc envelope => header = msgId project environment envelope.lsn
  | derived event =>
    event.envKey = envKey && event.project = project && event.environment = environment &&
      header = derivedMsgId event

end SourceEvent

/-! ## The decision for one registration -/

/-- What the decision reads of a trigger. -/
structure EventRegistration where
  sourcePackageId : String
  entity : String
  ops : List Op
  condition : Option String

/-- The tenant of a row, if it has one that can be told. -/
inductive RowTenant where
  | absent
  | tenant (name : String)
  | unscopable
  deriving DecidableEq

/-- The tenant in the image that the operation leaves, or that a delete took. -/
def rowTenant (envelope : Envelope) : RowTenant :=
  let image := match envelope.op with
    | .insert | .update => envelope.new
    | .delete => envelope.old
  match image with
  | none => .unscopable
  | some members => match members.lookup "tenant_id" with
    | none => .absent
    | some (.string tenant) => .tenant tenant
    | some _ => .unscopable

/-- Why an event is not for the registration. -/
inductive SkipReason where
  | sourcePackageMismatch
  | entityMismatch
  | opMismatch
  | foreignTenant
  | conditionFalse
  deriving DecidableEq

/-- Why it cannot be told, or not be allowed, that an event is for the registration. -/
inductive RefuseReason where
  | sourcePackageIdentityUnknown (sourcePackageId : String)
  | depthExceeded (parent : Causation)
  | tenantUnscopable
  | oldImageAbsent
  | conditionError (error : String)
  deriving DecidableEq

/-- The outcome of a decision. -/
inductive Verdict where
  | deliver (input : Value)
  | skip (reason : SkipReason)
  | refuse (reason : RefuseReason)
  deriving DecidableEq

/-- How a check ends a decision without a delivery. -/
inductive Declined where
  | skip (reason : SkipReason)
  | refuse (reason : RefuseReason)
  deriving DecidableEq

/-- The verdict of a sequence of checks: the first one that declines, or a delivery. -/
def Verdict.ofChecks (checks : Except Declined Unit) (input : Value) : Verdict :=
  match checks with
  | .ok _ => .deliver input
  | .error (.skip reason) => .skip reason
  | .error (.refuse reason) => .refuse reason

variable {checks : Except Declined Unit}

lemma Verdict.ofChecks_eq_deliver {input delivered : Value} :
    Verdict.ofChecks checks input = .deliver delivered ↔ checks = .ok () ∧ input = delivered := by
  match checks with
  | .ok () | .error (.skip _) | .error (.refuse _) => simp [ofChecks]

lemma Verdict.ofChecks_eq_refuse {input : Value} {reason : RefuseReason} :
    Verdict.ofChecks checks input = .refuse reason ↔ checks = .error (.refuse reason) := by
  match checks with
  | .ok () | .error (.skip _) | .error (.refuse _) => simp [ofChecks]

/-- What a workflow receives of a row event. Absent images are left out. -/
def eventInput (envelope : Envelope) : Value :=
  .object ([("event", .string envelope.op.asStr)] ++
    envelope.new.toList.map (fun image => ("new", .object image)) ++
    envelope.old.toList.map (fun image => ("old", .object image)))

section Decision

variable (jmes : JmesPathLibrary) (registration : EventRegistration)
  (condition : Option CompiledCondition)

/-- What every decision checks first: the source package, the entity and the operation. -/
def checkSource (packageId entity : String) (op : Op) (knownPackages : List String) :
    Except Declined Unit := do
  ensure (knownPackages.contains packageId)
    (.refuse (.sourcePackageIdentityUnknown packageId))
  ensure (packageId = registration.sourcePackageId) (.skip .sourcePackageMismatch)
  ensure (entity = registration.entity) (.skip .entityMismatch)
  ensure (registration.ops.contains op) (.skip .opMismatch)

/-- The tenant of a row must be the resident one, or the row carries none. -/
def checkTenant (envelope : Envelope) (envKey : String) (residentEnvKey : Option String) :
    Except Declined Unit := do
  -- The scope of the consumer first, then the one of the row.
  ensure (residentEnvKey = some envKey) (.refuse .tenantUnscopable)
  match rowTenant envelope with
  | .tenant eventTenant => ensure (eventTenant = envKey) (.skip .foreignTenant)
  | .absent => pure ()
  | .unscopable => throw (.refuse .tenantUnscopable)

/-- The condition, which is not evaluated without the old image that it reads. -/
def checkCondition (oldAbsent : Bool) (context : Value) : Except Declined Unit :=
  if registration.condition.isNone then pure ()
  else match condition with
    -- The caller compiles the condition first; a registration that skipped this is refused.
    | none => throw (.refuse (.conditionError "condition present but not compiled"))
    | some condition =>
      -- Not false but refused: the event may well have matched.
      if condition.referencesOld && oldAbsent then throw (.refuse .oldImageAbsent)
      else match condition.isMatch jmes context with
        | .ok truth => ensure truth (.skip .conditionFalse)
        | .error error => throw (.refuse (.conditionError error))

/-- One more admission stays within the limit. The depth saturates at 32 bits. -/
def checkDepth (parent : Option Causation) (maxDepth : ℕ) : Except Declined Unit :=
  match parent with
  | none => pure ()
  | some parent => ensure (min (parent.depth + 1) (2 ^ 32 - 1) ≤ maxDepth)
      (.refuse (.depthExceeded parent))

lemma refuse_of_checkDepth {parent : Option Causation} {maxDepth : ℕ} {e : Declined}
    (h : checkDepth parent maxDepth = .error e) : ∃ reason, e = .refuse reason := by
  cases parent with
  | none => cases h
  | some parent =>
    obtain ⟨-, rfl⟩ := ensure_eq_error.1 h
    exact ⟨_, rfl⟩

/-- Whether one row event reaches the registration's wiring. -/
def decide (envelope : Envelope) (knownPackages : List String) (envKey : String)
    (residentEnvKey : Option String) (maxDepth : ℕ) : Verdict :=
  .ofChecks (do
    -- The depth comes last: what is not for the registration is skipped, however deep.
    checkSource registration envelope.packageId envelope.entity envelope.op knownPackages
    checkTenant envelope envKey residentEnvKey
    checkCondition jmes registration condition envelope.old.isNone (eventContext envelope)
    checkDepth envelope.causation maxDepth) (eventInput envelope)

/-- `decide_derived`: whether a derived event reaches the registration, with its payload as the
input. -/
def decideDerived (event : DerivedEvent) (knownPackages : List String) (envKey : String)
    (maxDepth : ℕ) : Verdict :=
  .ofChecks (do
    checkSource registration event.packageId event.entity event.op knownPackages
    ensure (event.envKey = envKey) (.skip .foreignTenant)
    checkCondition jmes registration condition true (derivedEventContext event)
    checkDepth (some event.causation) maxDepth) event.payload

/-- The decision on an event of either kind. -/
def decideEvent (event : SourceEvent) (knownPackages : List String) (envKey : String)
    (residentEnvKey : Option String) (maxDepth : ℕ) : Verdict :=
  match event with
  | .cdc envelope =>
    decide jmes registration condition envelope knownPackages envKey residentEnvKey maxDepth
  | .derived event => decideDerived jmes registration condition event knownPackages envKey maxDepth

/-! ## Events of either kind -/

namespace SourceEvent

/-- The operation of the event. -/
def op : SourceEvent → Op
  | cdc envelope => envelope.op
  | derived event => event.op

/-- The event has no old image. -/
def oldAbsent : SourceEvent → Bool
  | cdc envelope => envelope.old.isNone
  | derived _ => true

/-- What a condition is evaluated on. -/
def context : SourceEvent → Value
  | cdc envelope => eventContext envelope
  | derived event => derivedEventContext event

/-- What a workflow receives. -/
def input : SourceEvent → Value
  | cdc envelope => eventInput envelope
  | derived event => event.payload

/-- The event is of the scope. -/
def checkScope (envKey : String) (residentEnvKey : Option String) :
    SourceEvent → Except Declined Unit
  | cdc envelope => checkTenant envelope envKey residentEnvKey
  | derived event => ensure (event.envKey = envKey) (.skip .foreignTenant)

end SourceEvent

/-- The event is of the package, the entity and the operations of the registration. -/
def checkSubject (event : SourceEvent) : Except Declined Unit := do
  ensure (event.source.1 = registration.sourcePackageId) (.skip .sourcePackageMismatch)
  ensure (event.source.2 = registration.entity) (.skip .entityMismatch)
  ensure (registration.ops.contains event.op) (.skip .opMismatch)

/-- The checks of a decision, for an event of either kind. -/
def checkEvent (event : SourceEvent) (knownPackages : List String) (envKey : String)
    (residentEnvKey : Option String) (maxDepth : ℕ) : Except Declined Unit := do
  ensure (knownPackages.contains event.source.1)
    (.refuse (.sourcePackageIdentityUnknown event.source.1))
  checkSubject registration event
  event.checkScope envKey residentEnvKey
  checkCondition jmes registration condition event.oldAbsent event.context
  checkDepth event.causation maxDepth

variable {registration condition}

lemma decideEvent_eq {event : SourceEvent} {known : List String} {envKey : String}
    {resident : Option String} {maxDepth : ℕ} :
    decideEvent jmes registration condition event known envKey resident maxDepth =
      .ofChecks (checkEvent jmes registration condition event known envKey resident maxDepth)
        event.input := by
  cases event with
  | cdc | derived =>
    simp only [decideEvent, decide, decideDerived, checkEvent, checkSource, checkSubject,
      bind_assoc]
    rfl

end Decision

/-! ## Triggers -/

/-- An enabled event trigger of an environment application. -/
structure EventTrigger where
  application : String
  workflowId : String
  sourcePackage : String
  entity : String
  ops : List Op
  condition : Option String
  enableSequence : ℕ

/-- The condition does not compile, or the event is refused. -/
inductive TriggerMatchFailure where
  | condition (outcome : ConditionOutcome)
  | event (reason : RefuseReason)
  deriving DecidableEq

/-- A trigger that cannot be evaluated, by its workflow. -/
structure TriggerMatchError where
  workflowId : String
  failure : TriggerMatchFailure
  deriving DecidableEq

namespace EventTrigger

/-- The part of the trigger that decides. -/
def registration (t : EventTrigger) : EventRegistration :=
  ⟨t.sourcePackage, t.entity, t.ops, t.condition⟩

/-- Compile the trigger's optional filter. -/
def serviceable (jmes : JmesPathLibrary) (t : EventTrigger) :
    Except TriggerMatchError (Option CompiledCondition) :=
  match t.condition with
  | none => pure none
  | some expression => match compileCondition jmes expression with
    | .ok condition => pure (some condition)
    | .error outcome => throw ⟨t.workflowId, .condition outcome⟩

/-- `matches`: the input the trigger's workflow receives, none if the event is not for it. -/
def isMatch (jmes : JmesPathLibrary) (t : EventTrigger) (event : SourceEvent) (sequence : ℕ)
    (packages : List String) (envKey : String) : Except TriggerMatchError (Option Value) :=
  -- A trigger sees what comes after it was enabled.
  if sequence ≤ t.enableSequence then pure none
  else do
    let condition ← t.serviceable jmes
    match decideEvent jmes t.registration condition event packages envKey (some envKey)
      maxCausationDepth with
    | .deliver input => pure (some input)
    | .skip _ => pure none
    | .refuse reason => throw ⟨t.workflowId, .event reason⟩

variable {jmes : JmesPathLibrary} {t : EventTrigger} {event : SourceEvent} {sequence : ℕ}
  {packages : List String} {envKey : String} {input : Value}

/-! ## Triggers that cannot tell -/

/-- The event is of the package, the entity and the operations of the trigger. -/
def Concerns (t : EventTrigger) (event : SourceEvent) : Prop :=
  event.source = (t.sourcePackage, t.entity) ∧ event.op ∈ t.ops

lemma checkSubject_eq_ok {u : Unit} :
    checkSubject t.registration event = .ok u ↔ t.Concerns event := by
  simp only [checkSubject, bind_eq_ok, ensure_eq_ok, decide_eq_true_eq, List.contains_iff_mem,
    exists_and_left, exists_const]
  simp only [Concerns, registration, Prod.ext_iff, and_assoc]

lemma checkSubject_ne_refuse {reason : RefuseReason} :
    checkSubject t.registration event ≠ .error (.refuse reason) := by
  simp [checkSubject, bind_eq_error, ensure_eq_error]

/-- The condition reads an old image that is absent, or it fails. -/
def Unanswered (jmes : JmesPathLibrary) (condition : CompiledCondition) (event : SourceEvent) :
    Prop :=
  (condition.referencesOld = true ∧ event.oldAbsent = true) ∨
    ∃ error, condition.isMatch jmes event.context = .error error

lemma checkCondition_eq_refuse {condition : Option CompiledCondition}
    (h : t.serviceable jmes = .ok condition) :
    (∃ reason, checkCondition jmes t.registration condition event.oldAbsent event.context =
        .error (.refuse reason)) ↔
      ∃ c, condition = some c ∧ Unanswered jmes c event := by
  unfold serviceable at h
  split at h
  · rename_i hnone
    obtain rfl := pure_eq_ok.1 h
    simp only [checkCondition, registration, hnone, Option.isNone_none, if_true, reduceCtorEq,
      false_and, exists_false, iff_false]
    exact nofun
  · rename_i expression hsome
    split at h
    · rename_i c hcompiled
      obtain rfl := pure_eq_ok.1 h
      simp only [checkCondition, registration, hsome, Option.isNone_some, Bool.false_eq_true,
        if_false, Option.some.injEq, exists_eq_left', Unanswered, Bool.and_eq_true]
      by_cases hold : c.referencesOld = true ∧ event.oldAbsent = true
      · rw [if_pos hold]
        exact ⟨fun _ => .inl hold, fun _ => ⟨_, rfl⟩⟩
      · rw [if_neg hold]
        cases hmatch : c.isMatch jmes event.context with
        | ok truth =>
          cases truth with
          | true | false => simp [ensure, hold]
        | error e => exact ⟨fun _ => .inr ⟨e, rfl⟩, fun _ => ⟨_, rfl⟩⟩
    · cases h

/-- The condition does not compile, or the event concerns the trigger and its condition has no
answer. -/
def Undecided (jmes : JmesPathLibrary) (t : EventTrigger) (event : SourceEvent) (sequence : ℕ) :
    Prop :=
  t.enableSequence < sequence ∧
    ((∃ e, t.serviceable jmes = .error e) ∨
      ∃ c, t.serviceable jmes = .ok (some c) ∧ t.Concerns event ∧ Unanswered jmes c event)

section Checks

variable {registration : EventRegistration} {condition : Option CompiledCondition}
  {known : List String} {resident : Option String} {maxDepth : ℕ}

lemma checkEvent_eq_ok {u : Unit} :
    checkEvent jmes registration condition event known envKey resident maxDepth = .ok u ↔
      known.contains event.source.1 = true ∧ checkSubject registration event = .ok () ∧
        event.checkScope envKey resident = .ok () ∧
        checkCondition jmes registration condition event.oldAbsent event.context = .ok () ∧
        checkDepth event.causation maxDepth = .ok () := by
  simp only [checkEvent, bind_eq_ok, ensure_eq_ok, exists_and_left, exists_const]
  constructor
  · rintro ⟨hknown, _, hsubject, _, hscope, _, hcondition, hdepth⟩
    exact ⟨hknown, hsubject, hscope, hcondition, hdepth⟩
  · rintro ⟨hknown, hsubject, hscope, hcondition, hdepth⟩
    exact ⟨hknown, (), hsubject, (), hscope, (), hcondition, hdepth⟩

/-- Where the event passes what all triggers check, a trigger declines it by its own part. -/
theorem checkEvent_of_common (hknown : known.contains event.source.1 = true)
    (hscope : event.checkScope envKey resident = .ok ())
    (hdepth : checkDepth event.causation maxDepth = .ok ()) :
    checkEvent jmes registration condition event known envKey resident maxDepth =
      checkSubject registration event >>= fun _ =>
        checkCondition jmes registration condition event.oldAbsent event.context := by
  have hensure : ensure (known.contains event.source.1)
      (Declined.refuse (.sourcePackageIdentityUnknown event.source.1)) = .ok () :=
    ensure_eq_ok.2 hknown
  rw [checkEvent, hensure, hscope, hdepth]
  cases checkSubject registration event with
  | error e => rfl
  | ok u =>
    cases checkCondition jmes registration condition event.oldAbsent event.context with
    | error e | ok u => rfl

lemma checkEvent_of_unknown (hknown : known.contains event.source.1 = false) :
    checkEvent jmes registration condition event known envKey resident maxDepth =
      .error (.refuse (.sourcePackageIdentityUnknown event.source.1)) := by
  rw [checkEvent, hknown]
  rfl

lemma known_eq_false_of_checkEvent {package : String}
    (h : checkEvent jmes registration condition event known envKey resident maxDepth =
      .error (.refuse (.sourcePackageIdentityUnknown package))) :
    known.contains event.source.1 = false := by
  simp only [checkEvent, checkSubject, bind_eq_error, ensure_eq_error] at h
  rcases h with h | ⟨-, -, h⟩
  · exact h.1
  · exfalso
    rcases h with h | ⟨-, -, h⟩
    · simp at h
    rcases h with h | ⟨-, -, h⟩
    · cases event with
      | cdc envelope =>
        simp only [SourceEvent.checkScope, checkTenant, bind_eq_error, ensure_eq_error] at h
        rcases h with h | ⟨-, -, h⟩
        · simp at h
        · split at h
          · simp [ensure_eq_error] at h
          · cases h
          · cases h
      | derived event => simp [SourceEvent.checkScope, ensure_eq_error] at h
    rcases h with h | ⟨-, -, h⟩
    · unfold checkCondition at h
      split at h
      · cases h
      split at h
      · cases h
      split at h
      · cases h
      split at h
      · simp [ensure_eq_error] at h
      · cases h
    · unfold checkDepth at h
      split at h
      · cases h
      · simp [ensure_eq_error] at h

end Checks

/-- Where the event passes what all triggers check, one refuses it exactly if it cannot tell. -/
theorem checkEvent_eq_refuse {condition : Option CompiledCondition} {known : List String}
    {resident : Option String} {maxDepth : ℕ} (hknown : known.contains event.source.1 = true)
    (hscope : event.checkScope envKey resident = .ok ())
    (hdepth : checkDepth event.causation maxDepth = .ok ())
    (hserviceable : t.serviceable jmes = .ok condition) :
    (∃ reason, checkEvent jmes t.registration condition event known envKey resident maxDepth =
        .error (.refuse reason)) ↔
      t.Concerns event ∧ ∃ c, condition = some c ∧ Unanswered jmes c event := by
  rw [checkEvent_of_common hknown hscope hdepth, ← checkCondition_eq_refuse hserviceable]
  cases hsubject : checkSubject t.registration event with
  | error e =>
    have hne : ¬ t.Concerns event := fun h => by
      rw [checkSubject_eq_ok (u := ()).2 h] at hsubject
      cases hsubject
    refine ⟨fun ⟨reason, h⟩ => ?_, fun h => absurd h.1 hne⟩
    obtain rfl : e = .refuse reason := Except.error.inj h
    exact absurd hsubject checkSubject_ne_refuse
  | ok u => exact ⟨fun h => ⟨checkSubject_eq_ok.1 hsubject, h⟩, fun h => h.2⟩

/-- A trigger matches exactly if it is past its boundary, compiles, and passes all checks. -/
theorem isMatch_eq_some :
    t.isMatch jmes event sequence packages envKey = .ok (some input) ↔
      t.enableSequence < sequence ∧ ∃ condition, t.serviceable jmes = .ok condition ∧
        checkEvent jmes t.registration condition event packages envKey (some envKey)
          maxCausationDepth = .ok () ∧ event.input = input := by
  unfold isMatch
  split
  · rename_i hbefore
    exact ⟨nofun, fun h => absurd h.1 (Nat.not_lt.2 hbefore)⟩
  · rename_i hafter
    rw [bind_eq_ok]
    refine ⟨fun ⟨condition, hcondition, h⟩ => ⟨Nat.not_le.1 hafter, condition, hcondition, ?_⟩,
      fun ⟨_, condition, hcondition, hchecks, hinput⟩ => ⟨condition, hcondition, ?_⟩⟩
    · split at h
      · rename_i delivered hdeliver
        obtain rfl := Option.some.inj (pure_eq_ok.1 h)
        exact Verdict.ofChecks_eq_deliver.1 (decideEvent_eq jmes ▸ hdeliver)
      · cases h
      · cases h
    · rw [decideEvent_eq, hchecks, Verdict.ofChecks, hinput]
      rfl

/-- A matched event that carries a causation stays within the depth limit. -/
theorem depth_of_isMatch {parent : Causation}
    (h : t.isMatch jmes event sequence packages envKey = .ok (some input))
    (hparent : event.causation = some parent) : parent.depth + 1 ≤ maxCausationDepth := by
  obtain ⟨-, _, -, hchecks, -⟩ := isMatch_eq_some.1 h
  obtain ⟨-, -, -, -, hdepth⟩ := checkEvent_eq_ok.1 hchecks
  rw [hparent] at hdepth
  have hle := of_decide_eq_true (ensure_eq_ok.1 hdepth)
  simp only [maxCausationDepth] at hle ⊢
  omega

lemma isMatch_eq_error_of_serviceable {condition : Option CompiledCondition}
    (hafter : t.enableSequence < sequence) (hserviceable : t.serviceable jmes = .ok condition) :
    (∃ e, t.isMatch jmes event sequence packages envKey = .error e) ↔
      ∃ reason, checkEvent jmes t.registration condition event packages envKey (some envKey)
        maxCausationDepth = .error (.refuse reason) := by
  simp only [isMatch, if_neg (Nat.not_le.2 hafter), hserviceable, decideEvent_eq, bind,
    Except.bind]
  cases checkEvent jmes t.registration condition event packages envKey (some envKey)
      maxCausationDepth with
  | ok u => exact ⟨nofun, nofun⟩
  | error e =>
    cases e with
    | skip reason => exact ⟨nofun, nofun⟩
    | refuse reason => exact ⟨fun _ => ⟨reason, rfl⟩, fun _ => ⟨_, rfl⟩⟩

/-- Where one trigger matches an event, another one fails on it exactly if it cannot tell. -/
theorem isMatch_eq_error {t' : EventTrigger}
    (h : t'.isMatch jmes event sequence packages envKey = .ok (some input)) :
    (∃ e, t.isMatch jmes event sequence packages envKey = .error e) ↔
      t.Undecided jmes event sequence := by
  obtain ⟨-, _, -, hchecks, -⟩ := isMatch_eq_some.1 h
  obtain ⟨hknown, -, hscope, -, hdepth⟩ := checkEvent_eq_ok.1 hchecks
  by_cases hafter : t.enableSequence < sequence
  · cases hserviceable : t.serviceable jmes with
    | error e =>
      rw [isMatch, if_neg (Nat.not_le.2 hafter), hserviceable]
      exact ⟨fun _ => ⟨hafter, .inl ⟨e, hserviceable⟩⟩, fun _ => ⟨e, rfl⟩⟩
    | ok condition =>
      rw [isMatch_eq_error_of_serviceable hafter hserviceable,
        checkEvent_eq_refuse hknown hscope hdepth hserviceable]
      constructor
      · rintro ⟨hconcerns, c, rfl, hc⟩
        exact ⟨hafter, .inr ⟨c, hserviceable, hconcerns, hc⟩⟩
      · rintro ⟨-, ⟨e, he⟩ | ⟨c, hc, hconcerns, hunanswered⟩⟩
        · rw [hserviceable] at he
          cases he
        · obtain rfl := Except.ok.inj (hserviceable.symm.trans hc)
          exact ⟨hconcerns, c, rfl, hunanswered⟩
  · rw [isMatch, if_pos (Nat.not_lt.1 hafter)]
    exact ⟨nofun, fun h => absurd h.1 hafter⟩

end EventTrigger

end Wamn.Materializer
