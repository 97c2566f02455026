import Wamn.Admission.Admit

/-!
# Serving of the messages of an entity

The materializer sweeps over the enabled triggers. It compiles their conditions and holds a trigger
whose condition does not compile. The others it groups by the package and entity that they name, and
it serves the messages of the one consumer of each group: a message is prepared for every trigger of
the group in turn, and then handed to the host, which admits the runs of all of them in one
transaction. What stops the preparation for one trigger settles the message for all of them.

A body that is not UTF-8 is not JSON either, so that bodies are texts here, and the two literals of
a body that does not decode are one reason.
-/

namespace Wamn.Materializer

open List Lib Lib.Json Events Runtime Admission

variable {G α : Type}

/-! ## Servings -/

/-- The configuration of the materializer. -/
structure Config where
  project : String
  environment : String
  envKey : String
  maxDepth : ℕ

/-- A trigger with its compiled condition. -/
structure Serving where
  trigger : EventTrigger
  condition : Option CompiledCondition

/-- The triggers that can be served. -/
def loadServings (jmes : JmesPathLibrary) (triggers : List EventTrigger) : List Serving :=
  triggers.filterMap fun t => match t.serviceable jmes with
    | .ok condition => some ⟨t, condition⟩
    -- The registration is held, and the sweep goes on with the others.
    | .error _ => none

/-- The group of the consumer of a package and entity. -/
def Serving.ofSource (source : String × String) (servings : List Serving) : List Serving :=
  servings.filter fun s => (s.trigger.sourcePackage, s.trigger.entity) = source

/-! ## One message and one serving -/

/-- A fetched message: its stream sequence, its body and the values of its `Nats-Msg-Id` headers. -/
structure Message where
  sequence : ℕ
  body : String
  messageIds : List String

/-- Why a message is given up. -/
inductive TerminateReason where
  | poisonInvalidEvent
  | poisonSourceId
  | refused (reason : RefuseReason)
  deriving DecidableEq

/-- What one serving makes of a message. -/
inductive Preparation where
  | deliver (sourceEventId : String)
  | ack
  | nack
  | terminate (reason : TerminateReason)
  deriving DecidableEq

section

variable (platform : Platform G) (config : Config) (knownPackages : List String)

/-- `verified_source_event_id` and `verified_derived_source_event_id`: the one message id, if it is
that of the event. -/
def verifiedSourceEventId (event : SourceEvent) : List String → Option String
  | [actual] =>
    if event.identity platform.derivedMsgId config.envKey config.project config.environment actual
    then some actual else none
  | _ => none

/-- The decision on an event of either kind. The resident scope is known once the identity of a row
event has been verified. -/
def Serving.verdict (jmes : JmesPathLibrary) (config : Config) (s : Serving)
    (knownPackages : List String) (sourceEventId : Option String) (event : SourceEvent) : Verdict :=
  decideEvent jmes s.trigger.registration s.condition event knownPackages config.envKey
    (sourceEventId.map fun _ => config.envKey) config.maxDepth

/-- An unknown package comes before a missing identity. -/
def preparationGate (sourceEventId : Option String) (verdict : Verdict) :
    Except TerminateReason String :=
  match verdict with
  | .refuse (.sourcePackageIdentityUnknown package) =>
    .error (.refused (.sourcePackageIdentityUnknown package))
  | _ => match sourceEventId with
    | some id => .ok id
    | none => .error .poisonSourceId

/-- `prepare_message`: what a serving makes of the message. -/
def prepareMessage (m : Message) (s : Serving) : Preparation :=
  if m.sequence = 0 then .nack
  else match platform.decodeEvent m.body with
    | .error _ => .terminate .poisonInvalidEvent
    | .ok event =>
      let sourceEventId := verifiedSourceEventId platform config event m.messageIds
      let verdict := s.verdict platform.jmes config knownPackages sourceEventId event
      match preparationGate sourceEventId verdict with
      | .error reason => .terminate reason
      | .ok id =>
        -- The enable boundary comes after the gate and before the verdict.
        if m.sequence ≤ s.trigger.enableSequence then .ack
        else match verdict with
          | .deliver _ => .deliver id
          | .skip _ => .ack
          | .refuse reason => .terminate (.refused reason)

/-! ## One message and all servings -/

/-- How a message ends that is not admitted. -/
inductive Unserved where
  | nack
  | terminate (reason : TerminateReason)
  deriving DecidableEq

/-- The loop of `serve` over the servings of the consumer: the last source id delivered. -/
def prepareServings (m : Message) : Option String → List Serving → Except Unserved (Option String)
  | id, [] => .ok id
  | id, s :: rest => match prepareMessage platform config knownPackages m s with
    | .deliver id' => prepareServings m (some id') rest
    | .ack => prepareServings m id rest
    -- The loop breaks, and the message is settled for every serving.
    | .nack => .error .nack
    | .terminate reason => .error (.terminate reason)

variable (source : String × String) (servings : List Serving) (m : Message)

/-- What `serve` hands to the host for one message of the consumer of a package and entity. -/
def serveAdmission : Except Unserved EventBatchAdmission := do
  let delivered ← prepareServings platform config knownPackages m none servings
  -- Also without a delivery the host is asked: its rows may be newer than the sweep's.
  let sourceEventId := delivered.or do
    let event ← (platform.decodeEvent m.body).toOption
    verifiedSourceEventId platform config event m.messageIds
  match sourceEventId with
  | none => .error (.terminate .poisonSourceId)
  | some id => .ok ⟨source.1, source.2, m.body, m.sequence, id⟩

/-- `serve` for one message. A message whose admission commits is acknowledged. -/
def serve (admitBatch : EventBatchAdmission → Except ProductionClaimError α) :
    Except Unserved α := do
  let batch ← serveAdmission platform config knownPackages source servings m
  (admitBatch batch).mapError fun _ => .nack

/-- A call of the host while a message is served. The answers to an `ack`, `nack` or `term` change
nothing but counters, the answer to an `admitBatch` decides what follows. -/
inductive Call where
  | admitBatch (batch : EventBatchAdmission) (accepted : Bool)
  | ack
  | nack
  | term (reason : TerminateReason)

/-- The calls that settle a message. -/
def Call.settles : Call → Bool
  | .admitBatch _ _ => false
  | _ => true

/-- The calls of `serve` for one message. -/
def serveCalls (accepts : EventBatchAdmission → Bool) : List Call :=
  match serveAdmission platform config knownPackages source servings m with
  | .error .nack => [.nack]
  | .error (.terminate reason) => [.term reason]
  | .ok batch => [.admitBatch batch (accepts batch), if accepts batch then .ack else .nack]

/-- `serve` for the messages of a fetched batch, each with its calls. What the host answers may
depend on all calls before. -/
def serveBatch (accepts : List (Message × List Call) → EventBatchAdmission → Bool) :
    List (Message × List Call) → List Message → List (Message × List Call)
  | served, [] => served
  | served, m :: rest =>
    let calls := serveCalls platform config knownPackages source servings m (accepts served)
    serveBatch accepts (served ++ [(m, calls)]) rest

/-- The message's record or id is invalid, or a serving refuses it. -/
inductive Terminable : Prop where
  | record (e : String) (h : platform.decodeEvent m.body = .error e)
  | id (event : SourceEvent) (hevent : platform.decodeEvent m.body = .ok event)
      (h : verifiedSourceEventId platform config event m.messageIds = none)
  | refused (event : SourceEvent) (s : Serving) (reason : RefuseReason)
      (hevent : platform.decodeEvent m.body = .ok event) (hs : s ∈ servings)
      (h : s.verdict platform.jmes config knownPackages
        (verifiedSourceEventId platform config event m.messageIds) event = .refuse reason)

/-- The one message id is that of the message's event. -/
def Identified (id : String) : Prop :=
  m.messageIds = [id] ∧ ∃ event, platform.decodeEvent m.body = .ok event ∧
    event.identity platform.derivedMsgId config.envKey config.project config.environment id = true

/-- A message with its calls: it is settled once, acknowledged only after an admission that the host
accepted, admitted at most once and only under its own sequence and id, and terminated only if its
record or id is invalid or a serving refuses it. -/
structure Settled (calls : List Call) : Prop where
  once : calls.countP Call.settles = 1
  acked : .ack ∈ calls → ∃ batch, calls = [.admitBatch batch true, .ack]
  admittedOnce : calls.countP (fun call => !call.settles) ≤ 1
  admitted : ∀ batch accepted, .admitBatch batch accepted ∈ calls →
    batch.sequence = m.sequence ∧ Identified platform config m batch.sourceEventId
  terminated : ∀ reason, .term reason ∈ calls →
    Terminable platform config knownPackages servings m

end

/-! ## What serving needs -/

section Serving

variable {platform : Platform G} {config : Config} {knownPackages : List String} {m : Message}
  {event : SourceEvent} {s : Serving} {servings : List Serving} {source : String × String}
  {reason : TerminateReason} {acc delivered : Option String}

/-- The loop over the servings goes on. -/
def Preparation.Passes : Preparation → Prop
  | .deliver _ => True
  | .ack => True
  | .nack => False
  | .terminate _ => False

/-- The checks of the decision. -/
def Serving.checks (jmes : JmesPathLibrary) (config : Config) (knownPackages : List String)
    (sourceEventId : Option String) (event : SourceEvent) (s : Serving) : Except Declined Unit :=
  checkEvent jmes s.trigger.registration s.condition event knownPackages config.envKey
    (sourceEventId.map fun _ => config.envKey) config.maxDepth

lemma preparationGate_eq_ok {sourceEventId : Option String} {verdict : Verdict} {id : String} :
    preparationGate sourceEventId verdict = .ok id ↔
      sourceEventId = some id ∧
        ∀ package, verdict ≠ .refuse (.sourcePackageIdentityUnknown package) := by
  unfold preparationGate
  split
  · rename_i package
    exact ⟨nofun, fun h => absurd rfl (h.2 package)⟩
  · rename_i hother
    cases sourceEventId with
    | none => exact ⟨nofun, nofun⟩
    | some id' =>
      rw [Except.ok.injEq, Option.some.injEq]
      exact ⟨fun h => ⟨h, hother⟩, And.left⟩

/-- What is known of the message after its preparation for a serving. -/
def Preparation.Justified (platform : Platform G) (config : Config) (knownPackages : List String)
    (servings : List Serving) (m : Message) : Preparation → Prop
  | .deliver id => ∃ event, platform.decodeEvent m.body = .ok event ∧
      verifiedSourceEventId platform config event m.messageIds = some id
  | .ack => True
  | .nack => m.sequence = 0
  | .terminate _ => Terminable platform config knownPackages servings m

lemma prepareMessage_justified (hs : s ∈ servings) :
    (prepareMessage platform config knownPackages m s).Justified platform config knownPackages
      servings m := by
  unfold prepareMessage
  split
  case isTrue hzero => exact hzero
  split
  case h_1 e hevent => exact .record e hevent
  case h_2 event hevent =>
    dsimp only
    split
    case h_1 hgate =>
      unfold preparationGate at hgate
      split at hgate
      case h_1 package hverdict => exact .refused event s _ hevent hs hverdict
      case h_2 =>
        split at hgate
        · cases hgate
        · rename_i hid
          exact .id event hevent hid
    case h_2 id hgate =>
      split
      · trivial
      split
      · exact ⟨event, hevent, (preparationGate_eq_ok.1 hgate).1⟩
      · trivial
      · rename_i hverdict
        exact .refused event s _ hevent hs hverdict

/-- What is known of the message after the loop over the servings. -/
def Prepared (platform : Platform G) (config : Config) (knownPackages : List String)
    (servings : List Serving) (m : Message) (acc : Option String) (rest : List Serving) :
    Except Unserved (Option String) → Prop
  | .ok delivered => (∀ s ∈ rest, (prepareMessage platform config knownPackages m s).Passes) ∧
      (delivered = acc ∨ ∃ event, platform.decodeEvent m.body = .ok event ∧
        delivered = verifiedSourceEventId platform config event m.messageIds)
  | .error e => (¬ ∀ s ∈ rest, (prepareMessage platform config knownPackages m s).Passes) ∧
      match e with
      | .nack => m.sequence = 0
      | .terminate _ => Terminable platform config knownPackages servings m

lemma Prepared.cons {acc' : Option String} {rest : List Serving}
    {r : Except Unserved (Option String)}
    (h : Prepared platform config knownPackages servings m acc' rest r)
    (hs : (prepareMessage platform config knownPackages m s).Passes)
    (hacc : acc' = acc ∨ ∃ event, platform.decodeEvent m.body = .ok event ∧
      acc' = verifiedSourceEventId platform config event m.messageIds) :
    Prepared platform config knownPackages servings m acc (s :: rest) r := by
  cases r with
  | error e => exact ⟨fun hall => h.1 (forall_mem_cons.1 hall).2, h.2⟩
  | ok delivered =>
    refine ⟨forall_mem_cons.2 ⟨hs, h.1⟩, h.2.elim (fun heq => ?_) .inr⟩
    rwa [heq]

lemma prepareServings_prepared {rest : List Serving} (hrest : ∀ s ∈ rest, s ∈ servings) :
    Prepared platform config knownPackages servings m acc rest
      (prepareServings platform config knownPackages m acc rest) := by
  induction rest generalizing acc with
  | nil => exact ⟨nofun, .inl rfl⟩
  | cons s rest ih =>
    obtain ⟨hs, hrest⟩ := forall_mem_cons.1 hrest
    have hjustified : (prepareMessage platform config knownPackages m s).Justified platform config
        knownPackages servings m := prepareMessage_justified hs
    rw [prepareServings]
    cases hprepare : prepareMessage platform config knownPackages m s with
    | deliver id =>
      obtain ⟨event, hevent, hid⟩ := hprepare ▸ hjustified
      exact (ih hrest).cons (by simp [hprepare, Preparation.Passes])
        (.inr ⟨event, hevent, hid.symm⟩)
    | ack => exact (ih hrest).cons (by simp [hprepare, Preparation.Passes]) (.inl rfl)
    | nack | terminate =>
      rw [hprepare] at hjustified
      refine ⟨fun h => ?_, hjustified⟩
      have hpasses := h s mem_cons_self
      rwa [hprepare] at hpasses

/-- A message passes a serving exactly if it is identified, of a known package, and past the
boundary not refused by a check. -/
theorem prepareMessage_passes (hevent : platform.decodeEvent m.body = .ok event)
    (hsequence : m.sequence ≠ 0) :
    (prepareMessage platform config knownPackages m s).Passes ↔
      ∃ id, verifiedSourceEventId platform config event m.messageIds = some id ∧
        knownPackages.contains event.source.1 = true ∧
        (s.trigger.enableSequence < m.sequence → ∀ reason,
          s.checks platform.jmes config knownPackages (some id) event ≠
            .error (.refuse reason)) := by
  simp only [prepareMessage, if_neg hsequence, hevent, Serving.verdict, decideEvent_eq,
    Serving.checks]
  cases hid : verifiedSourceEventId platform config event m.messageIds with
  | none =>
    refine ⟨fun h => ?_, nofun⟩
    split at h
    · exact h.elim
    · rename_i hgate
      cases (preparationGate_eq_ok.1 hgate).1
  | some id =>
    simp only [Option.some.injEq, exists_eq_left']
    generalize hchecks : checkEvent _ _ _ _ _ _ _ _ = checks
    cases hknown : knownPackages.contains event.source.1 with
    | false =>
      rw [EventTrigger.checkEvent_of_unknown hknown] at hchecks
      subst hchecks
      exact ⟨False.elim, nofun⟩
    | true =>
      have hgate : preparationGate (some id) (.ofChecks checks event.input) = .ok id :=
        preparationGate_eq_ok.2 ⟨rfl, fun package h => by
          rw [Verdict.ofChecks_eq_refuse, ← hchecks] at h
          rw [EventTrigger.known_eq_false_of_checkEvent h] at hknown
          cases hknown⟩
      simp only [hgate, true_and]
      by_cases hafter : s.trigger.enableSequence < m.sequence
      · rw [if_neg (Nat.not_le.2 hafter)]
        match checks with
        | .ok () | .error (.skip _) | .error (.refuse _) =>
          simp [Verdict.ofChecks, Preparation.Passes, hafter]
      · rw [if_pos (Nat.not_lt.1 hafter)]
        exact ⟨fun _ h => absurd h hafter, fun _ => trivial⟩

variable (hevent : platform.decodeEvent m.body = .ok event)

include hevent

lemma serveAdmission_of_prepared
    (hprepare : prepareServings platform config knownPackages m none servings = .ok delivered) :
    serveAdmission platform config knownPackages source servings m =
      match verifiedSourceEventId platform config event m.messageIds with
      | none => .error (.terminate .poisonSourceId)
      | some id => .ok ⟨source.1, source.2, m.body, m.sequence, id⟩ := by
  have hprepared : Prepared platform config knownPackages servings m none servings
      (.ok delivered) := hprepare ▸ prepareServings_prepared fun _ hs => hs
  simp only [serveAdmission, hprepare, hevent, bind, Except.bind, Except.toOption, Option.bind]
  rcases hprepared.2 with rfl | ⟨event', hevent', rfl⟩
  · rfl
  · obtain rfl := Except.ok.inj (hevent.symm.trans hevent')
    rw [Option.or_self]

variable {admitBatch : EventBatchAdmission → Except ProductionClaimError α}

/-- A message that passes every serving is handed to the host under its verified identity. -/
theorem serve_of_passes {id : String}
    (hid : verifiedSourceEventId platform config event m.messageIds = some id)
    (h : ∀ s ∈ servings, (prepareMessage platform config knownPackages m s).Passes) :
    serve platform config knownPackages source servings m admitBatch =
      (admitBatch ⟨source.1, source.2, m.body, m.sequence, id⟩).mapError fun _ => .nack := by
  have hprepared : Prepared platform config knownPackages servings m none servings _ :=
    prepareServings_prepared fun _ hs => hs
  cases hprepare : prepareServings platform config knownPackages m none servings with
  | error e => exact absurd h (hprepare ▸ hprepared).1
  | ok delivered => rw [serve, serveAdmission_of_prepared hevent hprepare, hid]; rfl

omit hevent in
lemma serve_of_not_passes (hsequence : m.sequence ≠ 0)
    (h : ¬ ∀ s ∈ servings, (prepareMessage platform config knownPackages m s).Passes) :
    ∃ reason, serve platform config knownPackages source servings m admitBatch =
      .error (.terminate reason) := by
  have hprepared : Prepared platform config knownPackages servings m none servings _ :=
    prepareServings_prepared fun _ hs => hs
  cases hprepare : prepareServings platform config knownPackages m none servings with
  | ok delivered => exact absurd (hprepare ▸ hprepared).1 h
  | error e =>
    cases e with
    | nack => exact absurd (hprepare ▸ hprepared).2 hsequence
    | terminate reason => exact ⟨reason, by rw [serve, serveAdmission, hprepare]; rfl⟩

end Serving

/-! ## Settlement of a batch -/

section Settlement

variable {platform : Platform G} {config : Config} {knownPackages : List String} {m : Message}
  {servings : List Serving} {source : String × String}

lemma identified_of_verified {event : SourceEvent} {id : String}
    (hevent : platform.decodeEvent m.body = .ok event)
    (h : verifiedSourceEventId platform config event m.messageIds = some id) :
    Identified platform config m id := by
  unfold verifiedSourceEventId at h
  split at h
  · rename_i actual hids
    split_ifs at h with hidentity
    cases h
    exact ⟨hids, event, hevent, hidentity⟩
  · cases h

lemma serveCalls_cases (accepts : EventBatchAdmission → Bool) {calls : List Call}
    (h : serveCalls platform config knownPackages source servings m accepts = calls) :
    calls = [.nack] ∨
      (∃ reason, calls = [.term reason] ∧ Terminable platform config knownPackages servings m) ∨
      ∃ batch, calls = [.admitBatch batch (accepts batch), if accepts batch then .ack else .nack] ∧
        batch.sequence = m.sequence ∧ Identified platform config m batch.sourceEventId := by
  subst h
  have hprepared : Prepared platform config knownPackages servings m none servings _ :=
    prepareServings_prepared fun _ hs => hs
  unfold serveCalls
  cases hprepare : prepareServings platform config knownPackages m none servings with
  | error e =>
    have hadmission : serveAdmission platform config knownPackages source servings m =
        .error e := by
      rw [serveAdmission, hprepare]
      rfl
    cases e with
    | nack => exact .inl (by rw [hadmission])
    | terminate reason =>
      exact .inr (.inl ⟨reason, by rw [hadmission], (hprepare ▸ hprepared).2⟩)
  | ok delivered =>
    cases hevent : platform.decodeEvent m.body with
    | error e =>
      have hnone : delivered = none := by
        rcases (hprepare ▸ hprepared).2 with h | ⟨event, h, -⟩
        · exact h
        · cases hevent.symm.trans h
      subst hnone
      refine .inr (.inl ⟨.poisonSourceId, ?_, .record e hevent⟩)
      simp [serveAdmission, hprepare, hevent, bind, Except.bind, Except.toOption]
    | ok event =>
      rw [serveAdmission_of_prepared hevent hprepare]
      cases hverified : verifiedSourceEventId platform config event m.messageIds with
      | none => exact .inr (.inl ⟨_, rfl, .id event hevent hverified⟩)
      | some id => exact .inr (.inr ⟨_, rfl, rfl, identified_of_verified hevent hverified⟩)

lemma settled_serveCalls (accepts : EventBatchAdmission → Bool) :
    Settled platform config knownPackages servings m
      (serveCalls platform config knownPackages source servings m accepts) := by
  rcases serveCalls_cases accepts rfl with heq | ⟨reason, heq, h⟩ | ⟨batch, heq, hsequence, hid⟩
  · rw [heq]
    exact ⟨rfl, by simp, by simp [Call.settles], by simp, by simp⟩
  · rw [heq]
    exact ⟨rfl, by simp, by simp [Call.settles], by simp, fun _ _ => h⟩
  · rw [heq]
    cases accepts batch with
    | true | false =>
      exact ⟨rfl, by simp, by simp [Call.settles], by simpa using ⟨hsequence, hid⟩, by simp⟩

lemma serveBatch_settled {accepts : List (Message × List Call) → EventBatchAdmission → Bool}
    {served : List (Message × List Call)} {messages : List Message}
    (h : ∀ entry ∈ served, Settled platform config knownPackages servings entry.1 entry.2) :
    (serveBatch platform config knownPackages source servings accepts served messages).map
          Prod.fst = served.map Prod.fst ++ messages ∧
      ∀ entry ∈ serveBatch platform config knownPackages source servings accepts served messages,
        Settled platform config knownPackages servings entry.1 entry.2 := by
  induction messages generalizing served with
  | nil => exact ⟨by simp [serveBatch], h⟩
  | cons m rest ih =>
    obtain ⟨hmessages, hsettled⟩ := @ih (served ++ [(m, serveCalls platform config knownPackages
      source servings m (accepts served))])
      (forall_mem_append.2 ⟨h, forall_mem_singleton.2 (settled_serveCalls _)⟩)
    exact ⟨by simpa [serveBatch] using hmessages, hsettled⟩

/-- Every message of a batch is settled once, acknowledged only when admitted, and terminated only
with cause. -/
theorem batch_settled (platform : Platform G) (config : Config) (knownPackages : List String)
    (source : String × String) (servings : List Serving)
    (accepts : List (Message × List Call) → EventBatchAdmission → Bool) (messages : List Message) :
    (serveBatch platform config knownPackages source servings accepts [] messages).map Prod.fst =
        messages ∧
      ∀ entry ∈ serveBatch platform config knownPackages source servings accepts [] messages,
        Settled platform config knownPackages servings entry.1 entry.2 :=
  serveBatch_settled (by simp)

end Settlement

end Wamn.Materializer
