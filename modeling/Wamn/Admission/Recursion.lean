import Wamn.Admission.Keys
import Wamn.Workflow.Queue

/-!
# Event recursion

A run that an event admitted writes rows and emits events, which admit further runs. The depth of
the causation that events carry is meant to end such a chain. It does for events that carry a
causation: a run admitted from one stores a depth one higher and executes with it. A run admitted
from an event without a causation stores no depth, and what it writes carries no causation again.
-/

namespace Wamn.Admission

open Option List
open Lib Lib.Json Lib.Text RunState Runtime Events Materializer Workflow

variable {J G : Type} [DecidableEq J]

/-! ## Links of a chain -/

/-- Who causes an event: somebody outside the workflows of the tenant, or a run. -/
inductive Writer where
  | external
  | run (id : RunId)
  deriving DecidableEq

/-- Between two planes, a host claims a workflow run and executes it under the claim `h`. -/
structure Executed (pg : Postgres J) (platform : Platform G) (p p' : Plane J) (h : Holding) :
    Prop where
  workflow : h.claim.selected.workflow.isSome = true
  claimed : ∃ p₁ session scope leaseTtlMs turn, Runs pg platform p p₁ ∧
    Executors.claimed pg p₁ session scope leaseTtlMs turn = some h ∧
    Runs pg platform (RunPlane.step pg p₁ (.claimNext session scope leaseTtlMs turn)) p'

/-- Between two planes, a writer causes an event. A write from outside carries any causation or none
(the host stamps what a route writes), the writes of a run the causation it executes with, and a
derived event that of the request that published it. -/
inductive Publishes (pg : Postgres J) (platform : Platform G) (p p' : Plane J) :
    Writer → SourceEvent → Prop where
  | outside (envelope : Envelope) (runs : Runs pg platform p p') :
      Publishes pg platform p p' .external (.cdc envelope)
  | write (h : Holding) (executed : Executed pg platform p p' h) (envelope : Envelope)
      (stamped : envelope.causation = h.causation) :
      Publishes pg platform p p' (.run h.claim.selected.runId) (.cdc envelope)
  | emit (h : Holding) (executed : Executed pg platform p p' h) (delivery : Delivery)
      (request : DerivedPublishRequest) (published : (h.settlement delivery true).2 = some request)
      (envKey project environment : String) :
      Publishes pg platform p p' (.run h.claim.selected.runId)
        (.derived (request.event envKey project environment))

/-- An event batch of this event commits and admits the run. -/
def Admits (pg : Postgres J) (platform : Platform G) (p : Plane J) (event : SourceEvent)
    (id : RunId) (p' : Plane J) : Prop :=
  ∃ b : EventBatch G, identifyEvent platform b.release b.admission = .ok event ∧
    b.transact pg platform p = .ok ((), p') ∧ p.run id = none ∧ (p'.run id).isSome = true

/-- Starting with the writer `w`, every run of the chain is admitted from an event that its
predecessor caused; `w'` is its last run. -/
inductive Chain (pg : Postgres J) (platform : Platform G) (p : Plane J) (w : Writer) :
    List SourceEvent → Plane J → Writer → Prop where
  | start : Chain pg platform p w [] p w
  | link {events : List SourceEvent} {p₁ p₂ p₃ : Plane J} {w₁ : Writer} {event : SourceEvent}
      {id : RunId} (chain : Chain pg platform p w events p₁ w₁)
      (publishes : Publishes pg platform p₁ p₂ w₁ event)
      (admits : Admits pg platform p₂ event id p₃) :
      Chain pg platform p w (events ++ [event]) p₃ (.run id)

/-! ## What an admission stores -/

variable {pg : Postgres J} {platform : Platform G} {p p' : Plane J}

variable {id : RunId} {r : Run J} {parent : Causation} {event : SourceEvent}

omit [DecidableEq J] in
/-- Insert-or-read-back stores a new run only with the ancestry of its request. -/
theorem AdmitOutcome.ancestry {grain : Grain} {now : Instant} {drawn : RunId} {q : Request J}
    {answer : Option RunId} (h : AdmitOutcome grain now drawn q p answer p')
    (hnew : p.run id = none) (hr : p'.run id = some r) :
    r.eventRootRunId = q.eventRootRunId ∧ r.eventDepth = q.eventDepth := by
  cases h with
  | inserted =>
    simp only [Plane.run_putEntry, Plane.run_putRun] at hr
    split at hr
    · obtain rfl := Option.some.inj hr
      exact ⟨rfl, rfl⟩
    · exact absurd (hnew.symm.trans hr) (by simp)
  | found | conflict => exact absurd (hnew.symm.trans hr) (by simp)

lemma ancestry_of_admitEventRuns {release : LoadedRelease G} {turn : AdmissionTurn}
    {delivery : String} {actor : Option String} {ancestry : Lineage} {n : ℕ}
    {matched : List (EventWorkflow × Value)}
    (h : admitEventRuns pg platform release turn delivery actor ancestry n matched p = .ok p')
    (hnew : p.run id = none) (hr : p'.run id = some r) :
    r.eventRootRunId = ancestry.rootRun ∧ r.eventDepth = ancestry.depth := by
  induction matched generalizing n p with
  | nil =>
    obtain rfl := pure_eq_ok.1 h
    exact absurd (hnew.symm.trans hr) (by simp)
  | cons matched rest ih =>
    obtain ⟨⟨runId, p₁⟩, hrun, hrest⟩ := bind_eq_ok.1 h
    obtain ⟨q, -, -, -, hroot, hdepth, houtcome⟩ := admitEventRun_eq_ok hrun
    cases hstored : p₁.run id with
    | none => exact ih hrest hstored
    | some stored =>
      -- The run is this workflow's, and the admissions after it keep its ancestry.
      obtain ⟨hstoredRoot, hstoredDepth⟩ := houtcome.ancestry hnew hstored
      obtain ⟨kept, hkept, hsame⟩ := (grows_of_admitEventRuns hrest).kept id stored hstored
      obtain rfl := mem_unique hr hkept
      exact ⟨hsame.eventRootRunId.trans (hstoredRoot.trans hroot),
        hsame.eventDepth.trans (hstoredDepth.trans hdepth)⟩

lemma lineage_some_eq_ok {ancestry : Lineage} (h : lineage (some parent) = .ok ancestry) :
    ancestry = ⟨some parent.run, some parent.root, some (parent.depth + 1)⟩ := by
  simp only [lineage] at h
  split at h
  · exact (pure_eq_ok.1 h).symm
  · cases h

/-- A run admitted from an event with a causation is one deeper than it, and within the limit. -/
theorem lineage_of_admits (h : Admits pg platform p event id p')
    (hparent : event.causation = some parent) : parent.depth + 1 ≤ maxCausationDepth ∧
      ∃ r, p'.run id = some r ∧ r.eventRootRunId = some parent.root ∧
        r.eventDepth = some (parent.depth + 1 : ℤ) := by
  obtain ⟨b, hevent, hbatch, hnew, hadmitted⟩ := h
  obtain ⟨r, hr⟩ := isSome_iff_exists.1 hadmitted
  obtain ⟨event', hevent', hcases⟩ := admitEventBatch_eq_ok hbatch
  obtain rfl := Except.ok.inj (hevent.symm.trans hevent')
  -- The batch wrote a row, so it matched a workflow.
  rcases hcases with
    ⟨-, rfl⟩ | ⟨-, matched, hmatched, ⟨-, rfl⟩ | ⟨actor, ancestry, hlineage, hruns⟩⟩
  · exact absurd (hnew.symm.trans hr) (by simp)
  · exact absurd (hnew.symm.trans hr) (by simp)
  obtain ⟨hroot, hdepth⟩ := ancestry_of_admitEventRuns hruns hnew hr
  obtain ⟨m, hm⟩ : ∃ m, m ∈ matched := by
    cases matched with
    | nil =>
      obtain rfl := pure_eq_ok.1 hruns
      exact absurd (hnew.symm.trans hr) (by simp)
    | cons m rest => exact ⟨m, mem_cons_self⟩
  -- The depth limit is asked by the match itself, before anything is stored.
  have hgate := EventTrigger.depth_of_isMatch (((matchTriggers_eq_ok hmatched).2.2 m.1 m.2).1 hm).2
    hparent
  refine ⟨hgate, r, hr, ?_⟩
  rw [hparent] at hlineage
  -- What is stored is the ancestry of the event, one deeper.
  obtain rfl := lineage_some_eq_ok hlineage
  exact ⟨hroot, hdepth⟩

/-! ## What a run executes with -/

lemma causation_of_executed {h : Holding} {root : String} {depth : ℕ}
    (hexecuted : Executed pg platform p p' h) (hr : p.run h.claim.selected.runId = some r)
    (hroot : r.eventRootRunId = some root) (hdepth : r.eventDepth = some (depth : ℤ)) :
    h.causation = some ⟨h.claim.selected.runId, root, depth⟩ := by
  obtain ⟨w, hw⟩ := isSome_iff_exists.1 hexecuted.workflow
  obtain ⟨p₁, session, scope, leaseTtlMs, turn, hruns, hclaimed, -⟩ := hexecuted.claimed
  obtain ⟨-, s, hs, hdecode⟩ := Executors.claimed_eq_some hclaimed
  obtain ⟨hid, -⟩ := decodeSelectedClaim_eq_ok hdecode
  obtain ⟨-, hcausation⟩ := decodeSelectedClaim_workflow hdecode hw
  -- Up to the claim, the run keeps the ancestry it was admitted with.
  obtain ⟨kept, hkept, hsame⟩ := (grows_of_runs hruns).kept _ r hr
  rw [hid] at hkept
  obtain rfl := mem_unique hs hkept
  have hstored : decodeCausation s.runId s.run = .ok (some ⟨s.runId, root, depth⟩) := by
    simp [decodeCausation, hsame.eventRootRunId, hsame.eventDepth, hroot, hdepth]
    rfl
  have hexecutes : w.causation = some ⟨s.runId, root, depth⟩ :=
    Except.ok.inj (hcausation.symm.trans hstored)
  rw [Holding.causation, hw, hid]
  exact hexecutes

/-- An event that a run with a stored ancestry causes carries its depth. -/
theorem depth_of_publishes {root : String} {depth : ℕ}
    (h : Publishes pg platform p p' (.run id) event) (hr : p.run id = some r)
    (hroot : r.eventRootRunId = some root) (hdepth : r.eventDepth = some (depth : ℤ)) :
    event.causation = some ⟨id, root, depth⟩ := by
  cases h with
  | write h executed envelope stamped =>
    exact stamped.trans (causation_of_executed executed hr hroot hdepth)
  | emit h executed delivery request published envKey project environment =>
    have hcausation := causation_of_executed executed hr hroot hdepth
    -- The settlement of the run stamps the event with the causation it holds.
    have hrequest := Holding.causation_of_settlement published
    rw [hcausation] at hrequest
    exact congrArg some hrequest

/-! ## The bound -/

/-- The last run of a chain stores a depth that counts the links from the second one on. -/
def DepthReached (p : Plane J) (w : Writer) (links : ℕ) : Prop :=
  ∃ id r root depth, w = .run id ∧ p.run id = some r ∧ r.eventRootRunId = some root ∧
    r.eventDepth = some ((depth : ℕ) : ℤ) ∧ links ≤ depth + 1 ∧ depth ≤ maxCausationDepth

lemma depthReached_of_admits {links : ℕ} (h : Admits pg platform p event id p')
    (hparent : event.causation = some parent) (hlinks : links ≤ parent.depth + 2) :
    DepthReached p' (.run id) links := by
  obtain ⟨hgate, r, hr, hroot, hdepth⟩ := lineage_of_admits h hparent
  exact ⟨id, r, parent.root, parent.depth + 1, rfl, hr, hroot, by simpa using hdepth, hlinks, hgate⟩

/-- Past the second link, an event carries the depth of its run, and a chain goes one deeper. -/
theorem DepthReached.link {p₂ p₃ : Plane J} {w : Writer} {links : ℕ}
    (hreached : DepthReached p w links) (hpublishes : Publishes pg platform p p₂ w event)
    (hadmits : Admits pg platform p₂ event id p₃) : DepthReached p₃ (.run id) (links + 1) := by
  obtain ⟨id', r, root, depth, rfl, hr, hroot, hdepth, hle, -⟩ := hreached
  have hevent := depth_of_publishes hpublishes hr hroot hdepth
  exact depthReached_of_admits hadmits hevent (Nat.succ_le_succ hle)

lemma depthReached_of_chain {w w' : Writer} {events : List SourceEvent}
    (h : Chain pg platform p w events p' w') (hlinks : 2 ≤ events.length)
    (hcausation : ∀ event, events[1]? = some event → event.causation.isSome = true) :
    DepthReached p' w' events.length := by
  induction h with
  | start => simp at hlinks
  | @link events p₁ p₂ p₃ w₁ event id chain publishes admits ih =>
    rw [length_append, length_singleton] at hlinks ⊢
    by_cases hsecond : events.length = 1
    · -- The second link: its event carries a causation by assumption.
      have hlast : (events ++ [event])[1]? = some event := by
        rw [getElem?_append_right (by omega)]
        simp [hsecond]
      have hevent := hcausation event hlast
      obtain ⟨parent, hparent⟩ := isSome_iff_exists.1 hevent
      exact depthReached_of_admits admits hparent (by omega)
    · have hlonger : 2 ≤ events.length := by omega
      rw [getElem?_append_left (by omega)] at hcausation
      exact (ih hlonger hcausation).link publishes admits

/-- Causation bounds recursion: a chain of event runs whose second event carries a causation has at
most `maxCausationDepth + 1` links, whatever else happens. It carries one if the first does, or if
it is a derived event. -/
theorem causation_bounds_chain (pg : Postgres J) (platform : Platform G) {p p' : Plane J}
    {w w' : Writer} {events : List SourceEvent} (h : Chain pg platform p w events p' w')
    (hcausation : ∀ event, events[1]? = some event → event.causation.isSome = true) :
    events.length ≤ maxCausationDepth + 1 := by
  by_cases hlinks : 2 ≤ events.length
  · obtain ⟨id, r, root, depth, -, -, -, -, hle, hgate⟩ :=
      depthReached_of_chain h hlinks hcausation
    omega
  · omega

namespace Sample

open RunPlane.Sample

/-! ## A workflow that feeds itself

The workflow `copy` runs on every insert of an order and inserts an order. -/

/-- An insert of an order without a causation. -/
def inserted (lsn : ℕ) : Envelope where
  op := .insert
  old := none
  new := some []
  packageId := "orders"
  entity := "order"
  table := "orders"
  lsn := lsn
  txid := lsn
  commitTs := 0
  causation := none

/-- The event by which the run `0` announces its order. -/
def announced : DerivedEvent where
  envKey := "acme"
  project := "shop"
  environment := "dev"
  packageId := "orders"
  entity := "announcement"
  op := .insert
  payload := .null
  dedupId := "order-0"
  causation := ⟨"0", "0", 0⟩

/-- A host library that knows the announcement, and reads a position as the insert there. -/
def reader : Platform Unit :=
  { library with
    decodeEvent := fun text =>
      if text = "announced" then .ok (.derived announced)
      else match Decimal.parseDigits text.toList with
        | some lsn => .ok (.cdc (inserted lsn))
        | none => .error "not a position" }

/-- The workflow that copies orders. -/
def copy : EventWorkflow where
  trigger := ⟨"orders", "copy", "orders", "order", [.insert], none, 0⟩
  enabled := ⟨1, "", digest, none⟩

/-- A release that serves every graph. -/
def orders : LoadedRelease Unit := release [("orders", ["orders"])]

/-- The delivery of an insert, which draws the position as its run id. -/
def delivery (lsn : ℕ) : EventBatch Unit where
  release := orders
  turn := admissionTurn lsn.repr
  workflows := [copy]
  history := .ok none
  admission := ⟨"orders", "order", lsn.repr, lsn + 1, msgId "shop" "dev" lsn⟩

/-- A host of the release. -/
def session : Session := ⟨"a", some digest, true⟩

/-- A batch admits a run from its event, and a host claims it: the plane in between, the claim and
the plane after it. -/
def serve (b : EventBatch Unit) (event : SourceEvent) (id : RunId) (p : Plane Value) :
    Option (Plane Value × Holding × Plane Value) :=
  match b.transact .identity reader p with
  | .error _ => none
  | .ok (_, p₁) =>
    match Executors.claimed .identity p₁ session scope 1000 (turn 1) with
    | none => none
    | some h =>
      if identifyEvent reader b.release b.admission = .ok event ∧ p.run id = none ∧
          (p₁.run id).isSome = true ∧ h.claim.selected.runId = id ∧
          h.claim.selected.workflow.isSome = true then
        some (p₁, h, RunPlane.step .identity p₁ (.claimNext session scope 1000 (turn 1)))
      else none

lemma serve_eq_some {b : EventBatch Unit} {event : SourceEvent} {id : RunId}
    {p p₁ p₂ : Plane Value} {h : Holding} (hserve : serve b event id p = some (p₁, h, p₂)) :
    Admits .identity reader p event id p₁ ∧ Executed .identity reader p₁ p₂ h ∧
      h.claim.selected.runId = id := by
  unfold serve at hserve
  split at hserve
  · cases hserve
  next hbatch =>
    split at hserve
    · cases hserve
    next hclaimed =>
      split at hserve
      next hchecks =>
        obtain ⟨hevent, hnew, hadmitted, hid, hworkflow⟩ := hchecks
        obtain ⟨rfl, rfl, rfl⟩ := Option.some.inj hserve
        exact ⟨⟨b, hevent, hbatch, hnew, hadmitted⟩,
          ⟨hworkflow, _, session, scope, 1000, turn 1, Steps.refl _, hclaimed, Steps.refl _⟩, hid⟩
      · cases hserve

/-- The inserts before a position are served, from the last to the first, and no copy has a
causation. -/
def copies : ℕ → Plane Value → Bool
  | 0, _ => true
  | n + 1, p =>
    match serve (delivery n) (.cdc (inserted n)) n.repr p with
    | none => false
    | some (_, h, p₂) => h.causation = none ∧ copies n p₂

/-- A chain whose last writer inserts orders goes on with every copy that is served. -/
theorem chain_of_copies {n : ℕ} {p p₁ : Plane Value} {w : Writer} {events : List SourceEvent}
    (hcopies : copies n p = true) (hchain : Chain .identity reader .empty .external events p₁ w)
    (hwrites : ∀ lsn, Publishes .identity reader p₁ p w (.cdc (inserted lsn))) :
    ∃ events' p' w', Chain .identity reader .empty .external events' p' w' ∧
      events'.length = events.length + n := by
  induction n generalizing p p₁ w events with
  | zero => exact ⟨events, p₁, w, hchain, rfl⟩
  | succ n ih =>
    rw [copies] at hcopies
    split at hcopies
    · cases hcopies
    next hserve =>
      obtain ⟨hcausation, hcopies⟩ := of_decide_eq_true hcopies
      obtain ⟨hadmits, hexecuted, hid⟩ := serve_eq_some hserve
      -- The copy writes with the causation of its claim, and that is none.
      obtain ⟨events', p', w', hchain', hlength⟩ :=
        ih hcopies (.link hchain (hwrites n) hadmits) fun lsn =>
          hid ▸ .write _ hexecuted (inserted lsn) hcausation.symm
      refine ⟨events', p', w', hchain', ?_⟩
      rw [hlength, length_append, length_singleton]
      omega

/-- A chain of inserts without a causation passes the limit. -/
theorem copies_exceed_causation_depth :
    ∃ events p w, Chain .identity reader .empty .external events p w ∧
      maxCausationDepth + 1 < events.length := by
  have hcopies : copies 18 .empty = true := by decide +kernel
  obtain ⟨events, p, w, hchain, hlength⟩ :=
    chain_of_copies hcopies .start fun lsn => .outside (inserted lsn) (Steps.refl _)
  exact ⟨events, p, w, hchain, by simp [hlength, maxCausationDepth]⟩

/-! ### A chain that the limit holds for -/

/-- How the run of a copy ends. -/
def announcing : Delivery :=
  .routed ⟨.completed, .null, none, some (.emit .null "order-0" "announcement" .insert "announce")⟩

/-- The delivery of the announcement, to a workflow that runs on it. -/
def announcement : EventBatch Unit where
  release := orders
  turn := admissionTurn "n"
  workflows := [⟨⟨"orders", "notify", "orders", "announcement", [.insert], none, 0⟩,
    ⟨1, "", digest, none⟩⟩]
  history := .ok none
  admission := ⟨"orders", "announcement", "announced", 2, "derived:"⟩

/-- The first copy announces its order, and the announcement is served. -/
def announces : Bool :=
  match serve (delivery 0) (.cdc (inserted 0)) "0" .empty with
  | none => false
  | some (_, h, p) =>
    ((h.settlement announcing true).2.map (·.event "acme" "shop" "dev")) = some announced ∧
      (serve announcement (.derived announced) "n" p).isSome = true

/-- A copy announces its order, and that admits a run. The chain is bounded, since it carries a
causation. -/
theorem announced_copy_is_bounded :
    ∃ p, Chain .identity reader .empty .external [.cdc (inserted 0), .derived announced] p
        (.run "n") ∧
      [SourceEvent.cdc (inserted 0), .derived announced].length ≤ maxCausationDepth + 1 := by
  have hannounces : announces = true := by decide +kernel
  rw [announces] at hannounces
  split at hannounces
  · cases hannounces
  next hserve =>
    obtain ⟨hevent, hnotify⟩ := of_decide_eq_true hannounces
    obtain ⟨request, hrequest, hannounced⟩ := map_eq_some_iff.1 hevent
    obtain ⟨⟨p, _⟩, hserved⟩ := isSome_iff_exists.1 hnotify
    obtain ⟨hadmits, hexecuted, hid⟩ := serve_eq_some hserve
    have hemit := Publishes.emit _ hexecuted announcing request hrequest "acme" "shop" "dev"
    rw [hid, hannounced] at hemit
    have hchain := Chain.link
      (.link .start (.outside (inserted 0) (Steps.refl _)) hadmits) hemit (serve_eq_some hserved).1
    refine ⟨p, hchain, causation_bounds_chain .identity reader hchain ?_⟩
    intro event hevent
    obtain rfl := Option.some.inj hevent
    rfl

end Sample

end Wamn.Admission
