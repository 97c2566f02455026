import Wamn.Lib.Transition
import Wamn.Runtime.ClaimEffects

/-!
# The run plane as a transition system

Hosts and operators take turns on the rows of one tenant. A step is one transaction, and its label
says who acts, how, and what the clocks and the other transactions make of it. A failed transaction
changes nothing. `RowChange` says what a step can do to the rows of the one run it touches.
-/

namespace Wamn.RunPlane

open Lib Lib.Json RunState Runtime

variable {J : Type}

/-! ## Actions -/

variable (pg : Postgres J) (p : Plane J)

/-- One admission transaction: the run and its queue row, or nothing when the key is taken. -/
def admitRun (now : Instant) (id : RunId) (n : NewRun J) (q : QueueRow)
    (p : Plane J) : Except DbError (Option RunId × Plane J) := do
  let (inserted, p₁) ← insertRun pg now id n p
  match inserted with
  | none => pure (none, p₁)
  | some id => do
    let p₂ ← insertQueueRow id q p₁
    pure (some id, p₂)

/-- The transactions of the run plane, with everything the surroundings decide about them. -/
inductive Action (J : Type) where
  | admitRun (now : Instant) (id : RunId) (run : NewRun J) (availableAt : WithTop Instant)
      (streamSeq maxAttempts : ℤ)
  | claimNext (session : Session) (scope : Scope) (ttlMs : ℤ) (turn : Turn)
  | renew (session : Session) (runId : RunId) (generation ttlMs : ℤ) (turn : Turn)
  | releaseCaller (fence : Fence) (outcome : CallerRelease)
  | terminalize (fence : Fence) (terminalization : Terminalization)
  | reportDeadlines (session : Session) (runId : RunId) (generation : ℤ) (adjustments : Value)
  | complete (session : Session) (runId : RunId) (generation : ℤ)
      (completion : ProductionCompletion) (turn : Turn)
  | releaseClaim (session : Session) (runId : RunId) (generation : ℤ) (turn : Turn)
  | reapExhausted (session : Session) (scope : Scope) (graceMs : ℤ) (turn : Turn)
  | park (runId : RunId) (environment : String) (now : Instant)
  | releaseParked (runId : RunId) (environment : String) (now : Instant)

def step : Action J → Plane J
  | .admitRun now id run availableAt streamSeq maxAttempts =>
    commit (admitRun pg now id run (.admitted availableAt streamSeq maxAttempts)) p
  | .claimNext session scope ttlMs turn => commit (claimNext pg session scope ttlMs turn) p
  | .renew session runId generation ttlMs turn =>
    commit (renew session runId generation ttlMs turn) p
  | .releaseCaller fence outcome => commit (releaseCaller pg fence outcome) p
  | .terminalize fence t => commit (terminalize pg fence t) p
  | .reportDeadlines session runId generation adjustments =>
    commit (reportDeadlines pg session runId generation adjustments) p
  | .complete session runId generation completion turn =>
    commit (complete pg session runId generation completion turn) p
  | .releaseClaim session runId generation turn =>
    commit (releaseClaim pg session runId generation turn) p
  | .reapExhausted session scope graceMs turn =>
    commit (reapExhausted pg session scope graceMs turn) p
  | .park runId environment now => (parkQueuedRun runId environment now p).2
  | .releaseParked runId environment now => (releaseParkedRun runId environment now p).2

/-- The run, owner and generation that an executor's action presents. -/
def Action.fence : Action J → Option Fence
  | .renew session runId generation _ _ => some (session.fence runId generation)
  | .releaseCaller fence _ => some fence
  | .terminalize fence _ => some fence
  | .reportDeadlines session runId generation _ => some (session.fence runId generation)
  | .complete session runId generation _ _ => some (session.fence runId generation)
  | .releaseClaim session runId generation _ => some (session.fence runId generation)
  | _ => none

/-- A lease grant: the run, the owner it went to and its generation. -/
structure Grant where
  run : RunId
  owner : String
  generation : ℤ
  deriving DecidableEq

/-- The grant an action commits, if it is a claim that gets its lease. -/
def granted : Action J → Option Grant
  | .claimNext session scope ttlMs turn =>
    match claimNext pg session scope ttlMs turn p with
    | .ok (.ready claim, _) =>
      some ⟨claim.selected.runId, session.runner, claim.leaseGeneration⟩
    | _ => none
  | _ => none

/-! ## What a step can do to the rows of one run -/

/-- The action `a` turns the rows `r` and `q` of the run `id` into `r'` and `q'`, committing the
lease `grant` if it is one. -/
inductive RowChange (pg : Postgres J) (id : RunId) : Action J → Option Grant →
    Option (Run J) → Option QueueRow → Option (Run J) → Option QueueRow → Prop where
  -- The two rows of a run appear together.
  | admitted (now : Instant) (n : NewRun J) (availableAt : WithTop Instant)
      (streamSeq maxAttempts : ℤ) (passes : (n.row now).violated pg id = none) :
      RowChange pg id (.admitRun now id n availableAt streamSeq maxAttempts) none none none
        (some (n.row now)) (some (.admitted availableAt streamSeq maxAttempts))
  -- A claim counts the lease it found, and takes the row or is refused it.
  | grantRefused (session : Session) (scope : Scope) (ttlMs : ℤ) (turn : Turn) (r : Run J)
      (q : QueueRow) (runnable : r.status.isTerminal = false)
      (eligible : claimEligible scope session.release turn.now r q = true) :
      RowChange pg id (.claimNext session scope ttlMs turn) none (some r) (some q)
        (some (reclaimed r q)) (some q.advanced)
  | granted (session : Session) (scope : Scope) (ttlMs : ℤ) (turn : Turn) (r : Run J)
      (q : QueueRow) (expiresAt : Instant) (runnable : r.status.isTerminal = false)
      (eligible : claimEligible scope session.release turn.now r q = true) :
      RowChange pg id (.claimNext session scope ttlMs turn)
        (some ⟨id, session.runner, q.leaseGeneration + 1⟩) (some r) (some q)
        (some (reclaimed r q).markedRunning) (some (q.advanced.leased session.runner expiresAt))
  -- The actions of a holder, each with the fence that admitted it.
  | renewed (session : Session) (generation ttlMs : ℤ) (turn : Turn) (r : Option (Run J))
      (q : QueueRow) (expiresAt : Instant)
      (live : q.liveUnder session.runner generation turn.statementTimestamp = true) :
      RowChange pg id (.renew session id generation ttlMs turn) none r (some q)
        r (some (q.renewed expiresAt))
  | callerReleased (f : Fence) (o : CallerRelease) (r : Run J) (q : QueueRow) (body : J)
      (target : f.targetRunId = id) (ready : f.Ready r q)
      (unreleased : r.callerReleasedAt = none) :
      RowChange pg id (.releaseCaller f o) none (some r) (some q)
        (some (r.withCaller o body)) (some q)
  | terminalized (f : Fence) (t : Terminalization) (r : Run J) (q : QueueRow) (result : J)
      (target : f.targetRunId = id) (ready : f.Ready r q)
      (attached : t.status = .completed → r.unreleasedAttached = false) :
      RowChange pg id (.terminalize f t) none (some r) (some q)
        (some (r.withTerminal t result)) none
  | deadlinesReported (session : Session) (generation : ℤ) (adjustments : Value) (r : Run J)
      (q : QueueRow) (json : J) (ready : (session.fence id generation).Ready r q) :
      RowChange pg id (.reportDeadlines session id generation adjustments) none (some r) (some q)
        (some (r.withDeadlineAdjustments json)) (some q)
  | completed (session : Session) (generation : ℤ) (completion : ProductionCompletion)
      (turn : Turn) (r settled : Run J) (q : QueueRow) (result : J)
      (ready : (session.fence id generation).Ready r q)
      (caller : CallerSettled pg turn.hostTime completion.caller r settled)
      (attached : (completion.terminalization turn.hostTime).status = .completed →
        settled.unreleasedAttached = false) :
      RowChange pg id (.complete session id generation completion turn) none (some r) (some q)
        (some (settled.withTerminal (completion.terminalization turn.hostTime) result)) none
  | returned (session : Session) (generation : ℤ) (turn : Turn) (r : Run J) (q : QueueRow)
      (availableAt : Instant) (runnable : r.status.isTerminal = false)
      (live : q.liveUnder session.runner generation turn.statementTimestamp = true)
      (budget : q.attempts + 1 < q.maxAttempts) :
      RowChange pg id (.releaseClaim session id generation turn) none (some r) (some q)
        (some r) (some (q.returned availableAt))
  | releaseExhausted (session : Session) (generation : ℤ) (turn : Turn) (r : Run J)
      (q : QueueRow) (json : J) (hash : String) (runnable : r.status.isTerminal = false)
      (live : q.liveUnder session.runner generation turn.statementTimestamp = true) :
      RowChange pg id (.releaseClaim session id generation turn) none (some r) (some q)
        (some (r.withExhaustion .retryExhausted json hash turn.hostTime)) none
  -- The janitor and the operators present no fence.
  | reaped (session : Session) (scope : Scope) (graceMs : ℤ) (turn : Turn) (r : Run J)
      (q : QueueRow) (json : J) (hash : String)
      (eligible : exhaustedEligible scope graceMs turn.now r q = true) :
      RowChange pg id (.reapExhausted session scope graceMs turn) none (some r) (some q)
        (some (r.withExhaustion .infrastructureFailure json hash turn.hostTime)) none
  | parked (environment : String) (now : Instant) (r : Run J) (q : QueueRow) :
      RowChange pg id (.park id environment now) none (some r) (some q)
        (some r) (some (q.movedTo ⊤))
  | woken (environment : String) (now : Instant) (r : Run J) (q : QueueRow) :
      RowChange pg id (.releaseParked id environment now) none (some r) (some q)
        (some r) (some (q.movedTo now))

/-- The action leaves the plane as it is, or makes one row change. -/
def Explained (a : Action J) (p' : Plane J) : Prop :=
  (p' = p ∧ granted pg p a = none) ∨
    ∃ id r' q', RowChange pg id a (granted pg p a) (p.run id) (p.entry id) r' q' ∧
      p.Rewrites p' id r' q'

section Cases

variable {pg : Postgres J} {p : Plane J}

lemma admitRun_eq_ok {now : Instant} {id : RunId} {n : NewRun J} {q : QueueRow}
    {answer : Option RunId} {p' : Plane J} (h : admitRun pg now id n q p = .ok (answer, p')) :
    (answer = none ∧ p.keyTaken n.idempotencyKey = true ∧ p' = p) ∨
      (answer = some id ∧ p.keyTaken n.idempotencyKey = false ∧ p.run id = none ∧
        p.entry id = none ∧ (n.row now).violated pg id = none ∧
        p' = (p.putRun id (n.row now)).putEntry id q) := by
  obtain ⟨⟨inserted, p₁⟩, hinsert, hrest⟩ := bind_eq_ok.1 h
  rcases insertRun_eq_ok hinsert with
    ⟨rfl, htaken, hsame⟩ | ⟨rfl, hfree, hfresh, hpasses, rfl⟩
  · obtain ⟨rfl, rfl⟩ := done_eq_ok.1 hrest
    exact .inl ⟨rfl, htaken, hsame⟩
  · obtain ⟨p₂, hqueue, hrest⟩ := bind_eq_ok.1 hrest
    obtain ⟨hentry, rfl⟩ := insertQueueRow_eq_ok hqueue
    obtain ⟨rfl, rfl⟩ := done_eq_ok.1 hrest
    exact .inr ⟨rfl, hfree, hfresh, by simpa using hentry, hpasses, rfl⟩

/-- The action makes one row change and grants no lease. -/
def Changed (pg : Postgres J) (p : Plane J) (a : Action J) (p' : Plane J) : Prop :=
  ∃ id r q r' q', p.run id = r ∧ p.entry id = q ∧ RowChange pg id a none r q r' q' ∧
    p.Rewrites p' id r' q'

lemma Explained.of_changed {a : Action J} {p' : Plane J} (hgrant : granted pg p a = none)
    (h : p' = p ∨ Changed pg p a p') : Explained pg p a p' := by
  rcases h with rfl | ⟨id, r, q, r', q', rfl, rfl, hchange, hrewrites⟩
  · exact .inl ⟨rfl, hgrant⟩
  · exact .inr ⟨id, r', q', hgrant ▸ hchange, hrewrites⟩

/-- A transaction is explained by what it does when it commits. -/
theorem Explained.of_commit {ε α : Type} {f : Plane J → Except ε (α × Plane J)} {a : Action J}
    (hgrant : granted pg p a = none)
    (h : ∀ answer p', f p = .ok (answer, p') → p' = p ∨ Changed pg p a p') :
    Explained pg p a (commit f p) :=
  .of_changed hgrant (commit_rec (.inl rfl) h)

lemma changed_admitRun {now : Instant} {id : RunId} {n : NewRun J} {availableAt : WithTop Instant}
    {streamSeq maxAttempts : ℤ} {answer : Option RunId} {p' : Plane J}
    (h : admitRun pg now id n (.admitted availableAt streamSeq maxAttempts) p = .ok (answer, p')) :
    p' = p ∨ Changed pg p (.admitRun now id n availableAt streamSeq maxAttempts) p' := by
  rcases admitRun_eq_ok h with ⟨-, -, rfl⟩ | ⟨-, -, hrun, hentry, hpasses, rfl⟩
  · exact .inl rfl
  · have hqueued := (p.rewrites_putRun id (n.row now)).trans
      (Plane.rewrites_putEntry _ id (.admitted availableAt streamSeq maxAttempts))
    rw [Plane.run_putRun, if_pos rfl] at hqueued
    exact .inr ⟨id, _, _, _, _, hrun, hentry,
      .admitted now n availableAt streamSeq maxAttempts hpasses, hqueued⟩

lemma explained_claimNext (session : Session) (scope : Scope) (ttlMs : ℤ) (turn : Turn) :
    Explained pg p (.claimNext session scope ttlMs turn)
      (step pg p (.claimNext session scope ttlMs turn)) := by
  cases h : claimNext pg session scope ttlMs turn p with
  | error e => exact .inl ⟨commit_of_error h, by simp [granted, h]⟩
  | ok result =>
    -- The answer of the turn decides whether there is a grant.
    obtain ⟨outcome, p'⟩ := result
    have hstep : step pg p (.claimNext session scope ttlMs turn) = p' := commit_of_ok h
    rw [hstep]
    rcases claimNext_eq_ok h with ⟨rfl, rfl⟩ |
      ⟨s, selected, hr, hq, heligible, hrunnable, hdecode,
        ⟨⟨e, rfl⟩, hrewrites⟩ | ⟨rfl, hrewrites⟩⟩
    · exact .inl ⟨rfl, by simp [granted, h]⟩
    · refine .inr ⟨s.runId, _, _, ?_, hrewrites⟩
      simp only [granted, h, hr, hq]
      exact .grantRefused session scope ttlMs turn s.run s.entry hrunnable heligible
    · refine .inr ⟨s.runId, _, _, ?_, hrewrites⟩
      simp only [granted, h, hr, hq, (decodeSelectedClaim_eq_ok hdecode).1]
      exact .granted session scope ttlMs turn s.run s.entry _ hrunnable heligible

end Cases

lemma step_rowChange (pg : Postgres J) (p : Plane J) (a : Action J) :
    Explained pg p a (step pg p a) := by
  cases a with
  | claimNext => exact explained_claimNext ..
  | admitRun => exact .of_commit rfl fun _ _ h => changed_admitRun h
  | renew session runId generation ttlMs turn =>
    refine .of_commit rfl fun answer p' h => (renew_eq_ok h).imp_right ?_
    rintro ⟨q, expiresAt, hq, hlive, rfl⟩
    exact ⟨runId, _, _, _, _, rfl, hq,
      .renewed session generation ttlMs turn _ q expiresAt hlive, p.rewrites_putEntry runId _⟩
  | releaseCaller f o =>
    refine .of_commit rfl fun answer p' h => (releaseCaller_eq_ok h).imp (·.2.1) ?_
    rintro ⟨r, q, body, hr, hq, hready, hunreleased, rfl, -⟩
    exact ⟨_, _, _, _, _, hr, hq, .callerReleased f o r q body rfl hready hunreleased,
      hq ▸ p.rewrites_putRun f.targetRunId _⟩
  | terminalize f t =>
    refine .of_commit rfl fun answer p' h => (terminalize_eq_ok h).imp (·.2.1) ?_
    rintro ⟨r, q, result, hr, hq, hready, hattached, rfl⟩
    exact ⟨_, _, _, _, _, hr, hq, .terminalized f t r q result rfl hready hattached,
      p.rewrites_dequeue f.targetRunId _⟩
  | reportDeadlines session runId generation adjustments =>
    refine .of_commit rfl fun answer p' h => (reportDeadlines_eq_ok h).imp_right ?_
    rintro ⟨r, q, json, hr, hq, hready, rfl⟩
    exact ⟨_, _, _, _, _, hr, hq,
      .deadlinesReported session generation adjustments r q json hready,
      hq ▸ p.rewrites_putRun runId _⟩
  | complete session runId generation completion turn =>
    refine .of_commit rfl fun answer p' h => (complete_eq_ok h).imp_right ?_
    rintro ⟨r, q, settled, result, hr, hq, hready, hcaller, hattached, hrewrites⟩
    exact ⟨_, _, _, _, _, hr, hq, .completed session generation completion turn r settled q result
      hready hcaller hattached, hrewrites⟩
  | releaseClaim session runId generation turn =>
    refine .of_commit rfl fun answer p' h => (releaseClaim_eq_ok h).imp_right ?_
    rintro ⟨r, q, hr, hq, hrunnable, hlive,
      ⟨hbudget, availableAt, hrewrites⟩ | ⟨-, json, hash, hrewrites⟩⟩
    · exact ⟨_, _, _, _, _, hr, hq,
        .returned session generation turn r q availableAt hrunnable hlive hbudget, hrewrites⟩
    · exact ⟨_, _, _, _, _, hr, hq,
        .releaseExhausted session generation turn r q json hash hrunnable hlive, hrewrites⟩
  | reapExhausted session scope graceMs turn =>
    refine .of_commit rfl fun answer p' h => (reapExhausted_eq_ok h).imp_right ?_
    rintro ⟨id, r, q, json, hash, hr, hq, heligible, hrewrites⟩
    exact ⟨_, _, _, _, _, hr, hq, .reaped session scope graceMs turn r q json hash heligible,
      hrewrites⟩
  | park runId environment now =>
    refine .of_changed rfl ((parkQueuedRun_cases runId environment now p).imp_right ?_)
    rintro ⟨q, r, hq, hr, -, hmoved⟩
    rw [step, hmoved]
    exact ⟨_, _, _, _, _, hr, hq, .parked environment now r q, hr ▸ p.rewrites_putEntry runId _⟩
  | releaseParked runId environment now =>
    refine .of_changed rfl ((releaseParkedRun_cases runId environment now p).imp_right ?_)
    rintro ⟨q, r, hq, hr, hmoved⟩
    rw [step, hmoved]
    exact ⟨_, _, _, _, _, hr, hq, .woken environment now r q, hr ▸ p.rewrites_putEntry runId _⟩

/-! ## Rules for whole runs -/

/-- A property of the two rows of every run that row changes of `a` keep is kept by the step. -/
theorem rows_step {pg : Postgres J} {p : Plane J} {a : Action J}
    {I : RunId → Option (Run J) → Option QueueRow → Prop}
    (hchange : ∀ id grant r q r' q', I id r q → RowChange pg id a grant r q r' q' → I id r' q')
    (h : ∀ id, I id (p.run id) (p.entry id)) (id : RunId) :
    I id ((step pg p a).run id) ((step pg p a).entry id) := by
  rcases step_rowChange pg p a with ⟨hsame, -⟩ | ⟨id', r', q', hrow, hrewrites⟩
  · rw [hsame]; exact h id
  · rw [(hrewrites id).1, (hrewrites id).2]
    by_cases hne : id = id'
    · -- The touched run: this is where the row change says what it became.
      subst hne
      simpa using hchange id _ _ _ r' q' (h id) hrow
    · simpa [hne] using h id

/-- A property of a run row that no row change of `a` takes away survives the step. -/
theorem run_step (pg : Postgres J) (a : Action J) {p : Plane J} {K : Run J → Prop}
    (hchange : ∀ id grant r q r' q', K r → RowChange pg id a grant (some r) q r' q' →
      ∃ kept, r' = some kept ∧ K kept)
    {id : RunId} {r : Run J} (hr : p.run id = some r) (hkeep : K r) :
    ∃ kept, (step pg p a).run id = some kept ∧ K kept := by
  rcases step_rowChange pg p a with ⟨hsame, -⟩ | ⟨id', r', q', hrow, hrewrites⟩
  · exact ⟨r, by rw [hsame, hr], hkeep⟩
  · rw [(hrewrites id).1]
    by_cases hne : id = id'
    · subst hne
      rw [hr] at hrow
      obtain ⟨kept, rfl, hkept⟩ := hchange id _ r _ r' q' hkeep hrow
      exact ⟨kept, by simp, hkept⟩
    · exact ⟨r, by simpa [hne] using hr, hkeep⟩

/-- The plane reaches another one by finitely many steps, whoever takes them. -/
def Runs (pg : Postgres J) : Plane J → Plane J → Prop :=
  Steps (step pg) fun _ _ => True

def Reachable (pg : Postgres J) (p : Plane J) : Prop := Runs pg .empty p

/-! ## A small tenant

The pieces of the concrete runs that stand beside the general theorems. -/

namespace Sample

/-- An HTTP run of a flow, with a caller waiting for it. -/
def checkout : NewRun Value where
  packageId := "orders"
  environment := "dev"
  triggerSource := some .http
  flowId := some "checkout"
  flowVersion := some 1
  wiringId := some "checkout"
  wiringVersion := some 1
  inputJson := some .null

def host (runner : String) : Session := ⟨runner, none, true⟩

def scope : Scope := ⟨["orders"], "dev"⟩

/-- A turn in which all clocks agree and nothing is locked or refused. -/
def turn (now : Instant) : Turn := ⟨now, now, now, fun _ => false, 0, none⟩

/-- One admitted run that the host `a` holds under generation 1. -/
def claimed : List (Action Value) :=
  [.admitRun 0 "r1" checkout 0 0 20, .claimNext (host "a") scope 30 (turn 1)]

/-- The plane after a sequence of actions on a tenant without rows. -/
def planeAfter (actions : List (Action Value)) : Plane Value :=
  actions.foldl (step .identity) .empty

lemma reachable_planeAfter (actions : List (Action Value)) :
    Reachable .identity (planeAfter actions) :=
  Steps.foldl _ _ fun _ _ _ => trivial

end Sample

end Wamn.RunPlane
