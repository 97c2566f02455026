import Wamn.RunState.Rows

/-!
# Fenced run-state transitions

Every executor mutation joins `runs` to the authority `(lease_owner, lease_generation)` of the queue
and answers one typed row. The run whose fence is presented is bound apart from the run that is
changed, so that a mismatch is a typed refusal.
-/

namespace Wamn.RunState

open Lib Lib.Json

variable {J : Type}

/-! ## The fence -/

/-- The binds `$1` to `$4` that every fenced statement starts with. -/
structure Fence where
  targetRunId : RunId
  authorityRunId : RunId
  leaseOwner : String
  leaseGeneration : ℤ
  deriving DecidableEq

/-- The `result_code` texts of the fenced statements. -/
inductive ResultCode where
  | crossRunAuthority
  | notFound
  | runTerminal
  | fenceLost
  | ready
  | alreadyReleased
  | released
  | callerUnreleased
  | terminalized
  deriving DecidableEq

def ResultCode.asSql : ResultCode → String
  | .crossRunAuthority => "cross-run-authority"
  | .notFound => "not-found"
  | .runTerminal => "run-terminal"
  | .fenceLost => "fence-lost"
  | .ready => "ready"
  | .alreadyReleased => "already-released"
  | .released => "released"
  | .callerUnreleased => "caller-unreleased"
  | .terminalized => "terminalized"

/-- The row of the `authority` relation: its code and the locked run, if it exists and the two ids
agree. -/
structure Authority (J : Type) where
  code : ResultCode
  run : Option (Run J)

/-- The queue row is held under the presented owner and generation. -/
def QueueRow.heldBy (q : QueueRow) (owner : String) (generation : ℤ) : Bool :=
  q.leaseOwner = some owner && q.leaseGeneration = generation

/-- `FENCED_PREFIX`: lock the run and its queue row and compare the fence. A terminal run comes
first. -/
def Plane.authority (p : Plane J) (f : Fence) : Authority J :=
  -- The join is empty where the two ids differ, whatever rows they have.
  if f.targetRunId ≠ f.authorityRunId then ⟨.crossRunAuthority, none⟩
  else match p.run f.targetRunId with
    | none => ⟨.notFound, none⟩
    | some r =>
      -- An ended run has no queue row any more, so its status is asked first.
      if r.status.isTerminal then ⟨.runTerminal, some r⟩
      else match p.entry f.targetRunId with
        | none => ⟨.fenceLost, some r⟩
        | some q =>
          if q.heldBy f.leaseOwner f.leaseGeneration then ⟨.ready, some r⟩
          else ⟨.fenceLost, some r⟩

/-- The run is runnable, and its queue row is held under the presented fence. -/
def Fence.Ready (f : Fence) (r : Run J) (q : QueueRow) : Prop :=
  r.status.isTerminal = false ∧ q.leaseOwner = some f.leaseOwner ∧
    q.leaseGeneration = f.leaseGeneration

variable {p : Plane J} {f : Fence} {a : Authority J} {pg : Postgres J} {o : CallerRelease}
  {t : Terminalization}

/-- The code is `ready` only for the stored holder of a runnable run. -/
theorem Plane.authority_ready (h : (p.authority f).code = .ready) :
    ∃ r q, p.run f.targetRunId = some r ∧ p.entry f.targetRunId = some q ∧ f.Ready r q ∧
      (p.authority f).run = some r := by
  unfold Plane.authority at h ⊢
  split at h
  · cases h
  · rename_i hids
    cases hr : p.run f.targetRunId with
    | none => simp [hr] at h
    | some r =>
      by_cases hterminal : r.status.isTerminal
      · simp [hr, hterminal] at h
      · cases hq : p.entry f.targetRunId with
        | none => simp [hr, hterminal, hq] at h
        | some q =>
          by_cases hheld : q.heldBy f.leaseOwner f.leaseGeneration
          · refine ⟨r, q, rfl, rfl, ⟨by simpa using hterminal, ?_⟩, ?_⟩
            · simpa [QueueRow.heldBy] using hheld
            · simp [hids, hterminal, hheld]
          · simp [hr, hterminal, hq, hheld] at h

lemma Plane.authority_code_cases (p : Plane J) (f : Fence) :
    (p.authority f).code = .crossRunAuthority ∨ (p.authority f).code = .notFound ∨
      (p.authority f).code = .runTerminal ∨ (p.authority f).code = .fenceLost ∨
      (p.authority f).code = .ready := by
  unfold Plane.authority
  split_ifs with hids
  · simp
  · split
    · simp
    · split_ifs with hterminal
      · simp
      · split
        · simp
        · split_ifs <;> simp

lemma Plane.authority_run {r : Run J} (h : (p.authority f).run = some r) :
    p.run f.targetRunId = some r := by
  by_cases hids : f.targetRunId = f.authorityRunId
  · cases hstored : p.run f.targetRunId with
    | none => simp [Plane.authority, hids ▸ hstored, hids] at h
    | some stored =>
      -- Whatever the fence answers about a stored run, it answers with that run.
      have hrun : (p.authority f).run = some stored := by
        simp only [Plane.authority, hids, ne_eq, not_true_eq_false, if_false, hids ▸ hstored]
        split_ifs
        · rfl
        · split
          · rfl
          · split_ifs <;> rfl
      rw [← hrun, h]
  · simp [Plane.authority, hids] at h

lemma Plane.authority_of_ready {r : Run J} {q : QueueRow}
    (hids : f.targetRunId = f.authorityRunId) (hr : p.run f.targetRunId = some r)
    (hq : p.entry f.targetRunId = some q) (h : f.Ready r q) : p.authority f = ⟨.ready, some r⟩ := by
  obtain ⟨hrunnable, howner, hgeneration⟩ := h
  have hr' : p.run f.authorityRunId = some r := hids ▸ hr
  have hq' : p.entry f.authorityRunId = some q := hids ▸ hq
  simp [Plane.authority, hids, hr', hq', hrunnable, QueueRow.heldBy, howner, hgeneration]

/-! ## Releasing the caller -/

/-- A caller outcome returned with `already-released`. -/
structure StoredCallerOutcome where
  type : CallerOutcomeType
  body : Value
  httpStatus : Option UInt16
  releaseNodeId : Option String
  hash : Option String
  deriving DecidableEq

/-- Whether a replayed release names the exact outcome that is stored. -/
def StoredCallerOutcome.exactlyMatches (stored : StoredCallerOutcome) (kind : CallerOutcomeType)
    (body : Value) (httpStatus : Option UInt16) (releaseNodeId : Option String)
    (hash : String) : Bool :=
  stored.type = kind && stored.body = body && stored.httpStatus = httpStatus &&
    stored.releaseNodeId = releaseNodeId && stored.hash = some hash

/-- The binds `$5` to `$10` of `release_caller_sql`. -/
structure CallerRelease where
  kind : CallerOutcomeType
  body : Value
  httpStatus : ℤ
  releaseNodeId : Option String
  hash : String
  instant : Instant

/-- The one row `release_caller_sql` returns. -/
structure CallerReleaseRow (J : Type) where
  code : ResultCode
  runStatus : Option RunStatus
  kind : Option CallerOutcomeType
  body : Option J
  httpStatus : Option ℤ
  releaseNodeId : Option String
  hash : Option String

/-- The result row that reads its columns off a run, or off no run. -/
def CallerReleaseRow.ofRun (code : ResultCode) (run : Option (Run J)) : CallerReleaseRow J where
  code := code
  runStatus := run.map (·.status)
  kind := run.bind (·.callerOutcomeType)
  body := run.bind (·.callerOutcomeJson)
  httpStatus := run.bind (·.callerHttpStatus)
  releaseNodeId := run.bind (·.callerReleaseNodeId)
  hash := run.bind (·.callerOutcomeHash)

inductive CallerReleaseResult where
  | released
  | alreadyReleased (stored : StoredCallerOutcome)
  | runTerminal (status : RunStatus)
  | fenceLost
  | crossRunAuthority
  | notFound
  deriving DecidableEq

/-- The result row of `release_caller_sql`. A stored outcome needs kind and body. -/
def CallerReleaseResult.fromParts (code : ResultCode) (runStatus : Option RunStatus)
    (kind : Option CallerOutcomeType) (body : Option Value) (httpStatus : Option UInt16)
    (releaseNodeId hash : Option String) : Option CallerReleaseResult :=
  match code with
  | .released => some .released
  | .alreadyReleased => do
    let kind ← kind
    let body ← body
    some (.alreadyReleased ⟨kind, body, httpStatus, releaseNodeId, hash⟩)
  | .runTerminal => runStatus.map .runTerminal
  | .fenceLost => some .fenceLost
  | .crossRunAuthority => some .crossRunAuthority
  | .notFound => some .notFound
  | _ => none

def CallerReleaseResult.code : CallerReleaseResult → ResultCode
  | released => .released
  | alreadyReleased _ => .alreadyReleased
  | runTerminal _ => .runTerminal
  | fenceLost => .fenceLost
  | crossRunAuthority => .crossRunAuthority
  | notFound => .notFound

lemma CallerReleaseResult.code_of_fromParts {code : ResultCode} {runStatus : Option RunStatus}
    {kind : Option CallerOutcomeType} {body : Option Value} {httpStatus : Option UInt16}
    {releaseNodeId hash : Option String} {result : CallerReleaseResult}
    (h : fromParts code runStatus kind body httpStatus releaseNodeId hash = some result) :
    result.code = code := by
  cases code <;> cases kind <;> cases body <;> cases runStatus <;>
    simp [fromParts] at h <;> subst h <;> rfl

/-- Whether the run the fence locked has a stored caller outcome. -/
def Authority.callerReleased (a : Authority J) : Bool :=
  a.run.elim false (·.callerReleasedAt.isSome)

/-- The `classified` relation of `release_caller_sql`. -/
def Authority.classifyRelease (a : Authority J) : ResultCode :=
  -- A repeated release learns the stored outcome, also after the run has ended.
  if a.code = .runTerminal && a.callerReleased then .alreadyReleased
  else if a.code ≠ .ready then a.code
  else if a.callerReleased then .alreadyReleased
  else .ready

def Run.withCaller (r : Run J) (o : CallerRelease) (body : J) : Run J :=
  { r with
    callerOutcomeType := some o.kind
    callerOutcomeJson := some body
    callerHttpStatus := some o.httpStatus
    callerReleaseNodeId := o.releaseNodeId
    callerOutcomeHash := some o.hash
    callerReleasedAt := some o.instant
    updatedAt := o.instant }

def Postgres.bind (pg : Postgres J) (v : Value) : Except DbError J :=
  (pg.ofValue v).mapError .invalidJson

/-- `release_caller_sql`: release the durable caller outcome under the queue fence. -/
def releaseCaller (pg : Postgres J) (f : Fence) (o : CallerRelease) (p : Plane J) :
    Except DbError (CallerReleaseRow J × Plane J) :=
  let a := p.authority f
  match a.classifyRelease, a.run with
  | .ready, some r => do
    let body ← pg.bind o.body
    let p' ← p.updateRun pg f.targetRunId (r.withCaller o body)
    pure (.ofRun .released (some (r.withCaller o body)), p')
  | code, run => pure (.ofRun code run, p)

lemma Authority.classifyRelease_ready (h : a.classifyRelease = .ready) :
    a.code = .ready ∧ a.callerReleased = false := by
  unfold Authority.classifyRelease at h
  split at h
  · cases h
  · split at h
    · exact absurd h ‹_›
    · split at h
      · cases h
      · simp_all

lemma Plane.classifyRelease_ne_released (p : Plane J) (f : Fence) :
    (p.authority f).classifyRelease ≠ .released := by
  unfold Authority.classifyRelease
  rcases p.authority_code_cases f with h | h | h | h | h <;> simp only [h] <;> split_ifs <;> simp

lemma Plane.classifyRelease_alreadyReleased
    (h : (p.authority f).classifyRelease = .alreadyReleased) :
    ∃ r, p.run f.targetRunId = some r ∧ (p.authority f).run = some r ∧
      r.callerReleasedAt.isSome = true := by
  have hreleased : (p.authority f).callerReleased = true := by
    -- Without a stored outcome the classification hands on the code of the fence.
    by_contra hunreleased
    unfold Authority.classifyRelease at h
    rcases p.authority_code_cases f with h' | h' | h' | h' | h' <;>
      simp [h', hunreleased] at h
  cases hrun : (p.authority f).run with
  | none => simp [Authority.callerReleased, hrun] at hreleased
  | some r =>
    refine ⟨r, authority_run hrun, rfl, ?_⟩
    simpa [Authority.callerReleased, hrun] using hreleased

lemma Authority.code_ne_ready_of_classifyRelease (hready : a.classifyRelease ≠ .ready)
    (hreleased : a.classifyRelease ≠ .alreadyReleased) : a.code ≠ .ready := by
  intro hcode
  unfold Authority.classifyRelease at hready hreleased
  cases hcaller : a.callerReleased <;> simp [hcode, hcaller] at hready hreleased

lemma releaseCaller_of_ne_ready (h : (p.authority f).classifyRelease ≠ .ready) :
    releaseCaller pg f o p =
      .ok (.ofRun (p.authority f).classifyRelease (p.authority f).run, p) := by
  dsimp only [releaseCaller]
  split
  · exact absurd ‹_› h
  · rfl

/-- A committed caller release writes nothing and answers about the rows, or the holder stored the
first outcome. -/
theorem releaseCaller_eq_ok {p' : Plane J} {row : CallerReleaseRow J}
    (h : releaseCaller pg f o p = .ok (row, p')) :
    ((p.authority f).classifyRelease ≠ .ready ∧ p' = p ∧
        row = .ofRun (p.authority f).classifyRelease (p.authority f).run) ∨
      ∃ r q body, p.run f.targetRunId = some r ∧ p.entry f.targetRunId = some q ∧ f.Ready r q ∧
        r.callerReleasedAt = none ∧ p' = p.putRun f.targetRunId (r.withCaller o body) ∧
        row.code = .released := by
  by_cases hready : (p.authority f).classifyRelease = .ready
  · right
    -- The holder of a run without an outcome: the statement writes.
    obtain ⟨hcode, hunreleased⟩ := Authority.classifyRelease_ready hready
    obtain ⟨r, q, hr, hq, hfence, hrun⟩ := Plane.authority_ready hcode
    simp only [releaseCaller, hready, hrun] at h
    obtain ⟨body, -, h⟩ := bind_eq_ok.1 h
    replace h := Plane.updateRun_bind_eq_ok h
    obtain ⟨rfl, rfl⟩ := done_eq_ok.1 h
    refine ⟨r, q, body, hr, hq, hfence, ?_, rfl, rfl⟩
    simpa [Authority.callerReleased, hrun] using hunreleased
  · left
    -- Every other release reads the row it found.
    rw [releaseCaller_of_ne_ready hready] at h
    obtain ⟨rfl, rfl⟩ := done_eq_ok.1 h
    exact ⟨hready, rfl, rfl⟩

/-! ## Taking the terminal result -/

/-- The binds `$5` to `$9` of `terminalize_sql`. The status it writes is a terminal one. -/
structure Terminalization where
  status : RunStatus
  terminalReason : String
  result : Value
  failType : Option FailType
  instant : Instant
  status_isTerminal : status.isTerminal = true

inductive TerminalizeResult where
  | terminalized
  | runTerminal (status : RunStatus)
  | callerUnreleased
  | fenceLost
  | crossRunAuthority
  | notFound
  deriving DecidableEq

def TerminalizeResult.fromParts (code : ResultCode) (runStatus : Option RunStatus) :
    Option TerminalizeResult :=
  match code with
  | .terminalized => some .terminalized
  | .runTerminal => runStatus.map .runTerminal
  | .callerUnreleased => some .callerUnreleased
  | .fenceLost => some .fenceLost
  | .crossRunAuthority => some .crossRunAuthority
  | .notFound => some .notFound
  | _ => none

/-- `classified` in `terminalize_sql`: a run whose caller waits is not completed. -/
def Authority.classifyTerminalize (a : Authority J) (status : RunStatus) : ResultCode :=
  -- Only a completion waits for its caller. A failure may end the run unanswered.
  if a.code ≠ .ready then a.code
  else if status = .completed && a.run.elim false (·.unreleasedAttached) then .callerUnreleased
  else .ready

def Run.withTerminal (r : Run J) (t : Terminalization) (result : J) : Run J :=
  { r with
    status := t.status
    terminalReason := some t.terminalReason
    resultJson := some result
    failType := t.failType
    updatedAt := t.instant }

/-- `terminalize_sql`: store the first terminal result and remove the queue row. -/
def terminalize (pg : Postgres J) (f : Fence) (t : Terminalization) (p : Plane J) :
    Except DbError ((ResultCode × Option RunStatus) × Plane J) :=
  let a := p.authority f
  match a.classifyTerminalize t.status, a.run with
  | .ready, some r => do
    let result ← pg.bind t.result
    let p' ← p.updateRun pg f.targetRunId (r.withTerminal t result)
    pure ((.terminalized, some t.status), p'.dequeue f.targetRunId)
  | code, run => pure ((code, run.map (·.status)), p)

lemma Authority.classifyTerminalize_ready {status : RunStatus}
    (h : a.classifyTerminalize status = .ready) :
    a.code = .ready ∧ (status = .completed → a.run.elim false (·.unreleasedAttached) = false) := by
  unfold Authority.classifyTerminalize at h
  split at h
  · exact absurd h ‹_›
  · split at h
    · cases h
    · simp_all

lemma terminalize_of_ne_ready (h : (p.authority f).classifyTerminalize t.status ≠ .ready) :
    terminalize pg f t p = .ok (((p.authority f).classifyTerminalize t.status,
      (p.authority f).run.map (·.status)), p) := by
  dsimp only [terminalize]
  split
  · exact absurd ‹_› h
  · rfl

/-- A committed terminalization writes nothing and answers about the rows, or the holder ended the
run and removed its queue row. -/
theorem terminalize_eq_ok {p' : Plane J} {answer : ResultCode × Option RunStatus}
    (h : terminalize pg f t p = .ok (answer, p')) :
    ((p.authority f).classifyTerminalize t.status ≠ .ready ∧ p' = p ∧
        answer = ((p.authority f).classifyTerminalize t.status,
          (p.authority f).run.map (·.status))) ∨
      ∃ r q result, p.run f.targetRunId = some r ∧ p.entry f.targetRunId = some q ∧ f.Ready r q ∧
        (t.status = .completed → r.unreleasedAttached = false) ∧
        p' = (p.putRun f.targetRunId (r.withTerminal t result)).dequeue f.targetRunId := by
  by_cases hready : (p.authority f).classifyTerminalize t.status = .ready
  · right
    -- The holder of a run that may take the status: the run ends and leaves the queue.
    obtain ⟨hcode, hattached⟩ := Authority.classifyTerminalize_ready hready
    obtain ⟨r, q, hr, hq, hfence, hrun⟩ := Plane.authority_ready hcode
    simp only [terminalize, hready, hrun] at h
    obtain ⟨result, -, h⟩ := bind_eq_ok.1 h
    replace h := Plane.updateRun_bind_eq_ok h
    obtain ⟨rfl, rfl⟩ := done_eq_ok.1 h
    exact ⟨r, q, result, hr, hq, hfence, by simpa [hrun] using hattached, rfl⟩
  · left
    rw [terminalize_of_ne_ready hready] at h
    obtain ⟨rfl, rfl⟩ := done_eq_ok.1 h
    exact ⟨hready, rfl, rfl⟩

/-! ## Reporting deadline changes -/

/-- The run with the deadline changes a report writes. -/
def Run.withDeadlineAdjustments (r : Run J) (json : J) : Run J :=
  { r with deadlineAdjustmentsJson := some json }

/-- `record_deadline_adjustments_sql`: store deadline changes, if the fence holds. -/
def recordDeadlineAdjustments (pg : Postgres J) (f : Fence) (adjustments : Value) (p : Plane J) :
    Except DbError (Bool × Plane J) :=
  let a := p.authority f
  match a.code, a.run with
  | .ready, some r => do
    let json ← pg.bind adjustments
    let p' ← p.updateRun pg f.targetRunId (r.withDeadlineAdjustments json)
    pure (true, p')
  | _, _ => pure (false, p)

lemma recordDeadlineAdjustments_of_ne_ready {adjustments : Value}
    (h : (p.authority f).code ≠ .ready) :
    recordDeadlineAdjustments pg f adjustments p = .ok (false, p) := by
  dsimp only [recordDeadlineAdjustments]
  split
  · exact absurd ‹_› h
  · rfl

lemma recordDeadlineAdjustments_eq_ok {adjustments : Value} {p' : Plane J} {written : Bool}
    (h : recordDeadlineAdjustments pg f adjustments p = .ok (written, p')) : p' = p ∨
      ∃ r q json, p.run f.targetRunId = some r ∧ p.entry f.targetRunId = some q ∧ f.Ready r q ∧
        p' = p.putRun f.targetRunId (r.withDeadlineAdjustments json) := by
  by_cases hready : (p.authority f).code = .ready
  · right
    obtain ⟨r, q, hr, hq, hfence, hrun⟩ := Plane.authority_ready hready
    simp only [recordDeadlineAdjustments, hready, hrun] at h
    obtain ⟨json, -, h⟩ := bind_eq_ok.1 h
    replace h := Plane.updateRun_bind_eq_ok h
    obtain ⟨rfl, rfl⟩ := done_eq_ok.1 h
    exact ⟨r, q, json, hr, hq, hfence, rfl⟩
  · left
    rw [recordDeadlineAdjustments_of_ne_ready hready] at h
    obtain ⟨rfl, rfl⟩ := done_eq_ok.1 h
    rfl

end Wamn.RunState
