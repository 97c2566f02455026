import Wamn.Runtime.ProductionClaim

/-!
# What the queue transactions write

One lemma per transaction takes a committed turn apart: the plane is the one it started from, or
exactly the rows of one run changed, from what to what.
-/

namespace Wamn.Runtime

open Option Lib Lib.Json RunState

variable {J : Type} {pg : Postgres J} {session : Session} {turn : Turn} {p p' : Plane J}

/-! ## Peeling a transaction -/

lemma queryOne_eq_ok {α : Type} {operation : String} {x : Except DbError (Option α × Plane J)}
    {row : α} (h : queryOne operation x = .ok (row, p')) : x = .ok (some row, p') := by
  obtain ⟨answer, hx, h⟩ := bind_eq_ok.1 h
  have hx := mapError_eq_ok.1 hx
  split at h
  · obtain ⟨rfl, rfl⟩ := done_eq_ok.1 h
    exact hx
  · cases h

/-! ## The claim -/

/-- The run a claim goes on with: an abandoned attempt's state is cleared. -/
def reclaimed (r : Run J) (q : QueueRow) : Run J :=
  if q.leaseExpiresAt.isSome then r.withoutState else r

variable {r : Run J} {q : QueueRow} {s : Queued J} {selected : SelectedClaim}
  {w : ProductionWorkflow} {ttlMs generation : ℤ} {outcome : ClaimTurn} {scope : Scope}
  {runId : RunId} {instant : Instant} {answer : ProductionCompletionResult}
  {caller : Option ProductionCallerOutcome}

lemma reclaimed_rec {P : Run J → Prop} (hkept : P r) (hcleared : P r.withoutState) :
    P (reclaimed r q) := by
  unfold reclaimed
  split
  · exact hcleared
  · exact hkept

/-- The decoded claim keeps id, lease evidence, status, caller and workflow execution of the run. -/
theorem decodeSelectedClaim_eq_ok (h : decodeSelectedClaim pg s = .ok selected) :
    selected.runId = s.runId ∧ selected.hadPriorLease = s.entry.leaseExpiresAt.isSome ∧
      selected.status = s.run.status ∧
      selected.durableCallerAttached = s.run.durableCallerAttached ∧
      decodeExecution pg s = .ok selected.workflow := by
  unfold decodeSelectedClaim at h
  obtain ⟨payload, -, h⟩ := bind_eq_ok.1 h
  obtain ⟨wiring, -, h⟩ := bind_eq_ok.1 h
  obtain ⟨candidate, -, h⟩ := bind_eq_ok.1 h
  obtain ⟨-, -, h⟩ := bind_eq_ok.1 h
  obtain ⟨workflow, hexecution, h⟩ := bind_eq_ok.1 h
  obtain ⟨-, -, h⟩ := bind_eq_ok.1 h
  obtain rfl := pure_eq_ok.1 h
  exact ⟨rfl, rfl, rfl, rfl, hexecution⟩

lemma decodeWorkflow_detached (h : decodeWorkflow pg r = .ok (some w)) :
    r.durableCallerAttached = false := by
  unfold decodeWorkflow at h
  split at h
  · cases h
  · rename_i htrigger _ _ _ _
    -- The columns were found under a workflow trigger, and none of those has a caller.
    unfold Run.durableCallerAttached
    cases hsource : r.triggerSource with
    | none => rfl
    | some source =>
      rw [hsource] at htrigger
      cases source <;> first | rfl | cases htrigger
  · cases h

/-- A claim that carries a workflow decoded it from its run row, and its causation with it. -/
theorem decodeSelectedClaim_workflow (h : decodeSelectedClaim pg s = .ok selected)
    (hworkflow : selected.workflow = some w) :
    (∃ stored, decodeWorkflow pg s.run = .ok (some stored)) ∧
      decodeCausation s.runId s.run = .ok w.causation := by
  obtain ⟨-, -, -, -, hexecution⟩ := decodeSelectedClaim_eq_ok h
  rw [hworkflow] at hexecution
  obtain ⟨decoded, hdecoded, hexecution⟩ := bind_eq_ok.1 hexecution
  cases decoded with
  | none => cases hexecution
  | some stored =>
    obtain ⟨causation, hcausation, hexecution⟩ := bind_eq_ok.1 hexecution
    obtain rfl := Option.some.inj (pure_eq_ok.1 hexecution)
    exact ⟨⟨stored, hdecoded⟩, hcausation⟩

lemma detached_of_workflow (h : decodeSelectedClaim pg s = .ok selected)
    (hworkflow : selected.workflow.isSome = true) : s.run.durableCallerAttached = false := by
  obtain ⟨w, hw⟩ := isSome_iff_exists.1 hworkflow
  obtain ⟨⟨stored, hstored⟩, -⟩ := decodeSelectedClaim_workflow h hw
  exact decodeWorkflow_detached hstored

lemma clearAbandoned_eq_ok (hr : p.run s.runId = some s.run) (hq : p.entry s.runId = some s.entry)
    (hid : selected.runId = s.runId)
    (hlease : selected.hadPriorLease = s.entry.leaseExpiresAt.isSome)
    (h : clearAbandoned pg selected p = .ok p') :
    p.Rewrites p' s.runId (some (reclaimed s.run s.entry)) (some s.entry) := by
  unfold clearAbandoned at h
  split at h
  · rename_i hprior
    obtain ⟨⟨cleared, written⟩, hclear, h⟩ := bind_eq_ok.1 h
    rw [hid] at hclear
    obtain rfl := clearPreEffectState_eq_ok hr (queryOne_eq_ok hclear)
    obtain rfl := pure_eq_ok.1 h
    rw [reclaimed, if_pos (hlease ▸ hprior), ← hq]
    exact p.rewrites_putRun s.runId s.run.withoutState
  · rename_i hprior
    obtain rfl := pure_eq_ok.1 h
    rw [reclaimed, if_neg (hlease ▸ hprior), ← hq, ← hr]
    exact p.rewrites_self s.runId

/-- A refused grant leaves the plane as it was, a successful one leases the queue row one generation
up and marks the run running. -/
theorem grantInSavepoint_eq_ok (hr : p.run selected.runId = some r)
    (hq : p.entry selected.runId = some q)
    (h : grantInSavepoint pg session ttlMs turn selected p = .ok (outcome, p')) :
    ((∃ e, outcome = .grantRefused e) ∧ p' = p) ∨
      (outcome = .ready ⟨selected, q.leaseGeneration + 1⟩ ∧
        p' = (p.putEntry selected.runId
          (q.leased session.runner (turn.statementTimestamp + millis ttlMs))).putRun
            selected.runId r.markedRunning) := by
  unfold grantInSavepoint at h
  split at h
  · obtain ⟨rfl, rfl⟩ := done_eq_ok.1 h
    exact .inl ⟨⟨_, rfl⟩, rfl⟩
  · cases h
  · rename_i generation written hgrant
    obtain ⟨rfl, rfl⟩ := done_eq_ok.1 h
    -- A grant that answered was not refused by the surroundings.
    cases hrefusal : turn.grantRefusal with
    | some refusal =>
      simp only [attemptGrant, hrefusal] at hgrant
      cases hgrant
    | none =>
      simp only [attemptGrant, hrefusal] at hgrant
      obtain ⟨rfl, rfl⟩ := grantProductionClaim_eq_ok hr hq hgrant
      exact .inr ⟨rfl, rfl⟩

/-- A claim turn did nothing, or it locked an eligible queued run, counted its prior lease, and was
refused the grant or leased the row one generation up. -/
theorem claimNext_eq_ok (h : claimNext pg session scope ttlMs turn p = .ok (outcome, p')) :
    (outcome = .empty ∧ p' = p) ∨
      ∃ s selected, p.run s.runId = some s.run ∧ p.entry s.runId = some s.entry ∧
        claimEligible scope session.release turn.now s.run s.entry = true ∧
        s.run.status.isTerminal = false ∧ decodeSelectedClaim pg s = .ok selected ∧
        (((∃ e, outcome = .grantRefused e) ∧
            p.Rewrites p' s.runId (some (reclaimed s.run s.entry)) (some s.entry.advanced)) ∨
          (outcome = .ready ⟨selected, s.entry.leaseGeneration + 1⟩ ∧
            p.Rewrites p' s.runId (some (reclaimed s.run s.entry).markedRunning)
              (some (s.entry.advanced.leased session.runner
                (turn.statementTimestamp + millis ttlMs))))) := by
  obtain ⟨-, -, h⟩ := bind_eq_ok.1 h
  obtain ⟨-, -, h⟩ := bind_eq_ok.1 h
  split at h
  · obtain ⟨rfl, rfl⟩ := done_eq_ok.1 h
    exact .inl ⟨rfl, rfl⟩
  · rename_i s hlock
    -- From here on all writes are to the rows of the locked head.
    obtain ⟨hr, hq, heligible⟩ := Plane.lockFirst_eq_some hlock
    obtain ⟨selected, hdecode, h⟩ := bind_eq_ok.1 h
    obtain ⟨hid, hlease, hstatus, -⟩ := decodeSelectedClaim_eq_ok hdecode
    obtain ⟨_, hrunnable, h⟩ := bind_eq_ok.1 h
    have hrunnable : s.run.status.isTerminal = false := by
      simpa [hstatus] using ensure_eq_ok.1 hrunnable
    obtain ⟨p₁, hclear, h⟩ := bind_eq_ok.1 h
    have hcleared := clearAbandoned_eq_ok hr hq hid hlease hclear
    obtain ⟨⟨attempts, p₂⟩, hadvance, h⟩ := bind_eq_ok.1 h
    have hq₁ : p₁.entry selected.runId = some s.entry := hid ▸ hcleared.entry_self
    have hr₁ : p₁.run selected.runId = some (reclaimed s.run s.entry) := hid ▸ hcleared.run_self
    obtain rfl := advanceClaimAttempts_eq_ok hq₁ (queryOne_eq_ok hadvance)
    refine .inr ⟨s, selected, hr, hq, heligible, hrunnable, hdecode, ?_⟩
    have hgrant := grantInSavepoint_eq_ok (r := reclaimed s.run s.entry) (q := s.entry.advanced)
      (by simpa using hr₁) (by simp) h
    -- The count is written before the savepoint, so that a refused grant leaves it.
    rw [hid] at hgrant hr₁
    have hcounted := hcleared.trans (p₁.rewrites_putEntry s.runId s.entry.advanced)
    rw [hr₁] at hcounted
    rcases hgrant with ⟨hrefused, rfl⟩ | ⟨hready, rfl⟩
    · exact .inl ⟨hrefused, hcounted⟩
    · have hleased := hcounted.trans (Plane.rewrites_putEntry _ s.runId
        (s.entry.advanced.leased session.runner (turn.statementTimestamp + millis ttlMs)))
      refine .inr ⟨hready, ?_⟩
      simpa using hleased.trans (Plane.rewrites_putRun _ s.runId _)

/-! ## Renewal and deadline reports -/

lemma renew_eq_ok {answer : ProductionLeaseRenewal}
    (h : renew session runId generation ttlMs turn p = .ok (answer, p')) :
    p' = p ∨ ∃ q expiresAt, p.entry runId = some q ∧
      q.liveUnder session.runner generation turn.statementTimestamp = true ∧
      p' = p.putEntry runId (q.renewed expiresAt) := by
  obtain ⟨-, -, h⟩ := bind_eq_ok.1 h
  obtain ⟨-, -, h⟩ := bind_eq_ok.1 h
  obtain rfl := congrArg Prod.snd (pure_eq_ok.1 h)
  rcases renewProductionLease_cases runId session.runner generation ttlMs
    turn.statementTimestamp p with hsame | ⟨q, hq, hlive, hwritten⟩
  · exact .inl hsame
  · exact .inr ⟨q, _, hq, hlive, hwritten⟩

lemma reportDeadlines_eq_ok {adjustments : Value} {written : Bool}
    (h : reportDeadlines pg session runId generation adjustments p = .ok (written, p')) :
    p' = p ∨ ∃ r q json, p.run runId = some r ∧ p.entry runId = some q ∧
      (session.fence runId generation).Ready r q ∧
      p' = p.putRun runId (r.withDeadlineAdjustments json) := by
  obtain ⟨-, -, h⟩ := bind_eq_ok.1 h
  obtain ⟨-, -, h⟩ := bind_eq_ok.1 h
  exact recordDeadlineAdjustments_eq_ok (mapError_eq_ok.1 h)

/-! ## Completion -/

/-- The stored outcome has the same type, body, HTTP status, node and hash. -/
structure ProductionCallerOutcome.Agrees (pg : Postgres J) (caller : ProductionCallerOutcome)
    (r : Run J) : Prop where
  type : r.callerOutcomeType = some caller.outcomeType
  body : ∃ json, r.callerOutcomeJson = some json ∧ pg.toValue json = .ok caller.body
  httpStatus : r.callerHttpStatus = some (caller.httpStatus.toNat : ℤ)
  releaseNodeId : r.callerReleaseNodeId = caller.releaseNodeId
  hash : r.callerOutcomeHash = some (pg.canonicalJsonSha256 caller.body)

lemma decodeCallerRelease_code {row : CallerReleaseRow J} {result : CallerReleaseResult}
    (h : decodeCallerRelease pg row = .ok result) : result.code = row.code := by
  obtain ⟨body, -, h⟩ := bind_eq_ok.1 h
  obtain ⟨status, -, h⟩ := bind_eq_ok.1 h
  split at h
  · rename_i decoded hparts
    obtain rfl := pure_eq_ok.1 h
    exact CallerReleaseResult.code_of_fromParts hparts
  · cases h

lemma decodeHttpStatus_eq_ok {column : Option ℤ} {status : UInt16}
    (h : decodeHttpStatus column = .ok (some status)) : column = some (status.toNat : ℤ) := by
  cases column with
  | none => cases h
  | some n =>
    simp only [decodeHttpStatus] at h
    split at h
    · rename_i hbounds
      obtain rfl := Option.some.inj (pure_eq_ok.1 h)
      -- The bound checked on decoding is the one of the host type.
      rw [UInt16.toNat_ofNat_of_lt' (by unfold UInt16.size; omega)]
      simp [hbounds.1]
    · cases h

/-- A stored outcome that matches exactly agrees column by column. -/
theorem agrees_of_isStored {caller : ProductionCallerOutcome} {stored : StoredCallerOutcome}
    (hdecode : decodeCallerRelease pg (.ofRun .alreadyReleased (some r)) =
      .ok (.alreadyReleased stored)) (hmatch : caller.isStored pg stored = true) :
    caller.Agrees pg r := by
  obtain ⟨body, hbody, h⟩ := bind_eq_ok.1 hdecode
  obtain ⟨status, hstatus, h⟩ := bind_eq_ok.1 h
  simp only [CallerReleaseRow.ofRun, bind_some, map_some,
    CallerReleaseResult.fromParts] at hbody hstatus h
  -- A row without a kind or a body decodes into no stored outcome.
  cases hkind : r.callerOutcomeType with
  | none => simp [hkind] at h
  | some kind =>
    cases body with
    | none => simp [hkind] at h
    | some body =>
      simp only [hkind, bind_eq_bind, bind_some] at h
      obtain rfl := CallerReleaseResult.alreadyReleased.inj (pure_eq_ok.1 h)
      simp only [ProductionCallerOutcome.isStored, StoredCallerOutcome.exactlyMatches,
        Bool.and_eq_true, decide_eq_true_eq] at hmatch
      obtain ⟨⟨⟨⟨htype, rfl⟩, rfl⟩, hnode⟩, hhash⟩ := hmatch
      cases hjson : r.callerOutcomeJson with
      | none => rw [hjson] at hbody; cases hbody
      | some json =>
        rw [hjson] at hbody
        obtain ⟨value, hvalue, hbody⟩ := bind_eq_ok.1 hbody
        obtain rfl := Option.some.inj (pure_eq_ok.1 hbody)
        exact ⟨by rw [hkind, htype], ⟨json, hjson, mapError_eq_ok.1 hvalue⟩,
          decodeHttpStatus_eq_ok hstatus, hnode, hhash⟩

/-- The caller release of a completion ended it without the fence, met the same outcome, or stored
the first one. -/
theorem releaseForCompletion_eq_ok {f : Fence} {caller : ProductionCallerOutcome}
    {answer : Option ProductionCompletionResult}
    (h : releaseForCompletion pg f caller instant p = .ok (answer, p')) :
    (answer.isSome = true ∧ p' = p ∧ (p.authority f).code ≠ .ready) ∨
      (answer = none ∧ p' = p ∧ ∃ r, p.run f.targetRunId = some r ∧
        r.callerReleasedAt.isSome = true ∧ caller.Agrees pg r) ∨
      (answer = none ∧ ∃ r q body, p.run f.targetRunId = some r ∧
        p.entry f.targetRunId = some q ∧ f.Ready r q ∧ r.callerReleasedAt = none ∧
        p' = p.putRun f.targetRunId (r.withCaller (caller.release pg instant) body)) := by
  obtain ⟨⟨row, written⟩, hrelease, h⟩ := bind_eq_ok.1 h
  obtain ⟨result, hdecode, h⟩ := bind_eq_ok.1 h
  have hcode := decodeCallerRelease_code hdecode
  rcases releaseCaller_eq_ok (mapError_eq_ok.1 hrelease) with
    ⟨hready, hsame, rfl⟩ | ⟨r, q, body, hr, hq, hfence, hunreleased, rfl, hreleased⟩
  · change result.code = (p.authority f).classifyRelease at hcode
    cases result with
    | released => exact absurd hcode.symm (p.classifyRelease_ne_released f)
    | alreadyReleased stored =>
      -- The stored outcome is the one the row was read from, so the match is about the run.
      obtain ⟨r, hr, hrun, hstored⟩ := Plane.classifyRelease_alreadyReleased hcode.symm
      rw [← hcode, hrun] at hdecode
      dsimp only at h
      split at h
      · rename_i hmatch
        obtain ⟨rfl, rfl⟩ := done_eq_ok.1 h
        exact .inr (.inl ⟨rfl, hsame, r, hr, hstored, agrees_of_isStored hdecode hmatch⟩)
      · cases h
    | crossRunAuthority => cases h
    | runTerminal _ | fenceLost | notFound =>
      -- The three answers that end the transaction are given only without the fence.
      obtain ⟨rfl, rfl⟩ := done_eq_ok.1 h
      refine .inl ⟨rfl, hsame, Authority.code_ne_ready_of_classifyRelease hready ?_⟩
      rw [← hcode]
      simp [CallerReleaseResult.code]
  · rw [hreleased] at hcode
    cases result with
    | released =>
      obtain ⟨rfl, rfl⟩ := done_eq_ok.1 h
      exact .inr (.inr ⟨rfl, r, q, body, hr, hq, hfence, hunreleased, rfl⟩)
    | _ => cases hcode

/-- The terminalization of a completion writes nothing only when it is not classified ready. -/
theorem terminalizeForCompletion_eq_ok {f : Fence} {t : Terminalization}
    (h : terminalizeForCompletion pg f t p = .ok (answer, p')) :
    ((p.authority f).classifyTerminalize t.status ≠ .ready ∧
        (p.authority f).classifyTerminalize t.status ≠ .callerUnreleased ∧ p' = p) ∨
      ∃ r q result, p.run f.targetRunId = some r ∧ p.entry f.targetRunId = some q ∧ f.Ready r q ∧
        (t.status = .completed → r.unreleasedAttached = false) ∧
        p' = (p.putRun f.targetRunId (r.withTerminal t result)).dequeue f.targetRunId := by
  obtain ⟨⟨code, written⟩, hterminalize, h⟩ := bind_eq_ok.1 h
  obtain ⟨result, hdecode, h⟩ := bind_eq_ok.1 h
  -- Every answer that commits hands on the plane of the statement.
  have hwritten : written = p' := by
    cases result with
    | callerUnreleased | crossRunAuthority => cases h
    | _ => exact congrArg Prod.snd (pure_eq_ok.1 h)
  subst hwritten
  rcases terminalize_eq_ok (mapError_eq_ok.1 hterminalize) with ⟨hready, hsame, rfl⟩ | hwrote
  · refine .inl ⟨hready, ?_, hsame⟩
    intro hcode
    rw [hcode] at hdecode
    obtain rfl := pure_eq_ok.1 hdecode
    cases h
  · exact .inr hwrote

/-- The caller columns before the end: untouched without an outcome or with one that agrees, else
written. -/
inductive CallerSettled (pg : Postgres J) (instant : Instant) :
    Option ProductionCallerOutcome → Run J → Run J → Prop where
  | absent (r : Run J) : CallerSettled pg instant none r r
  | stored (caller : ProductionCallerOutcome) (r : Run J)
      (released : r.callerReleasedAt.isSome = true) (agrees : caller.Agrees pg r) :
      CallerSettled pg instant (some caller) r r
  | released (caller : ProductionCallerOutcome) (r : Run J) (body : J)
      (unreleased : r.callerReleasedAt = none) :
      CallerSettled pg instant (some caller) r (r.withCaller (caller.release pg instant) body)

section

variable {settled : Run J} (h : CallerSettled pg instant caller r settled)

include h

lemma CallerSettled.eq_of_stored (hstored : r.callerReleasedAt.isSome = true) : settled = r := by
  cases h with
  | absent | stored => rfl
  | released _ _ _ unreleased => simp [unreleased] at hstored

lemma CallerSettled.durableCallerAttached :
    settled.durableCallerAttached = r.durableCallerAttached := by
  cases h <;> rfl

lemma CallerSettled.released_of_isSome (hsome : caller.isSome = true) :
    settled.callerReleasedAt.isSome = true := by
  cases h with
  | absent => cases hsome
  | stored _ _ released => exact released
  | released => rfl

end

/-- A completion did nothing, or the holder settled the caller, ended the run and removed its queue
row in one transaction. -/
theorem complete_eq_ok {completion : ProductionCompletion}
    (h : complete pg session runId generation completion turn p = .ok (answer, p')) :
    p' = p ∨ ∃ r q settled result, p.run runId = some r ∧ p.entry runId = some q ∧
      (session.fence runId generation).Ready r q ∧
      CallerSettled pg turn.hostTime completion.caller r settled ∧
      ((completion.terminalization turn.hostTime).status = .completed →
        settled.unreleasedAttached = false) ∧
      p.Rewrites p' runId
        (some (settled.withTerminal (completion.terminalization turn.hostTime) result)) none := by
  obtain ⟨-, -, h⟩ := bind_eq_ok.1 h
  obtain ⟨-, -, h⟩ := bind_eq_ok.1 h
  cases hcaller : completion.caller with
  | none =>
    simp only [hcaller] at h
    rcases terminalizeForCompletion_eq_ok h with
      ⟨-, -, hsame⟩ | ⟨r, q, result, hr, hq, hready, hattached, rfl⟩
    · exact .inl hsame
    · exact .inr ⟨r, q, r, result, hr, hq, hready, .absent r, hattached,
        p.rewrites_dequeue runId _⟩
  | some caller =>
    simp only [hcaller] at h
    obtain ⟨⟨early, p₁⟩, hrelease, hrest⟩ := bind_eq_ok.1 h
    rcases releaseForCompletion_eq_ok hrelease with
      ⟨hearly, hsame, -⟩ | ⟨rfl, hsame, stored, hstored, hreleased, hagrees⟩ |
      ⟨rfl, r, q, body, hr, hq, hready, hunreleased, rfl⟩
    · -- The release ended the transaction before the terminalization.
      obtain ⟨early, rfl⟩ := isSome_iff_exists.1 hearly
      obtain ⟨-, rfl⟩ := done_eq_ok.1 hrest
      exact .inl hsame
    · -- A repeated completion: the release wrote nothing, and the run ends over its own outcome.
      subst hsame
      rcases terminalizeForCompletion_eq_ok hrest with
        ⟨-, -, hsame⟩ | ⟨r, q, result, hr, hq, hready, hattached, rfl⟩
      · exact .inl hsame
      · obtain rfl : stored = r := mem_unique hstored hr
        exact .inr ⟨stored, q, stored, result, hr, hq, hready, .stored caller stored hreleased
          hagrees, hattached, Plane.rewrites_dequeue _ runId _⟩
    · -- The fence that admitted the release also admits the terminalization behind it.
      set written := r.withCaller (caller.release pg turn.hostTime) body with hwritten
      have hauthority : (p.putRun runId written).authority (session.fence runId generation) =
          ⟨.ready, some written⟩ :=
        Plane.authority_of_ready rfl (by simp [Session.fence]) (by simpa using hq) hready
      rcases terminalizeForCompletion_eq_ok hrest with
        ⟨hnotReady, hattached, -⟩ | ⟨r', q', result, hr', hq', -, hattached, rfl⟩
      · change ((p.putRun runId written).authority (session.fence runId generation)
          ).classifyTerminalize _ ≠ .ready at hnotReady
        rw [hauthority] at hnotReady
        simp [Authority.classifyTerminalize, hwritten, Run.withCaller,
          Run.unreleasedAttached] at hnotReady
      · obtain rfl : r' = written := by simpa [Session.fence, eq_comm] using hr'
        exact .inr ⟨r, q, written, result, hr, hq, hready, .released caller r body hunreleased,
          hattached, (p.rewrites_putRun runId written).trans (Plane.rewrites_dequeue _ runId _)⟩

/-! ## Claim release and janitor -/

/-- A claim release did nothing, or the holder of the live lease gave it back, and at the attempt
limit the run was failed and dequeued with it. -/
theorem releaseClaim_eq_ok {answer : Bool}
    (h : releaseClaim pg session runId generation turn p = .ok (answer, p')) :
    p' = p ∨ ∃ r q, p.run runId = some r ∧ p.entry runId = some q ∧
      r.status.isTerminal = false ∧
      q.liveUnder session.runner generation turn.statementTimestamp = true ∧
      ((q.attempts + 1 < q.maxAttempts ∧ ∃ availableAt,
          p.Rewrites p' runId (some r) (some (q.returned availableAt))) ∨
        (q.maxAttempts ≤ q.attempts + 1 ∧ ∃ json hash,
          p.Rewrites p' runId
            (some (r.withExhaustion .retryExhausted json hash turn.hostTime)) none)) := by
  obtain ⟨-, -, h⟩ := bind_eq_ok.1 h
  obtain ⟨-, -, h⟩ := bind_eq_ok.1 h
  obtain ⟨⟨row, p₁⟩, hrelease, h⟩ := bind_eq_ok.1 h
  rcases releaseProductionClaim_eq_ok (mapError_eq_ok.1 hrelease) with
    ⟨rfl, hsame⟩ | ⟨q, r, hq, hr, hrunnable, hlive, rfl, rfl⟩
  · obtain ⟨-, rfl⟩ := done_eq_ok.1 h
    exact .inl hsame
  · have hrunnable : r.status.isTerminal = false := by simpa [Run.runnable] using hrunnable
    refine .inr ⟨r, q, hr, hq, hrunnable, hlive, ?_⟩
    dsimp only at h
    split at h
    · rename_i hspent
      obtain ⟨wiringId, -, h⟩ := bind_eq_ok.1 h
      obtain ⟨wiringVersion, -, h⟩ := bind_eq_ok.1 h
      obtain ⟨⟨status, p₂⟩, hterminalize, h⟩ := bind_eq_ok.1 h
      obtain ⟨-, rfl⟩ := done_eq_ok.1 h
      obtain ⟨-, -, json, rfl⟩ := terminalizeExhausted_eq_ok (by simpa using hr)
        (queryOne_eq_ok hterminalize)
      exact .inr ⟨by simpa using hspent, json, _,
        (p.rewrites_putEntry runId _).trans (Plane.rewrites_dequeue _ runId _)⟩
    · rename_i hspent
      obtain ⟨-, rfl⟩ := done_eq_ok.1 h
      rw [← hr]
      exact .inl ⟨by simpa using hspent, _, p.rewrites_putEntry runId _⟩

/-- A janitor turn did nothing, or it ended one eligible queued run and removed its queue row. -/
theorem reapExhausted_eq_ok {graceMs : ℤ} {answer : ProductionReapResult}
    (h : reapExhausted pg session scope graceMs turn p = .ok (answer, p')) :
    p' = p ∨ ∃ id r q json hash, p.run id = some r ∧ p.entry id = some q ∧
      exhaustedEligible scope graceMs turn.now r q = true ∧
      p.Rewrites p' id
        (some (r.withExhaustion .infrastructureFailure json hash turn.hostTime)) none := by
  obtain ⟨-, -, h⟩ := bind_eq_ok.1 h
  obtain ⟨-, -, h⟩ := bind_eq_ok.1 h
  split at h
  · obtain ⟨-, rfl⟩ := done_eq_ok.1 h
    exact .inl rfl
  · rename_i s hlock
    obtain ⟨hr, hq, heligible⟩ := Plane.lockFirst_eq_some hlock
    obtain ⟨identity, -, h⟩ := bind_eq_ok.1 h
    obtain ⟨-, -, h⟩ := bind_eq_ok.1 h
    obtain ⟨⟨status, p₁⟩, hterminalize, h⟩ := bind_eq_ok.1 h
    cases status with
    | none => cases h
    | some status =>
      dsimp only at h
      split at h
      · cases h
      · obtain ⟨-, rfl⟩ := done_eq_ok.1 h
        obtain ⟨-, -, json, rfl⟩ := terminalizeExhausted_eq_ok hr (mapError_eq_ok.1 hterminalize)
        exact .inr ⟨s.runId, s.run, s.entry, json, _, hr, hq, heligible,
          p.rewrites_dequeue s.runId _⟩

end Wamn.Runtime
