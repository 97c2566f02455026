import Mathlib.Data.Finset.Insert
import Wamn.Lib.Selection
import Wamn.RunState.Queue

/-!
# The decision view of the queue

A model of the queue without a database: a row is ready, leased, parked or exhausted at an instant,
a claim takes the ready rows in the order of the queue up to a limit, and a checker looks for
violated invariants. The select also looks at tenant, package, environment and pinned release, so a
plan takes what repeated selects lock once the candidates are the rows that a host serves. Instants
are milliseconds; no sum is assumed to overflow.
-/

namespace Wamn.RunState

open List Lib

/-! ## Claims -/

/-- A row of the queue as the decisions see it. -/
structure QueueEntry where
  envKey : String
  runId : String
  availableAt : ℤ
  streamSeq : ℤ
  leaseExpiresAt : Option ℤ
  attempts : ℤ
  maxAttempts : ℤ
  deriving DecidableEq

inductive ClaimState where
  | ready
  | leased
  | parked
  | exhausted
  deriving DecidableEq

def leaseLive (now : ℤ) (leaseExpiresAt : Option ℤ) : Bool := leaseExpiresAt.any (now < ·)

def claimState (entry : QueueEntry) (now : ℤ) : ClaimState :=
  if now < entry.availableAt then .parked
  else if entry.leaseExpiresAt.any (now < ·) then .leased
  -- A lease that ran out is evidence of a crash; a row without one was parked on purpose.
  else if entry.leaseExpiresAt.isSome && entry.maxAttempts ≤ entry.attempts then .exhausted
  else .ready

def isClaimable (entry : QueueEntry) (now : ℤ) : Bool := claimState entry now = .ready

structure Claimed where
  envKey : String
  runId : String
  attempts : ℤ
  leaseExpiresAt : ℤ
  deriving DecidableEq

structure ClaimPlan where
  claimed : List Claimed
  deriving DecidableEq

namespace QueueEntry

def position (entry : QueueEntry) : ℤ ×ₗ ℤ ×ₗ String :=
  toLex (entry.availableAt, toLex (entry.streamSeq, entry.runId))

/-- The claim of a row. Only a lease that ran out counts as an attempt. -/
def claimed (now leaseTtl : ℤ) (entry : QueueEntry) : Claimed where
  envKey := entry.envKey
  runId := entry.runId
  attempts := entry.attempts + if entry.leaseExpiresAt.isSome then 1 else 0
  leaseExpiresAt := now + leaseTtl

end QueueEntry

def planned (candidates : List QueueEntry) (now : ℤ) (limit : ℕ) : List QueueEntry :=
  (sortOn QueueEntry.position (candidates.filter (isClaimable · now))).take limit

def planClaim (candidates : List QueueEntry) (now : ℤ) (limit : ℕ) (leaseTtl : ℤ) : ClaimPlan :=
  ⟨(planned candidates now limit).map (QueueEntry.claimed now leaseTtl)⟩

/-! ## The checker -/

inductive JanitorVerdict where
  | live
  | reclaimable
  | orphaned
  deriving DecidableEq

def janitorVerdict (entry : QueueEntry) (now grace : ℤ) : JanitorVerdict :=
  match entry.leaseExpiresAt with
  | some t =>
    if now < t then .live
    else if t + grace ≤ now ∧ entry.maxAttempts ≤ entry.attempts then .orphaned
    else .reclaimable
  | none => .reclaimable

/-- An invariant that did not hold, and what was observed instead. -/
structure Violation where
  invariant : String
  detail : String
  deriving DecidableEq

structure QueueState where
  rows : List QueueEntry
  plan : Option ClaimPlan
  limit : ℕ
  grace : ℤ
  now : ℤ

def debugInstant : Option ℤ → String
  | some t => "Some(" ++ toString t ++ ")"
  | none => "None"

section Checker

-- `debug` is the quoted form of a text in a message.
variable (debug : String → String) (state : QueueState)

def liveLeases : Except Violation (Finset String) :=
  state.rows.foldlM (fun leased row =>
    if leaseLive state.now row.leaseExpiresAt then
      if row.runId ∈ leased then
        throw ⟨"RUN-2", "run " ++ debug row.runId ++ " carries two live leases at " ++
          toString state.now⟩
      else pure (insert row.runId leased)
    else pure leased) ∅

/-- A claim of a run that is neither claimed before nor leased. -/
def claimOnce (leased claimed : Finset String) (claim : Claimed) :
    Except Violation (Finset String) :=
  if claim.runId ∈ claimed then
    throw ⟨"RUN-2", "run " ++ debug claim.runId ++ " was claimed twice by one plan"⟩
  else if claim.runId ∈ leased then
    throw ⟨"RUN-2", "run " ++ debug claim.runId ++
      " was claimed while another runner's lease was live"⟩
  else pure (insert claim.runId claimed)

def run2OneLiveLease : Except Violation Unit := do
  let leased ← liveLeases debug state
  match state.plan with
  | none => pure ()
  | some plan =>
    let _ ← plan.claimed.foldlM (claimOnce debug leased) ∅

def run3ClaimableIsClaimed : Except Violation Unit :=
  match state.plan with
  | none => pure ()
  | some plan =>
    if state.limit ≤ plan.claimed.length then pure ()
    else state.rows.forM fun row =>
      if claimState row state.now = .ready ∧ row.runId ∉ plan.claimed.map Claimed.runId then
        throw ⟨"RUN-3", "run " ++ debug row.runId ++ " was ready and left unclaimed with " ++
          toString plan.claimed.length ++ " of " ++ toString state.limit ++ " slots taken"⟩
      else pure ()

def claimWithinBudget (claim : Claimed) : Except Violation Unit :=
  match state.rows.find? (·.runId = claim.runId) with
  | none => pure ()
  | some row =>
    if row.maxAttempts < claim.attempts then
      throw ⟨"RUN-4", "run " ++ debug claim.runId ++ " was claimed at attempt " ++
        toString claim.attempts ++ " against a budget of " ++ toString row.maxAttempts⟩
    else pure ()

/-- The janitor gives up exhausted rows only, and none that a claim takes. -/
def orphanedIsExhausted (row : QueueEntry) : Except Violation Unit :=
  if janitorVerdict row state.now state.grace ≠ .orphaned then pure ()
  else if row.attempts < row.maxAttempts then
    throw ⟨"RUN-4", "the janitor orphaned run " ++ debug row.runId ++ " with " ++
      toString row.attempts ++ " of " ++ toString row.maxAttempts ++ " attempts spent"⟩
  else if claimState row state.now = .ready then
    throw ⟨"RUN-4", "run " ++ debug row.runId ++
      " is orphaned by the janitor and claimable by a runner at once"⟩
  else pure ()

def run4BudgetAndJanitor : Except Violation Unit := do
  (state.plan.elim [] ClaimPlan.claimed).forM (claimWithinBudget debug state)
  state.rows.forM (orphanedIsExhausted debug state)

def run7ClaimableOnlyPastExpiry : Except Violation Unit :=
  state.rows.forM fun row =>
    if claimState row state.now = .ready ∧ leaseLive state.now row.leaseExpiresAt then
      throw ⟨"RUN-7", "run " ++ debug row.runId ++ " is claimable at " ++ toString state.now ++
        " while its lease runs to " ++ debugInstant row.leaseExpiresAt⟩
    else pure ()

def check : Except Violation Unit := do
  run2OneLiveLease debug state
  run3ClaimableIsClaimed debug state
  run4BudgetAndJanitor debug state
  run7ClaimableOnlyPastExpiry debug state

end Checker

/-! ## The select statement -/

section Select

variable {J : Type}

/-- A row of `run_queue JOIN runs` with the tenant it belongs to. -/
structure Joined (J : Type) extends Queued J where
  envKey : String

/-- The tenant of a select, what its host serves, and its instant. -/
structure ClaimSession where
  envKey : String
  scope : Scope
  manifestDigest : Option String
  now : Instant

/-- The WHERE clause of `select_production_claim_sql`. -/
def ClaimSession.selectable (session : ClaimSession) (s : Joined J) : Bool :=
  s.envKey = session.envKey &&
    claimEligible session.scope session.manifestDigest session.now s.run s.entry

def Joined.key (s : Joined J) : String × RunId := (s.envKey, s.runId)

/-- `select_production_claim_sql`, where the rows with the given keys are locked. -/
def selectProductionClaim (session : ClaimSession) (rows : List (Joined J))
    (locked : List (String × RunId)) : Option (Joined J) :=
  leastFree Joined.key (fun s => s.position) locked (rows.filter session.selectable)

/-- The selects of transactions that hold what they selected, one after the other. -/
def selectProductionClaims (session : ClaimSession) (rows : List (Joined J)) : ℕ → List (Joined J)
  | 0 => []
  | n + 1 =>
    let selected := selectProductionClaims session rows n
    selected ++ (selectProductionClaim session rows (selected.map Joined.key)).toList

/-- What the decision view does not show of a row and its run. -/
structure Unseen (J : Type) where
  run : Run J
  leaseOwner : Option String
  leaseGeneration : ℤ

def QueueEntry.joined (unseen : QueueEntry → Unseen J) (entry : QueueEntry) : Joined J where
  envKey := entry.envKey
  runId := entry.runId
  run := (unseen entry).run
  entry :=
    { availableAt := (millis entry.availableAt : Instant)
      streamSeq := entry.streamSeq
      leaseOwner := (unseen entry).leaseOwner
      leaseExpiresAt := entry.leaseExpiresAt.map millis
      leaseGeneration := (unseen entry).leaseGeneration
      attempts := entry.attempts
      maxAttempts := entry.maxAttempts }

def ClaimSession.serves (session : ClaimSession) (unseen : QueueEntry → Unseen J)
    (entry : QueueEntry) :
    Bool :=
  entry.envKey = session.envKey && session.scope.covers (unseen entry).run &&
    (unseen entry).run.manifestDigest = session.manifestDigest

end Select

/-- What the WHERE clause asks of the columns of the queue. -/
def QueueEntry.Due (now : ℤ) (entry : QueueEntry) : Prop :=
  entry.availableAt ≤ now ∧ (∀ t ∈ entry.leaseExpiresAt, t ≤ now) ∧
    (entry.attempts < entry.maxAttempts ∨ entry.leaseExpiresAt = none)

instance (now : ℤ) (entry : QueueEntry) : Decidable (entry.Due now) :=
  inferInstanceAs (Decidable (_ ∧ _))

/-! ## Eligibility -/

section Eligibility

variable {entry : QueueEntry} {now grace : ℤ}

lemma claimState_eq_ready : claimState entry now = .ready ↔ entry.Due now := by
  unfold claimState QueueEntry.Due
  cases entry.leaseExpiresAt with
  | none => simp
  | some t =>
    simp only [Option.any_some, Option.isSome_some, Bool.true_and, decide_eq_true_eq]
    split_ifs <;> simp <;> omega

lemma isClaimable_eq : isClaimable entry now = decide (entry.Due now) := by
  rw [isClaimable, decide_eq_decide, claimState_eq_ready]

lemma not_due_of_orphaned (h : janitorVerdict entry now grace = .orphaned) :
    entry.maxAttempts ≤ entry.attempts ∧ ¬ entry.Due now := by
  unfold janitorVerdict at h
  split at h
  · rename_i t ht
    split_ifs at h with hlive horphaned
    refine ⟨horphaned.2, fun hdue => ?_⟩
    rcases hdue.2.2 with hless | hnone
    · exact absurd horphaned.2 (not_le.2 hless)
    · cases ht.symm.trans hnone
  · cases h

lemma not_leaseLive_of_due (h : entry.Due now) : leaseLive now entry.leaseExpiresAt = false := by
  cases hlease : entry.leaseExpiresAt with
  | none => rfl
  | some t => simpa [leaseLive] using h.2.1 t hlease

lemma claimed_attempts_le {leaseTtl : ℤ} (h : entry.Due now)
    (hattempts : entry.attempts ≤ entry.maxAttempts) :
    (entry.claimed now leaseTtl).attempts ≤ entry.maxAttempts := by
  rcases h.2.2 with hless | hnone
  · unfold QueueEntry.claimed
    split_ifs <;> simp only <;> omega
  · simpa [QueueEntry.claimed, hnone] using hattempts

end Eligibility

/-! ## The rows of a plan -/

section Plan

variable {entries : List QueueEntry} {now leaseTtl : ℤ} {limit : ℕ} {entry entry' : QueueEntry}

lemma runId_of_position (h : entry.position = entry'.position) : entry.runId = entry'.runId := by
  have hinner := congrArg (fun x => (ofLex (ofLex x).2).2) h
  exact hinner

lemma mem_planned (h : entry ∈ planned entries now limit) : entry ∈ entries ∧ entry.Due now := by
  have hmem := (perm_sortOn _ _).mem_iff.1 (mem_of_mem_take h)
  obtain ⟨hentry, hclaimable⟩ := mem_filter.1 hmem
  rw [isClaimable_eq] at hclaimable
  exact ⟨hentry, of_decide_eq_true hclaimable⟩

lemma map_runId_planClaim : (planClaim entries now limit leaseTtl).claimed.map Claimed.runId =
    (planned entries now limit).map QueueEntry.runId := by
  rw [planClaim, map_map]
  rfl

variable (h : (entries.map QueueEntry.runId).Nodup)

include h

lemma nodup_position : (entries.map QueueEntry.position).Nodup := by
  rw [nodup_map_iff_inj_on (List.Nodup.of_map _ h)]
  intro a ha b hb hab
  exact inj_on_of_nodup_map h ha hb (runId_of_position hab)

lemma isFirst_planned :
    IsFirst QueueEntry.position limit (entries.filter fun e => decide (e.Due now))
      (planned entries now limit) := by
  have hfilter : (entries.filter fun e => decide (e.Due now)) =
      entries.filter (isClaimable · now) :=
    filter_congr fun e _ => isClaimable_eq.symm
  rw [hfilter]
  exact isFirst_take_sortOn ((nodup_position h).sublist (filter_sublist.map _)) limit

lemma nodup_planned : ((planned entries now limit).map QueueEntry.runId).Nodup := by
  have hfilter : ((entries.filter (isClaimable · now)).map QueueEntry.runId).Nodup :=
    h.sublist (filter_sublist.map _)
  have hsorted := ((perm_sortOn QueueEntry.position _).map QueueEntry.runId).nodup_iff.2 hfilter
  exact hsorted.sublist ((take_sublist limit _).map _)

end Plan

/-! ## What repeated selects lock -/

section Selects

variable {J : Type} {session : ClaimSession} {unseen : QueueEntry → Unseen J}
  {entries : List QueueEntry}
  {entry entry' : QueueEntry} {now : ℤ}

lemma selectProductionClaims_eq (session : ClaimSession) (rows : List (Joined J)) (n : ℕ) :
    selectProductionClaims session rows n =
      takeLeast Joined.key (fun s => s.position) (rows.filter session.selectable) n := by
  induction n with
  | zero => rfl
  | succ n ih =>
    rw [selectProductionClaims, takeLeast, ih]
    rfl

lemma millis_le_millis {a b : ℤ} : millis a ≤ millis b ↔ a ≤ b := by
  unfold millis
  omega

lemma millis_inj {a b : ℤ} : millis a = millis b ↔ a = b := by
  unfold millis
  omega

lemma millis_lt_millis {a b : ℤ} : millis a < millis b ↔ a < b := by
  unfold millis
  omega

lemma selectable_joined (h : session.now = millis now) :
    session.selectable (entry.joined unseen) =
      (isClaimable entry now && session.serves unseen entry) := by
  rw [Bool.eq_iff_iff, isClaimable_eq]
  cases hlease : entry.leaseExpiresAt with
  | none =>
    simp [ClaimSession.selectable, claimEligible, ClaimSession.serves, QueueEntry.joined,
      QueueEntry.Due, h, hlease, millis_le_millis]
    tauto
  | some t =>
    simp [ClaimSession.selectable, claimEligible, ClaimSession.serves, QueueEntry.joined,
      QueueEntry.Due, h, hlease, millis_le_millis]
    tauto

lemma position_joined_le :
    (entry.joined unseen).position ≤ (entry'.joined unseen).position ↔
      entry.position ≤ entry'.position := by
  simp only [Queued.position, QueueEntry.position, QueueEntry.joined, Prod.Lex.toLex_le_toLex,
    WithTop.coe_lt_coe, WithTop.coe_inj, millis_lt_millis, millis_inj]

/-- Repeated selects on the rows of the entries lock what a plan takes of the served ones. -/
theorem selectProductionClaims_joined (hdistinct : (entries.map QueueEntry.runId).Nodup)
    (h : session.now = millis now) (n : ℕ) :
    selectProductionClaims session (entries.map (QueueEntry.joined unseen)) n =
      (planned (entries.filter (session.serves unseen)) now n).map (QueueEntry.joined unseen) := by
  have hrows : (entries.map (QueueEntry.joined unseen)).filter session.selectable =
      ((entries.filter (session.serves unseen)).filter (isClaimable · now)).map
        (QueueEntry.joined unseen) := by
    rw [filter_map, filter_filter]
    exact congrArg _ (filter_congr fun e _ => selectable_joined h)
  have hsub : ((entries.filter (session.serves unseen)).filter (isClaimable · now)).Sublist
      entries := filter_sublist.trans filter_sublist
  have hids := hdistinct.sublist (hsub.map QueueEntry.runId)
  rw [selectProductionClaims_eq, hrows, takeLeast_eq, planned, map_take]
  · congr 1
    exact (map_insertionSort (fun a b : QueueEntry => a.position ≤ b.position)
      (fun a b : Joined J => a.position ≤ b.position) (QueueEntry.joined unseen) _
      fun a _ b _ => position_joined_le.symm).symm
  · rw [map_map]
    refine List.Nodup.of_map Prod.snd ?_
    rw [map_map]
    exact hids
  · intro a ha b hb hab
    obtain ⟨e, he, rfl⟩ := mem_map.1 ha
    obtain ⟨e', he', rfl⟩ := mem_map.1 hb
    have hruns : e.runId = e'.runId := congrArg (fun x => (ofLex (ofLex x).2).2) hab
    rw [inj_on_of_nodup_map hids he he' hruns]

end Selects

/-! ## The plan passes the checker -/

/-- A loop that collects the ids of some of its items, which are distinct. -/
theorem foldlM_insert {ε α ι : Type} [DecidableEq ι] {id : α → ι} {P : α → Prop} {l : List α}
    {f : Finset ι → α → Except ε (Finset ι)} {seen : Finset ι} (hnodup : (l.map id).Nodup)
    (hfresh : ∀ a ∈ l, id a ∉ seen)
    (hstep : ∀ a ∈ l, ∀ seen, id a ∉ seen →
      f seen a = .ok seen ∨ P a ∧ f seen a = .ok (insert (id a) seen)) :
    ∃ seen', l.foldlM f seen = .ok seen' ∧
      ∀ i ∈ seen', i ∈ seen ∨ ∃ a ∈ l, P a ∧ id a = i := by
  induction l generalizing seen with
  | nil => exact ⟨seen, rfl, fun i hi => .inl hi⟩
  | cons a l ih =>
    rw [map_cons, nodup_cons] at hnodup
    obtain ⟨hnew, hrest⟩ := forall_mem_cons.1 hfresh
    obtain ⟨hhead, htail⟩ := forall_mem_cons.1 hstep
    rcases hhead seen hnew with hsame | ⟨hP, hinsert⟩
    · obtain ⟨seen', hfold, hseen⟩ := ih hnodup.2 hrest htail
      refine ⟨seen', by rw [foldlM_cons, hsame]; exact hfold, fun i hi => ?_⟩
      rcases hseen i hi with hi | ⟨b, hb, hi⟩
      · exact .inl hi
      · exact .inr ⟨b, mem_cons_of_mem a hb, hi⟩
    · have hfresh' : ∀ b ∈ l, id b ∉ insert (id a) seen := by
        intro b hb hmem
        rcases Finset.mem_insert.1 hmem with heq | hmem
        · exact hnodup.1 (heq ▸ mem_map_of_mem hb)
        · exact hrest b hb hmem
      obtain ⟨seen', hfold, hseen⟩ := ih hnodup.2 hfresh' htail
      refine ⟨seen', by rw [foldlM_cons, hinsert]; exact hfold, fun i hi => ?_⟩
      rcases hseen i hi with hi | ⟨b, hb, hi⟩
      · rcases Finset.mem_insert.1 hi with rfl | hi
        · exact .inr ⟨a, mem_cons_self, hP, rfl⟩
        · exact .inl hi
      · exact .inr ⟨b, mem_cons_of_mem a hb, hi⟩

section Checks

variable {entries : List QueueEntry} {now leaseTtl grace : ℤ} {limit : ℕ} (debug : String → String)

lemma run7ClaimableOnlyPastExpiry_eq_ok (state : QueueState) :
    run7ClaimableOnlyPastExpiry debug state = .ok () := by
  refine forM_eq_ok.2 fun row _ => if_neg fun hbad => ?_
  rw [not_leaseLive_of_due (claimState_eq_ready.1 hbad.1)] at hbad
  cases hbad.2

variable (hdistinct : (entries.map QueueEntry.runId).Nodup)

include hdistinct

lemma run2OneLiveLease_planClaim :
    run2OneLiveLease debug
      ⟨entries, some (planClaim entries now limit leaseTtl), limit, grace, now⟩ = .ok () := by
  obtain ⟨leased, hleased, hlive⟩ : ∃ leased, liveLeases debug
      ⟨entries, some (planClaim entries now limit leaseTtl), limit, grace, now⟩ = .ok leased ∧
      ∀ i ∈ leased, i ∈ (∅ : Finset String) ∨
        ∃ e ∈ entries, leaseLive now e.leaseExpiresAt = true ∧ e.runId = i := by
    refine foldlM_insert hdistinct (fun _ _ => Finset.notMem_empty _) fun e _ seen hnew => ?_
    simp only [hnew, if_false]
    split_ifs with hlease
    · exact .inr ⟨hlease, rfl⟩
    · exact .inl rfl
  -- No claimed run has a live lease: it would be that of another row with its id.
  have hfree : ∀ claim ∈ (planClaim entries now limit leaseTtl).claimed, claim.runId ∉ leased := by
    intro claim hclaim hmem
    obtain ⟨e, he, rfl⟩ := mem_map.1 hclaim
    obtain ⟨hentry, hdue⟩ := mem_planned he
    rcases hlive _ hmem with hempty | ⟨e', he', hlease, hid⟩
    · exact Finset.notMem_empty _ hempty
    · obtain rfl := inj_on_of_nodup_map hdistinct he' hentry hid
      rw [not_leaseLive_of_due hdue] at hlease
      cases hlease
  have hids : ((planClaim entries now limit leaseTtl).claimed.map Claimed.runId).Nodup := by
    rw [map_runId_planClaim]
    exact nodup_planned hdistinct
  obtain ⟨seen, hseen, -⟩ := foldlM_insert (P := fun _ => True) (f := claimOnce debug leased) hids
    (fun _ _ => Finset.notMem_empty _) fun claim hclaim seen hnew => by
      rw [claimOnce, if_neg hnew, if_neg (hfree claim hclaim)]
      exact .inr ⟨trivial, rfl⟩
  exact bind_eq_ok.2 ⟨leased, hleased, bind_eq_ok.2 ⟨seen, hseen, rfl⟩⟩

lemma run3ClaimableIsClaimed_planClaim :
    run3ClaimableIsClaimed debug
      ⟨entries, some (planClaim entries now limit leaseTtl), limit, grace, now⟩ = .ok () := by
  rw [run3ClaimableIsClaimed]
  simp only
  split_ifs with hfull
  · rfl
  · refine forM_eq_ok.2 fun row hrow => if_neg fun hleft => hleft.2 ?_
    rw [map_runId_planClaim]
    have hfirst : IsFirst QueueEntry.position limit (entries.filter fun e => decide (e.Due now))
        (planned entries now limit) := isFirst_planned hdistinct
    -- The plan has room, so it holds every row that is due.
    have hlength : (planClaim entries now limit leaseTtl).claimed.length =
        (planned entries now limit).length := by rw [planClaim, length_map]
    have hmem : row ∈ entries.filter fun e => decide (e.Due now) :=
      mem_filter.2 ⟨hrow, decide_eq_true (claimState_eq_ready.1 hleft.1)⟩
    refine mem_map_of_mem ?_
    have hsubset :
        (planned entries now limit).Subperm (entries.filter fun e => decide (e.Due now)) :=
      subperm_of_subset (List.Nodup.of_map _ (nodup_planned hdistinct)) hfirst.mem
    have hroom : (entries.filter fun e => decide (e.Due now)).length ≤
        (planned entries now limit).length := by
      have hmin := hfirst.length
      rw [hlength] at hfull
      omega
    have hperm := hsubset.perm_of_length_le hroom
    exact hperm.mem_iff.2 hmem

lemma run4BudgetAndJanitor_planClaim (hattempts : ∀ e ∈ entries, e.attempts ≤ e.maxAttempts) :
    run4BudgetAndJanitor debug
      ⟨entries, some (planClaim entries now limit leaseTtl), limit, grace, now⟩ = .ok () := by
  rw [run4BudgetAndJanitor, bind_eq_ok]
  refine ⟨(), forM_eq_ok.2 fun claim hclaim => ?_, forM_eq_ok.2 fun row hrow => ?_⟩
  · obtain ⟨e, he, rfl⟩ := mem_map.1 hclaim
    obtain ⟨hentry, hdue⟩ := mem_planned he
    rw [claimWithinBudget]
    split
    · rfl
    · rename_i row hfind
      -- The row that is found is the one that was claimed.
      have hid : row.runId = e.runId := of_decide_eq_true (find?_some hfind :)
      obtain rfl := inj_on_of_nodup_map hdistinct (mem_of_find?_eq_some hfind) hentry hid
      exact if_neg (not_lt.2 (claimed_attempts_le hdue (hattempts row hentry)))
  · rw [orphanedIsExhausted]
    split_ifs with horphaned hless hready
    · rfl
    · exact absurd hless (not_lt.2 (not_due_of_orphaned (not_not.1 horphaned)).1)
    · exact absurd (claimState_eq_ready.1 hready) (not_due_of_orphaned (not_not.1 horphaned)).2
    · rfl

lemma check_planClaim (hattempts : ∀ e ∈ entries, e.attempts ≤ e.maxAttempts) :
    check debug ⟨entries, some (planClaim entries now limit leaseTtl), limit, grace, now⟩ =
      .ok () := by
  rw [check, run2OneLiveLease_planClaim debug hdistinct,
    run3ClaimableIsClaimed_planClaim debug hdistinct,
    run4BudgetAndJanitor_planClaim debug hdistinct hattempts]
  exact run7ClaimableOnlyPastExpiry_eq_ok debug _

end Checks

/-! ## The plan, the statement and the checker -/

/-- A plan takes the first entries that the conditions on the queue's columns let through. Repeated
selects, each leaving its row locked, lock what a plan takes of the entries that the session serves.
The checker has nothing to say about the entries and the plan. -/
theorem planClaim_refines (J : Type) (entries : List QueueEntry) (now leaseTtl grace : ℤ)
    (limit : ℕ) (debug : String → String) (hdistinct : (entries.map QueueEntry.runId).Nodup)
    (hattempts : ∀ e ∈ entries, e.attempts ≤ e.maxAttempts) :
    (∃ chosen : List QueueEntry, (planClaim entries now limit leaseTtl).claimed =
        chosen.map (QueueEntry.claimed now leaseTtl) ∧
      IsFirst QueueEntry.position limit (entries.filter fun e => decide (e.Due now)) chosen) ∧
    (∀ (session : ClaimSession) (unseen : QueueEntry → Unseen J), session.now = millis now →
      ∃ chosen : List QueueEntry,
        (planClaim (entries.filter (session.serves unseen)) now limit leaseTtl).claimed =
          chosen.map (QueueEntry.claimed now leaseTtl) ∧
        selectProductionClaims session (entries.map (QueueEntry.joined unseen)) limit =
          chosen.map (QueueEntry.joined unseen)) ∧
    check debug ⟨entries, some (planClaim entries now limit leaseTtl), limit, grace, now⟩ =
      .ok () :=
  ⟨⟨_, rfl, isFirst_planned hdistinct⟩,
    fun _ _ h => ⟨_, rfl, selectProductionClaims_joined hdistinct h limit⟩,
    check_planClaim debug hdistinct hattempts⟩

namespace Sample

def order : Unseen Unit where
  run :=
    ({ packageId := "orders", environment := "dev", triggerSource := none } : NewRun Unit).row 0
  leaseOwner := none
  leaseGeneration := 0

def ordersHost : ClaimSession := ⟨"a", ⟨["orders"], "dev"⟩, none, millis 5⟩

/-- An entry that is due at 5, with one attempt of two spent. -/
def dueEntry (envKey runId : String) : QueueEntry := ⟨envKey, runId, 3, 0, some 4, 1, 2⟩

/-- Two due entries of the tenant, of which a claim with limit 1 takes one. -/
theorem planClaim_refines_due :
    let entries := [dueEntry "a" "r2", dueEntry "a" "r1"]
    (∃ chosen : List QueueEntry, (planClaim entries 5 1 30).claimed =
        chosen.map (QueueEntry.claimed 5 30) ∧
      IsFirst QueueEntry.position 1 (entries.filter fun e => decide (e.Due 5)) chosen) ∧
    (∀ (session : ClaimSession) (unseen : QueueEntry → Unseen Unit), session.now = millis 5 →
      ∃ chosen : List QueueEntry,
        (planClaim (entries.filter (session.serves unseen)) 5 1 30).claimed =
          chosen.map (QueueEntry.claimed 5 30) ∧
        selectProductionClaims session (entries.map (QueueEntry.joined unseen)) 1 =
          chosen.map (QueueEntry.joined unseen)) ∧
    check id ⟨entries, some (planClaim entries 5 1 30), 1, 60, 5⟩ = .ok () :=
  planClaim_refines Unit [dueEntry "a" "r2", dueEntry "a" "r1"] 5 30 60 1 id (by decide) (by decide)

/-- The plan takes a due entry of another tenant, which the select passes over. -/
theorem planClaim_takes_other_tenant :
    (planClaim [dueEntry "b" "r1"] 5 1 30).claimed = [⟨"b", "r1", 2, 35⟩] ∧
    ordersHost.selectable ((dueEntry "b" "r1").joined fun _ => order) = false ∧
    selectProductionClaims ordersHost
      ([dueEntry "b" "r1"].map (QueueEntry.joined fun _ => order)) 1 = [] := by
  refine ⟨by decide, by decide, ?_⟩
  have hnone : ordersHost.selectable ((dueEntry "b" "r1").joined fun _ => order) = false := by
    decide
  simp [selectProductionClaims, selectProductionClaim, leastFree, hnone]

end Sample

end Wamn.RunState
