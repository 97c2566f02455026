import Wamn.Runtime.WriteLog

/-!
# A claim of the write log runs at most once

`Effect` says what a call can do to the table: nothing, insert a row under a free key, change rows
that are not final, delete the open row of a released claim, or drop the rows of a transaction that
ends without a commit. So a final row (committed, with a result) stays and answers every later
`begin`, a key keeps its row until it is released or rolled back, and an intent id names one row,
because an operation has no `#`.
-/

namespace Wamn.WriteLog

open List Lib Lib.Json Lib.Text Intents Function

/-! ## Ids -/

variable {operation text : String} {outcome : Value}

lemma hash_notMem_logOperation (h : '#' ∉ operation.toList) :
    '#' ∉ (logOperation operation).toList := by
  unfold logOperation
  split
  · rename_i name version hsplit
    obtain ⟨heq, -⟩ := splitOnce_eq_some.1 hsplit
    rw [String.toList_ofList]
    intro hmem
    exact h (heq ▸ mem_append_left _ hmem)
  · exact h

lemma claimOf_intentId (lib : Library) (during : String) (key : String)
    (h : '#' ∉ operation.toList) : claimOf lib during (intentId operation key) =
      .ok (operation, key) := by
  have hlist : (intentId operation key).toList = operation.toList ++ '#' :: key.toList := by
    simp [intentId, String.toList_append]
  have hsplit : splitOnce '#' (intentId operation key).toList =
      some (operation.toList, key.toList) := splitOnce_eq_some.2 ⟨hlist, h⟩
  unfold claimOf
  rw [hsplit]
  simp [pure, Except.pure]

/-! ## Rows -/

namespace LogRow

def Final (row : LogRow) : Prop := row.writer = none ∧ row.result ≠ none

variable {row : LogRow} {runner : Runner} {claim : String × String} {result : String} {id : ℕ}

lemma seenBy_store {client : ℕ} : row.seenBy (.store client) = true ↔ row.writer = none := by
  rw [seenBy, Bool.or_eq_true, decide_eq_true_iff, decide_eq_true_iff]
  exact or_self_iff

lemma Final.seen (h : row.Final) : row.seenBy runner = true := by
  simp [seenBy, h.1]

@[simp]
lemma claim_finish : (row.finish runner claim result).claim = row.claim := by
  unfold finish
  split <;> rfl

lemma Final.finish_eq (h : row.Final) : row.finish runner claim result = row := by
  simp [finish, h.2]

lemma finish_of_ne (h : row.claim ≠ claim) : row.finish runner claim result = row := by
  simp [finish, h]

@[simp]
lemma claim_commit : (row.commit id).claim = row.claim := by
  unfold commit
  split <;> rfl

lemma commit_of_seen {text : String} (h : row.seenBy (.transaction id) = true) :
    LogRow.commit id { row with result := some text } =
      { row with result := some text, writer := none } := by
  rw [seenBy, Bool.or_eq_true, decide_eq_true_iff, decide_eq_true_iff] at h
  rcases h with hnone | hown
  · simp [commit, hnone]
  · have hwriter : row.writer = some id := hown
    simp [commit, hwriter]

lemma Final.commit_eq (h : row.Final) : row.commit id = row := by
  simp [commit, h.1]

end LogRow

namespace Table

variable {t : Table} {row : LogRow} {runner : Runner} {claim : String × String}

lemma lookup_eq_some : t.lookup claim = some row ↔ row ∈ t.rows ∧ row.claim = claim :=
  Keyed.find?_eq_some t.unique

lemma lookup_eq_none : t.lookup claim = none ↔ ∀ row ∈ t.rows, row.claim ≠ claim :=
  Keyed.find?_eq_none

lemma claim_eq_inserted {t' : Table} (h : t.claim runner row = .inserted t') :
    t.lookup row.claim = none ∧ t'.rows = row :: t.rows := by
  unfold Table.claim at h
  split at h
  · split at h
    · split at h <;> cases h
    · rename_i hfound
      injection h with h
      exact ⟨hfound, h ▸ rfl⟩
  · cases h

lemma claim_of_seen {held : LogRow} (hheld : held ∈ t.rows) (hseen : held.seenBy runner = true)
    (hclaim : row.claim = held.claim) (hchecked : row.Checked) : t.claim runner row = .present := by
  have hfound : t.lookup row.claim = some held := lookup_eq_some.2 ⟨hheld, hclaim.symm⟩
  unfold Table.claim
  rw [dif_pos hchecked]
  split
  · rename_i held' hfound'
    rw [hfound] at hfound'
    obtain rfl := Option.some.inj hfound'
    rw [if_pos hseen]
  · rename_i hfound'
    rw [hfound] at hfound'
    cases hfound'

lemma read_of_seen (hrow : row ∈ t.rows) (hseen : row.seenBy runner = true) :
    t.read runner row.claim = some row :=
  (Keyed.find?_and_eq_some t.unique _).2 ⟨hrow, hseen, rfl⟩

lemma hasOpen_iff : t.hasOpen runner claim = true ↔
    ∃ row ∈ t.rows, row.seenBy runner = true ∧ row.claim = claim ∧ row.result = none := by
  simp [hasOpen, and_assoc]

end Table

/-! ## What a call does to the table -/

/-- What an action does to the table. -/
inductive Effect (lib : Library) (action : Action) (t t' : Table) : Prop where
  | kept (heq : t' = t)
  | claimed (row : LogRow) (hfree : t.lookup row.claim = none) (hrows : t'.rows = row :: t.rows)
  | changed (f : LogRow → LogRow) (hclaim : ∀ row, (f row).claim = row.claim)
      (hfinal : ∀ row : LogRow, row.Final → f row = row) (hrows : t'.rows = t.rows.map f)
  | released (client : ℕ) (id : String) (claim : String × String)
      (haction : action = .release client id) (hid : claimOf lib "release" id = .ok claim)
      (hrows : t'.rows = t.rows.filter fun row =>
        !(row.seenBy (.store client) && row.claim = claim && row.result = none))
  | ended (id : ℕ) (haction : action.runner = .transaction id)
      (hrows : t'.rows = t.rows.filter fun row => row.writer ≠ some id)

section Effects

variable {host : Host} {action : Action} {s : System}

lemma effect_fail (s : System) (haction : action.runner = runner) :
    Effect host.lib action s.table (s.fail runner).table := by
  cases runner with
  | store client => exact .kept rfl
  | transaction id => exact .ended id haction rfl

lemma effect_beginWith {runner : Runner} (intent : Intent) (haction : action.runner = runner) :
    Effect host.lib action s.table (beginWith host runner intent s).2.table := by
  unfold beginWith
  split
  · exact .kept rfl
  · cases hclaim : s.table.claim runner (claimRow host runner intent) with
    | inserted t =>
      obtain ⟨hfree, hrows⟩ := Table.claim_eq_inserted hclaim
      exact .claimed _ hfree hrows
    | present | waits => exact .kept rfl
    | refused => exact effect_fail s haction

lemma table_readWith (runner : Runner) : (readWith host runner s).2.table = s.table := by
  unfold readWith
  split <;> rfl

lemma effect_finishWith (client : ℕ) (id : String) (outcome : Value) :
    Effect host.lib action s.table (finishWith host client id outcome s).2.table := by
  unfold finishWith
  split
  · exact .kept rfl
  · rename_i claim result hfinish
    split
    · exact .changed (LogRow.finish (.store client) claim result) (fun _ => LogRow.claim_finish)
        (fun _ hrow => hrow.finish_eq) rfl
    · exact .kept rfl

lemma effect_releaseClaim (client : ℕ) (id : String) :
    Effect host.lib (.release client id) s.table (releaseClaim host client id s).2.table := by
  unfold releaseClaim
  split
  · exact .kept rfl
  · rename_i claim hid
    split
    · exact .released client id claim rfl hid rfl
    · exact .kept rfl

lemma table_stage (tx : ℕ) (id : String) (outcome : Value) :
    (stage host tx id outcome s).2.table = s.table := by
  unfold stage
  split
  · rfl
  · split
    · rfl
    · split <;> rfl

lemma effect_commit (tx : ℕ) :
    Effect host.lib (.commit tx) s.table (commit tx s).2.table := by
  unfold commit
  split
  · exact .changed (LogRow.commit tx) (fun _ => LogRow.claim_commit) (fun _ hrow => hrow.commit_eq)
      rfl
  · rename_i claim result hstaged
    split
    · refine .changed (fun row => (row.finish (.transaction tx) claim result).commit tx)
        (fun row => ?_) (fun row hrow => ?_) (map_map ..)
      · rw [LogRow.claim_commit, LogRow.claim_finish]
      · rw [hrow.finish_eq, hrow.commit_eq]
    · exact effect_fail s rfl

lemma effect_exec (action : Action) (s : System) :
    Effect host.lib action s.table (exec host action s).2.table := by
  cases action with
  | begin runner intent =>
    show Effect host.lib _ s.table
      (if (s.reading runner).isSome then (none, s) else beginWith host runner intent s).2.table
    split
    · exact .kept rfl
    · exact effect_beginWith intent rfl
  | read runner => exact .kept (table_readWith runner)
  | finish client id outcome => exact effect_finishWith client id outcome
  | release client id => exact effect_releaseClaim client id
  | stage tx id outcome => exact .kept (table_stage tx id outcome)
  | commit tx => exact effect_commit tx
  | rollback tx => exact effect_fail s rfl

lemma effect_step (host : Host) (s : System) (call : Call) :
    Effect host.lib call.action s.table (s.step host call).table := by
  unfold System.step
  split
  · exact effect_fail s rfl
  · exact effect_exec call.action s

end Effects

namespace Effect

variable {lib : Library} {action : Action} {t t' : Table} {row : LogRow}

lemma mem_of_final (h : Effect lib action t t') (hrow : row ∈ t.rows) (hfinal : row.Final) :
    row ∈ t'.rows := by
  cases h with
  | kept heq => rwa [heq]
  | claimed new hfree hrows =>
    rw [hrows]
    exact mem_cons_of_mem _ hrow
  | changed f hclaim hkept hrows =>
    rw [hrows, mem_map]
    exact ⟨row, hrow, hkept row hfinal⟩
  | released client id claim haction hid hrows =>
    rw [hrows, mem_filter]
    exact ⟨hrow, by simp [hfinal.2]⟩
  | ended id haction hrows =>
    rw [hrows, mem_filter]
    exact ⟨hrow, by simp [hfinal.1]⟩

/-- A key keeps its row, unless its claim is released or its transaction ends without it. -/
theorem claim_kept_or_freed (h : Effect lib action t t') (hrow : row ∈ t.rows) :
    (∃ row' ∈ t'.rows, row'.claim = row.claim) ∨
      (∃ client id, action = .release client id ∧ claimOf lib "release" id = .ok row.claim ∧
        row.writer = none ∧ row.result = none) ∨
      ∃ id, row.writer = some id ∧ action.runner = .transaction id := by
  cases h with
  | kept heq =>
    rw [heq]
    exact .inl ⟨row, hrow, rfl⟩
  | claimed new hfree hrows =>
    rw [hrows]
    exact .inl ⟨row, mem_cons_of_mem _ hrow, rfl⟩
  | changed f hclaim hkept hrows =>
    rw [hrows]
    exact .inl ⟨f row, mem_map_of_mem hrow, hclaim row⟩
  | released client id claim haction hid hrows =>
    by_cases hopen : row.seenBy (.store client) = true ∧ row.claim = claim ∧ row.result = none
    · obtain ⟨hseen, rfl, hresult⟩ := hopen
      exact .inr (.inl ⟨client, id, haction, hid, LogRow.seenBy_store.1 hseen, hresult⟩)
    · rw [hrows]
      refine .inl ⟨row, mem_filter.2 ⟨hrow, ?_⟩, rfl⟩
      rw [Bool.not_eq_true', ← Bool.not_eq_true]
      simpa [and_assoc] using hopen
  | ended id haction hrows =>
    by_cases hwriter : row.writer = some id
    · exact .inr (.inr ⟨id, hwriter, haction⟩)
    · rw [hrows]
      exact .inl ⟨row, mem_filter.2 ⟨hrow, by simpa using hwriter⟩, rfl⟩

end Effect

/-! ## Runs -/

namespace System

variable {host : Host} {s : System}

/-- The call is a `begin` of the claim, and its caller hears that the claim is new. -/
def AnswersNew (host : Host) (s : System) (call : Call) (claim : String × String) : Prop :=
  ∃ runner intent id, call.action = .begin runner intent ∧ claimed intent = claim ∧
    s.answer host call = some (.ok (.begun (.new id)))

/-- The call releases the committed open row, or ends the transaction that had inserted the row. -/
def Frees (host : Host) (s : System) (call : Call) (claim : String × String) : Prop :=
  (∃ row ∈ s.table.rows, row.claim = claim ∧
    ((∃ client id, call.action = .release client id ∧ claimOf host.lib "release" id = .ok claim ∧
      row.writer = none ∧ row.result = none) ∨
    ∃ id, row.writer = some id ∧ call.action.runner = .transaction id)) ∧
  (s.step host call).table.lookup claim = none

lemma mem_run_of_final {row : LogRow} (hrow : row ∈ s.table.rows) (hfinal : row.Final)
    (calls : List Call) : row ∈ (s.run host calls).table.rows := by
  refine invariant_foldl (I := fun s : System => row ∈ s.table.rows) ?_ hrow calls
  intro s call hmem
  exact (effect_step host s call).mem_of_final hmem hfinal

lemma frees_of_step {call : Call} {claim : String × String}
    (hbefore : s.table.lookup claim ≠ none)
    (hafter : (s.step host call).table.lookup claim = none) :
    s.Frees host call claim := by
  obtain ⟨row, hlookup⟩ := Option.ne_none_iff_exists'.1 hbefore
  obtain ⟨hrow, rfl⟩ := Table.lookup_eq_some.1 hlookup
  refine ⟨⟨row, hrow, rfl, ?_⟩, hafter⟩
  rcases (effect_step host s call).claim_kept_or_freed hrow with ⟨row', hrow', hclaim⟩ | h
  · exact absurd hclaim (Table.lookup_eq_none.1 hafter row' hrow')
  · exact h

end System

lemma beginWith_new {intent : Intent} {s : System} {id : String}
    (h : (beginWith host runner intent s).1 = some (.ok (.begun (.new id)))) :
    s.table.lookup (claimed intent) = none ∧
      (beginWith host runner intent s).2.table.lookup (claimed intent) ≠ none := by
  unfold beginWith at h ⊢
  split at h
  · cases h
  · rename_i htenant
    rw [if_neg htenant]
    cases hclaim : s.table.claim runner (claimRow host runner intent) with
    | inserted t =>
      obtain ⟨hfree, hrows⟩ := Table.claim_eq_inserted hclaim
      refine ⟨hfree, fun hnone => ?_⟩
      exact Table.lookup_eq_none.1 hnone _ (hrows ▸ mem_cons_self) rfl
    | present | waits | refused =>
      rw [hclaim] at h
      cases h

lemma answersNew_spec {s : System} {call : Call} (h : s.AnswersNew host call claim) :
    s.table.lookup claim = none ∧ (s.step host call).table.lookup claim ≠ none := by
  obtain ⟨runner, intent, id, haction, rfl, hanswer⟩ := h
  unfold System.answer at hanswer
  unfold System.step
  split at hanswer
  · rename_i hfate
    simp only [hfate]
    rw [haction] at hanswer ⊢
    simp only [exec] at hanswer ⊢
    split at hanswer
    · cases hanswer
    · rename_i hreading
      rw [if_neg hreading]
      exact beginWith_new hanswer
  · cases hanswer
  · cases hanswer

/-! ## At most once -/

/-- The row answers every `begin` of its claim: with its result to the same hash, with a conflict to
another. No `begin` changes it. -/
structure Settled (host : Host) (s : System) (row : LogRow) : Prop where
  stored : row ∈ s.table.rows
  /-- The first statement of a `begin` finds the key taken, and the second reads the row. -/
  taken : ∀ runner intent, claimed intent = row.claim →
    (runner.writer = none → intent.tenant = host.envKey) → intent.inputHash ≠ "" →
      s.reading runner = none → exec host (.begin runner intent) s =
        (none, { s with reading := update s.reading runner (some intent) })
  /-- The second statement answers from the row. -/
  answered : ∀ runner intent, s.reading runner = some intent → claimed intent = row.claim →
    exec host (.read runner) s = (some ((answerRow host.lib intent row).map Reply.begun),
      { s with reading := update s.reading runner none })
  repeated : ∀ intent text value, row.result = some text → host.lib.decode text = .ok value →
    intent.inputHash = row.request → answerRow host.lib intent row = .ok (.finished value)
  conflicting : ∀ intent, intent.inputHash ≠ row.request →
    answerRow host.lib intent row = .ok (.conflict (claimId intent))

lemma settled_of_final {s : System} (hrow : row ∈ s.table.rows) (hfinal : row.Final) :
    Settled host s row where
  stored := hrow
  taken := by
    intro runner intent hclaim htenant hhash hreading
    have hchecked : (claimRow host runner intent).Checked := by
      obtain ⟨hoperation, hkey, -⟩ := s.table.checked row hrow
      obtain ⟨hsameOperation, hsameKey⟩ := Prod.mk.inj hclaim
      refine ⟨?_, ?_, hhash⟩
      · show logOperation intent.operation ≠ ""
        rwa [hsameOperation]
      · show intent.idempotencyKey ≠ ""
        rwa [hsameKey]
    have hpresent : s.table.claim runner (claimRow host runner intent) = .present :=
      Table.claim_of_seen hrow hfinal.seen hclaim hchecked
    have hok : ¬ (runner.writer = none ∧ intent.tenant ≠ host.envKey) :=
      fun h => h.2 (htenant h.1)
    simp [exec, hreading, beginWith, hok, hpresent]
  answered := by
    intro runner intent hreading hclaim
    have hread : s.table.read runner (claimed intent) = some row :=
      hclaim ▸ Table.read_of_seen hrow hfinal.seen
    simp [exec, readWith, hreading, hread]
  repeated := by
    intro intent text value hresult hdecode hhash
    simp [answerRow, hhash, hresult, hdecode, pure, Except.pure]
  conflicting := by
    intro intent hhash
    simp [answerRow, hhash.symm, pure, Except.pure]

/-- A `finish` that succeeds found the committed open row of its claim and stores its text there. -/
theorem finishWith_done {client : ℕ} {id : String} {s s' : System}
    (h : finishWith host client id outcome s = (some (.ok .done), s')) :
    ∃ claim text, finishText host.lib id outcome = .ok (claim, text) ∧
      s.table.hasOpen (.store client) claim = true ∧
        s'.table = s.table.finish (.store client) claim text := by
  unfold finishWith at h
  split at h
  · cases h
  · rename_i claim text hfinish
    split at h
    · rename_i hopen
      cases h
      exact ⟨claim, text, hfinish, hopen, rfl⟩
    · cases h

lemma commit_done {tx : ℕ} {s s' : System} (hstaged : s.staged tx = some (claim, text))
    (h : commit tx s = (some (.ok .done), s')) : s.table.hasOpen (.transaction tx) claim = true ∧
      s'.table = (s.table.finish (.transaction tx) claim text).commit tx := by
  unfold commit at h
  simp only [hstaged] at h
  split at h
  · rename_i hopen
    cases h
    exact ⟨hopen, rfl⟩
  · cases h

lemma exists_finished {t : Table} (text : String) (hopen : t.hasOpen runner claim = true) :
    ∃ row ∈ t.rows, row.claim = claim ∧ row.result = none ∧ row.seenBy runner = true ∧
      { row with result := some text } ∈ (t.finish runner claim text).rows := by
  obtain ⟨row, hrow, hseen, hclaim, hresult⟩ := Table.hasOpen_iff.1 hopen
  refine ⟨row, hrow, hclaim, hresult, hseen, mem_map.2 ⟨row, hrow, ?_⟩⟩
  simp [LogRow.finish, hseen, hclaim, hresult]

lemma mem_finish_iff {t : Table} (hne : row.claim ≠ claim) :
    row ∈ (t.finish runner claim text).rows ↔ row ∈ t.rows := by
  constructor
  · intro hmem
    obtain ⟨old, hold, rfl⟩ := mem_map.1 hmem
    rw [LogRow.claim_finish] at hne
    rwa [LogRow.finish_of_ne hne]
  · intro hmem
    exact mem_map.2 ⟨row, hmem, LogRow.finish_of_ne hne⟩

lemma finishText_intentId {lib : Library} {key : String} (hhash : '#' ∉ operation.toList)
    (h : finishText lib (intentId (logOperation operation) key) outcome = .ok (claim, text)) :
    claim = (logOperation operation, key) := by
  obtain ⟨claim', hclaim, h⟩ := bind_eq_ok.1 h
  obtain ⟨result, -, h⟩ := bind_eq_ok.1 h
  rw [claimOf_intentId lib "finish" key (hash_notMem_logOperation hhash)] at hclaim
  obtain ⟨rfl, -⟩ := Prod.mk.inj (pure_eq_ok.1 h)
  exact (Except.ok.inj hclaim).symm

lemma mem_finishWith_iff {client : ℕ} {key : String} {s : System} (hhash : '#' ∉ operation.toList)
    (hne : row.claim ≠ (logOperation operation, key)) :
    row ∈ (finishWith host client (intentId (logOperation operation) key) outcome s).2.table.rows ↔
      row ∈ s.table.rows := by
  unfold finishWith
  split
  · exact Iff.rfl
  · rename_i claim text hfinish
    rw [finishText_intentId hhash hfinish]
    split
    · exact mem_finish_iff hne
    · exact Iff.rfl

lemma staged_stage {tx : ℕ} {key : String} {s : System} (hhash : '#' ∉ operation.toList) :
    (stage host tx (intentId (logOperation operation) key) outcome s).2.staged tx = s.staged tx ∨
      ∃ text, (stage host tx (intentId (logOperation operation) key) outcome s).2.staged tx =
        some ((logOperation operation, key), text) := by
  unfold stage
  split
  · exact .inl rfl
  · split
    · exact .inl rfl
    · rename_i finish hfinish
      split
      · exact .inl rfl
      · obtain ⟨claim, text⟩ := finish
        rw [finishText_intentId hhash hfinish]
        exact .inr ⟨text, update_self ..⟩

/-- In every reachable state of the write log:

* two `begin`s of one claim that both answer `New` have a step between them that frees the claim;
* from a successful `finish` or the commit of a staged one on, whatever happens, the row answers
  every `begin` of its claim, and so does every other final row;
* the id of a claim names the claim, for every operation without `#` and every key, so that
  finishing it touches no other row. -/
theorem claim_runs_at_most_once (host : Host) (past : List Call) :
    let s := System.init.run host past
    (∀ claim first between last, s.AnswersNew host first claim →
      ((s.step host first).run host between).AnswersNew host last claim →
        ∃ before call after, between = before ++ call :: after ∧
          ((s.step host first).run host before).Frees host call claim) ∧
    (∀ client id outcome s', exec host (.finish client id outcome) s = (some (.ok .done), s') →
      ∃ claim text, finishText host.lib id outcome = .ok (claim, text) ∧
        ∃ row ∈ s.table.rows, row.claim = claim ∧ row.result = none ∧
          ∀ later, Settled host (s'.run host later) { row with result := some text }) ∧
    (∀ tx claim text s', s.staged tx = some (claim, text) →
      exec host (.commit tx) s = (some (.ok .done), s') →
        ∃ row ∈ s.table.rows, row.claim = claim ∧ row.result = none ∧ ∀ later,
          Settled host (s'.run host later) { row with result := some text, writer := none }) ∧
    (∀ row ∈ s.table.rows, row.Final → ∀ later, Settled host (s.run host later) row) ∧
    (∀ operation key, '#' ∉ operation.toList →
      (∀ during, claimOf host.lib during (intentId (logOperation operation) key) =
        .ok (logOperation operation, key)) ∧
      (∀ client outcome (row : LogRow), row.claim ≠ (logOperation operation, key) →
        (row ∈ (exec host (.finish client (intentId (logOperation operation) key) outcome)
          s).2.table.rows ↔ row ∈ s.table.rows)) ∧
      ∀ tx outcome, let s' :=
          (exec host (.stage tx (intentId (logOperation operation) key) outcome) s).2
        s'.table = s.table ∧ (s'.staged tx = s.staged tx ∨
          ∃ text, s'.staged tx = some ((logOperation operation, key), text))) := by
  intro s
  refine ⟨?_, ?_, ?_, ?_, ?_⟩
  · intro claim first between last hfirst hlast
    -- The claim has a row after the first call and none before the last, so some call freed it.
    obtain ⟨before, call, after, rfl, hbefore, hafter⟩ :=
      exists_step_of_foldl (P := fun s : System => s.table.lookup claim = none)
        (answersNew_spec hfirst).2 (answersNew_spec hlast).1
    exact ⟨before, call, after, rfl, System.frees_of_step hbefore hafter⟩
  · intro client id outcome s' h
    obtain ⟨claim, text, hfinish, hopen, htable⟩ := finishWith_done h
    obtain ⟨row, hrow, hclaim, hresult, hseen, hmem⟩ := exists_finished text hopen
    have hfinal : LogRow.Final { row with result := some text } :=
      ⟨LogRow.seenBy_store.1 hseen, by simp⟩
    refine ⟨claim, text, hfinish, row, hrow, hclaim, hresult, fun later => ?_⟩
    exact settled_of_final (System.mem_run_of_final (htable ▸ hmem) hfinal later) hfinal
  · intro tx claim text s' hstaged h
    obtain ⟨hopen, htable⟩ := commit_done hstaged h
    obtain ⟨row, hrow, hclaim, hresult, hseen, hmem⟩ := exists_finished text hopen
    have hfinal : LogRow.Final { row with result := some text, writer := none } := ⟨rfl, by simp⟩
    have hcommitted : { row with result := some text, writer := none } ∈ s'.table.rows := by
      rw [htable]
      exact mem_map.2 ⟨_, hmem, LogRow.commit_of_seen hseen⟩
    refine ⟨row, hrow, hclaim, hresult, fun later => ?_⟩
    exact settled_of_final (System.mem_run_of_final hcommitted hfinal later) hfinal
  · intro row hrow hfinal later
    exact settled_of_final (System.mem_run_of_final hrow hfinal later) hfinal
  · intro operation key hhash
    refine ⟨fun during => claimOf_intentId host.lib during key (hash_notMem_logOperation hhash),
      fun client outcome row hne => mem_finishWith_iff hhash hne, fun tx outcome => ?_⟩
    exact ⟨table_stage tx _ outcome, staged_stage hhash⟩

end Wamn.WriteLog
