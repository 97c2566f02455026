import Mathlib.Logic.Function.Basic
import Wamn.Intents.Store

/-!
# The write log

`platform.write_log` is the intent store of the server: a row per unversioned operation and
idempotency key, open while it has no result. An operation with SQL claims its key inside the
transaction of its work (`Runner.transaction`), one without SQL in statements that commit at once
(`Runner.store`).

A `begin` that finds its key taken reads the row in a second statement, and others act in between.
An insert of a key that an open transaction has waits until that ends.
-/

namespace Wamn.WriteLog

open Lib Lib.Json Lib.Text Intents Function

/-! ## Ids -/

/-- The operation without its `@version`. -/
def logOperation (operation : String) : String :=
  match splitOnce '@' operation.toList with
  | some (name, _) => String.ofList name
  | none => operation

def intentId (operation key : String) : String := operation ++ "#" ++ key

/-- The log operation and the key that an intent id names. -/
def claimOf (lib : Library) (operation id : String) : Except StoreError (String × String) :=
  match splitOnce '#' id.toList with
  | some (name, key) => pure (String.ofList name, String.ofList key)
  | none =>
    throw (contract operation ("intent id " ++ lib.debugText id ++ " is not a write log claim"))

def claimed (intent : Intent) : String × String :=
  (logOperation intent.operation, intent.idempotencyKey)

def claimId (intent : Intent) : String :=
  intentId (logOperation intent.operation) intent.idempotencyKey

/-! ## The table -/

inductive Runner where
  /-- `WriteLogStore`: every statement alone, committed at once. -/
  | store (client : ℕ)
  /-- `OperationTransaction`: every statement in the transaction of the request element. -/
  | transaction (id : ℕ)
  deriving DecidableEq

/-- The transaction that a statement of the runner belongs to, unless it commits at once. -/
def Runner.writer : Runner → Option ℕ
  | store _ => none
  | transaction id => some id

structure LogRow where
  operation : String
  idempotencyKey : String
  request : String
  result : Option String
  /-- The open transaction that inserted the row, if it has not committed. -/
  writer : Option ℕ
  deriving DecidableEq

namespace LogRow

def claim (row : LogRow) : String × String := (row.operation, row.idempotencyKey)

def Checked (row : LogRow) : Prop :=
  row.operation ≠ "" ∧ row.idempotencyKey ≠ "" ∧ row.request ≠ ""

instance (row : LogRow) : Decidable row.Checked :=
  inferInstanceAs (Decidable (_ ∧ _ ∧ _))

/-- The runner sees committed rows and those of its own transaction. -/
def seenBy (row : LogRow) (runner : Runner) : Bool :=
  row.writer = none || row.writer = runner.writer

def finish (runner : Runner) (claim : String × String) (result : String) (row : LogRow) : LogRow :=
  if row.seenBy runner && row.claim = claim && row.result = none then
    { row with result := some result }
  else row

def commit (id : ℕ) (row : LogRow) : LogRow :=
  if row.writer = some id then { row with writer := none } else row

end LogRow

/-- Committed and uncommitted rows, under the constraints of the schema. -/
structure Table where
  rows : List LogRow
  unique : (rows.map LogRow.claim).Nodup
  checked : ∀ row ∈ rows, row.Checked

namespace Table

def empty : Table := ⟨[], by simp, by simp⟩

variable (t : Table) (runner : Runner)

def lookup (claim : String × String) : Option LogRow :=
  t.rows.find? fun row => row.claim = claim

def insert (row : LogRow) (hchecked : row.Checked) (hfree : t.lookup row.claim = none) : Table where
  rows := row :: t.rows
  unique := Keyed.nodup_cons_of_fresh t.unique (Keyed.find?_eq_none.1 hfree)
  checked := by
    intro row' hrow'
    rcases List.mem_cons.1 hrow' with rfl | hrow'
    · exact hchecked
    · exact t.checked row' hrow'

/-- The table with every row changed in its result or its writer. -/
def change (f : LogRow → LogRow) (hclaim : ∀ row, (f row).claim = row.claim)
    (hchecked : ∀ row, row.Checked → (f row).Checked) : Table where
  rows := t.rows.map f
  unique := Keyed.nodup_map_of_key t.unique hclaim
  checked := by
    intro row' hrow'
    obtain ⟨row, hrow, rfl⟩ := List.mem_map.1 hrow'
    exact hchecked row (t.checked row hrow)

def keep (p : LogRow → Bool) : Table where
  rows := t.rows.filter p
  unique := t.unique.sublist (List.filter_sublist.map _)
  checked := fun row hrow => t.checked row (List.mem_of_mem_filter hrow)

/-- What an insert with `ON CONFLICT DO NOTHING` comes to. -/
inductive Claimed where
  | inserted (t : Table)
  /-- A row the runner sees holds the key. -/
  | present
  /-- The open transaction of another runner holds the key. -/
  | waits
  /-- A check refuses the row. -/
  | refused

def claim (row : LogRow) : Claimed :=
  if hchecked : row.Checked then
    match hfound : t.lookup row.claim with
    | some held => if held.seenBy runner then .present else .waits
    | none => .inserted (t.insert row hchecked hfound)
  else .refused

def read (claim : String × String) : Option LogRow :=
  t.rows.find? fun row => row.seenBy runner && row.claim = claim

/-- Whether a statement guarded by `result IS NULL` finds the row of a claim. -/
def hasOpen (claim : String × String) : Bool :=
  t.rows.any fun row => row.seenBy runner && row.claim = claim && row.result = none

/-- `FINISH_SQL` and the update of `COMMIT_FINISH_SQL`. -/
def finish (claim : String × String) (result : String) : Table :=
  t.change (LogRow.finish runner claim result)
    (by intro row; unfold LogRow.finish; split <;> rfl)
    (by intro row hrow; unfold LogRow.finish; split <;> exact hrow)

def release (claim : String × String) : Table :=
  t.keep fun row => !(row.seenBy runner && row.claim = claim && row.result = none)

def commit (id : ℕ) : Table :=
  t.change (LogRow.commit id)
    (by intro row; unfold LogRow.commit; split <;> rfl)
    (by intro row hrow; unfold LogRow.commit; split <;> exact hrow)

def rollback (id : ℕ) : Table := t.keep fun row => row.writer ≠ some id

end Table

/-! ## The stores -/

structure Host where
  lib : Library
  envKey : String
  /-- `known_result` of a transaction. -/
  known : ℕ → Option String

/-- The table and what the runners keep between their statements. -/
structure System where
  table : Table
  /-- The pending finish of a transaction: its claim and its result. -/
  staged : ℕ → Option ((String × String) × String)
  /-- The call of a `begin` that found its key taken and has yet to read the row. -/
  reading : Runner → Option Intent

namespace System

def init : System := ⟨Table.empty, fun _ => none, fun _ => none⟩

/-- A failed statement destroys the connection, which rolls an open transaction back. -/
def fail (s : System) : Runner → System
  | .store client => { s with reading := update s.reading (.store client) none }
  | .transaction id => {
      table := s.table.rollback id
      staged := update s.staged id none
      reading := update s.reading (.transaction id) none }

end System

inductive Action where
  /-- The first statement of a `begin`. -/
  | begin (runner : Runner) (intent : Intent)
  /-- The second statement of a `begin`. -/
  | read (runner : Runner)
  /-- `WriteLogStore::finish`. -/
  | finish (client : ℕ) (id : String) (outcome : Value)
  /-- `WriteLogStore::release`. -/
  | release (client : ℕ) (id : String)
  /-- `OperationTransaction::finish`. -/
  | stage (tx : ℕ) (id : String) (outcome : Value)
  | commit (tx : ℕ)
  | rollback (tx : ℕ)

def Action.runner : Action → Runner
  | begin runner _ | read runner => runner
  | finish client _ _ | release client _ => .store client
  | stage tx _ _ | commit tx | rollback tx => .transaction tx

inductive Reply where
  | begun (begun : Begun Value)
  | done

variable (host : Host) (runner : Runner)

/-- The row that a `begin` inserts. A store has no known result. -/
def claimRow (intent : Intent) : LogRow where
  operation := logOperation intent.operation
  idempotencyKey := intent.idempotencyKey
  request := intent.inputHash
  result := runner.writer.bind host.known
  writer := runner.writer

/-- What a stored row answers to a `begin`. -/
def answerRow (lib : Library) (intent : Intent) (row : LogRow) : Except StoreError (Begun Value) :=
  if row.request ≠ intent.inputHash then pure (.conflict (claimId intent))
  else match row.result with
    | some result =>
      match lib.decode result with
      | .ok value => pure (.finished value)
      | .error error => throw (contract "begin" ("stored result is not JSON: " ++ error))
    | none => pure (.uncertain (claimId intent))

/-- An answer, if there is one yet, and the new state. -/
abbrev Outcome := Option (Except StoreError Reply) × System

/-- `begin_with` up to its first statement. A store refuses another environment. -/
def beginWith (intent : Intent) (s : System) : Outcome :=
  if runner.writer = none ∧ intent.tenant ≠ host.envKey then
    (some (.error (contract "begin" ("the write log of " ++ host.envKey ++ " holds no key of " ++
      intent.tenant))), s)
  else match s.table.claim runner (claimRow host runner intent) with
    | .inserted t => (some (.ok (.begun (.new (claimId intent)))), { s with table := t })
    | .present => (none, { s with reading := update s.reading runner (some intent) })
    | .waits => (none, s)
    | .refused => (some (.error (storage "begin" "check constraint")), s.fail runner)

/-- `begin_with` from its second statement on. -/
def readWith (s : System) : Outcome :=
  match s.reading runner with
  | none => (none, s)
  | some intent =>
    let answer := match s.table.read runner (claimed intent) with
      | some row => (answerRow host.lib intent row).map Reply.begun
      | none => .error (contract "begin" ("claim " ++ claimId intent ++ " has no row"))
    (some answer, { s with reading := update s.reading runner none })

/-- The claim of an id and the text of an outcome. -/
def finishText (lib : Library) (id : String) (outcome : Value) :
    Except StoreError ((String × String) × String) := do
  let claim ← claimOf lib "finish" id
  let result ← (lib.encode outcome).mapError fun error =>
    contract "finish" ("encode outcome: " ++ error)
  pure (claim, result)

def finishWith (client : ℕ) (id : String) (outcome : Value) (s : System) : Outcome :=
  match finishText host.lib id outcome with
  | .error error => (some (.error error), s)
  | .ok (claim, result) =>
    if s.table.hasOpen (.store client) claim then
      (some (.ok .done), { s with table := s.table.finish (.store client) claim result })
    else (some (.error (contract "finish" ("claim " ++ id ++ " is not open"))), s)

def releaseClaim (client : ℕ) (id : String) (s : System) : Outcome :=
  match claimOf host.lib "release" id with
  | .error error => (some (.error error), s)
  | .ok claim =>
    if s.table.hasOpen (.store client) claim then
      (some (.ok .done), { s with table := s.table.release (.store client) claim })
    else (some (.error (contract "release" ("claim " ++ id ++ " is not open"))), s)

/-- `OperationTransaction::finish`: the result waits for the commit. -/
def stage (tx : ℕ) (id : String) (outcome : Value) (s : System) : Outcome :=
  if (host.known tx).isSome then (some (.ok .done), s)
  else match finishText host.lib id outcome with
    | .error error => (some (.error error), s)
    | .ok finish =>
      if (s.staged tx).isSome then
        (some (.error (contract "finish" "the request element already has a pending finish")), s)
      else (some (.ok .done), { s with staged := update s.staged tx (some finish) })

/-- A pending finish that finds no open claim aborts the transaction. -/
def commit (tx : ℕ) (s : System) : Outcome :=
  let done (t : Table) : System := {
    table := t.commit tx
    staged := update s.staged tx none
    reading := update s.reading (.transaction tx) none }
  match s.staged tx with
  | none => (some (.ok .done), done s.table)
  | some (claim, result) =>
    if s.table.hasOpen (.transaction tx) claim then
      (some (.ok .done), done (s.table.finish (.transaction tx) claim result))
    else (some (.error (storage "commit" "division by zero")), s.fail (.transaction tx))

/-- One action. A runner that has yet to read a row begins nothing else. -/
def exec (action : Action) (s : System) : Outcome :=
  match action with
  | .begin runner intent =>
    if (s.reading runner).isSome then (none, s) else beginWith host runner intent s
  | .read runner => readWith host runner s
  | .finish client id outcome => finishWith host client id outcome s
  | .release client id => releaseClaim host client id s
  | .stage tx id outcome => stage host tx id outcome s
  | .commit tx => commit tx s
  | .rollback tx => (some (.ok .done), s.fail (.transaction tx))

/-- One action of some runner, and what becomes of its statement. -/
structure Call where
  action : Action
  fate : Fate

namespace System

def step (host : Host) (s : System) (call : Call) : System :=
  match call.fate with
  | .failed _ => s.fail call.action.runner
  | _ => (exec host call.action s).2

def answer (host : Host) (s : System) (call : Call) : Option (Except StoreError Reply) :=
  match call.fate with
  | .heard => (exec host call.action s).1
  | .failed error => some (.error error)
  | .unheard => none

def run (host : Host) (s : System) (calls : List Call) : System := calls.foldl (step host) s

end System

end Wamn.WriteLog
