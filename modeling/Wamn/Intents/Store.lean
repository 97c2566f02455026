import Mathlib.Data.Nat.Notation
import Wamn.Lib.Decimal
import Wamn.Lib.Json
import Wamn.Lib.Keyed
import Wamn.Lib.Transaction
import Wamn.Lib.Transition

/-!
# The intent store of the edge

An operation call writes an intent before its export runs, and its outcome when it has run: one row
per tenant and idempotency key. A row is open until it is finished or an operator resolves it;
releasing an open intent deletes its row. A table here carries the constraints of the schema.

Every call is one transaction, which may fail in the storage or commit without its caller hearing.
The database picks row ids, also that of a deleted row.
-/

namespace Wamn.Intents

open List Lib Lib.Decimal Lib.Json

/-! ## Vocabulary -/

/-- What an operator's decision rests on. -/
inductive OperatorActionBasis where
  | externalEvidence
  | counterpartyConfirmation
  | operatorJudgment
  deriving DecidableEq

def OperatorActionBasis.asStr : OperatorActionBasis → String
  | externalEvidence => "external-evidence"
  | counterpartyConfirmation => "counterparty-confirmation"
  | operatorJudgment => "operator-judgment"

def OperatorActionBasis.fromStr (value : String) : Option OperatorActionBasis :=
  if value = "external-evidence" then some externalEvidence
  else if value = "counterparty-confirmation" then some counterpartyConfirmation
  else if value = "operator-judgment" then some operatorJudgment
  else none

lemma OperatorActionBasis.fromStr_asStr (basis : OperatorActionBasis) :
    fromStr basis.asStr = some basis := by
  cases basis <;> decide

inductive StoreErrorType where
  | storage
  | contract
  deriving DecidableEq

structure StoreError where
  type : StoreErrorType
  operation : String
  detail : String
  deriving DecidableEq

def contract (operation detail : String) : StoreError := ⟨.contract, operation, detail⟩

/-- A failure of the storage, the clock or the lock. -/
def storage (operation detail : String) : StoreError := ⟨.storage, operation, detail⟩

/-- What the store takes from the libraries it is built with. -/
structure Library where
  /-- The quoted form of a text in messages. -/
  debugText : String → String
  /-- The JSON text of a value, or why it has none. -/
  encode : Value → Except String String
  /-- The value of a JSON text, or why it is none. -/
  decode : String → Except String Value

structure Intent where
  tenant : String
  release : String
  package : String
  operation : String
  idempotencyKey : String
  inputHash : String
  deadlineMs : ℕ
  deriving DecidableEq

/-- The fields of an intent, with a deadline that fits its column. -/
structure OwnedIntent where
  tenant : String
  release : String
  package : String
  operation : String
  idempotencyKey : String
  inputHash : String
  deadlineMs : ℤ
  deriving DecidableEq

def OwnedIntent.key (intent : OwnedIntent) : String × String :=
  (intent.tenant, intent.idempotencyKey)

/-- What a store answers to a call that wants to run, with outcomes in some form. -/
inductive Begun (α : Type) where
  | new (id : String)
  | finished (outcome : α)
  | uncertain (id : String)
  | resolved (id : String) (basis : OperatorActionBasis)
  | conflict (id : String)
  deriving DecidableEq

/-! ## The table -/

structure IntentRow where
  id : ℤ
  tenant : String
  release : String
  package : String
  operation : String
  idempotencyKey : String
  inputHash : String
  deadlineMs : ℤ
  begunAt : ℤ
  finishedAt : Option ℤ
  outcome : Option String
  resolvedBasis : Option String
  resolvedAt : Option ℤ
  deriving DecidableEq

namespace IntentRow

variable (row : IntentRow)

def key : String × String := (row.tenant, row.idempotencyKey)

def Checked : Prop :=
  row.finishedAt.isNone = row.outcome.isNone ∧
    row.resolvedBasis.isNone = row.resolvedAt.isNone ∧
    (row.finishedAt.isNone = true ∨ row.resolvedAt.isNone = true)

/-- What the guards of `finish`, `release` and `resolve` ask for. -/
def isOpen : Bool := row.finishedAt.isNone && row.resolvedAt.isNone

def finish (now : ℤ) (outcome : String) : IntentRow :=
  { row with finishedAt := some now, outcome := some outcome }

def resolve (now : ℤ) (basis : OperatorActionBasis) : IntentRow :=
  { row with resolvedBasis := some basis.asStr, resolvedAt := some now }

end IntentRow

/-- The table `intents`, under the constraints of its schema. -/
structure Table where
  rows : List IntentRow
  unique_id : (rows.map IntentRow.id).Nodup
  unique_key : (rows.map IntentRow.key).Nodup
  checked : ∀ row ∈ rows, row.Checked

namespace Table

def empty : Table := ⟨[], nodup_nil, nodup_nil, by simp⟩

def lookup (s : Table) (key : String × String) : Option IntentRow :=
  s.rows.find? fun row => row.key = key

/-- Add an open row, unless its id or key is taken. -/
def insert (s : Table) (row : IntentRow) (hchecked : row.Checked) : Option Table :=
  if h : row.id ∉ s.rows.map IntentRow.id ∧ row.key ∉ s.rows.map IntentRow.key then
    some {
      rows := row :: s.rows
      unique_id := nodup_cons.2 ⟨h.1, s.unique_id⟩
      unique_key := nodup_cons.2 ⟨h.2, s.unique_key⟩
      checked := by
        intro row' hrow'
        rcases mem_cons.1 hrow' with rfl | hrow'
        · exact hchecked
        · exact s.checked row' hrow' }
  else none

/-- `UPDATE ... WHERE id = ? AND finished_at IS NULL AND resolved_at IS NULL`, which keeps id, key
and checks. -/
def update (s : Table) (id : ℤ) (change : IntentRow → IntentRow)
    (hid : ∀ row, (change row).id = row.id) (hkey : ∀ row, (change row).key = row.key)
    (hchecked : ∀ row, row.Checked → row.isOpen = true → (change row).Checked) : Table where
  rows := s.rows.map fun row => if row.id = id ∧ row.isOpen = true then change row else row
  unique_id := Keyed.nodup_map_of_key s.unique_id fun row => by
    split
    · exact hid row
    · rfl
  unique_key := Keyed.nodup_map_of_key s.unique_key fun row => by
    split
    · exact hkey row
    · rfl
  checked := by
    intro row' hrow'
    obtain ⟨row, hrow, rfl⟩ := mem_map.1 hrow'
    split
    · rename_i hopen
      exact hchecked row (s.checked row hrow) hopen.2
    · exact s.checked row hrow

/-- `DELETE ... WHERE id = ? AND finished_at IS NULL AND resolved_at IS NULL`. -/
def delete (s : Table) (id : ℤ) : Table where
  rows := s.rows.filter fun row => !(row.id = id && row.isOpen)
  unique_id := s.unique_id.sublist (filter_sublist.map _)
  unique_key := s.unique_key.sublist (filter_sublist.map _)
  checked := fun row hrow => s.checked row (mem_of_mem_filter hrow)

/-- Whether a guarded statement has a row to change. -/
def hasOpen (s : Table) (id : ℤ) : Bool := s.rows.any fun row => row.id = id && row.isOpen

end Table

/-! ## Operations -/

/-- The clock of a transaction, if it can be read, and the row id that the database picks. -/
structure Moment where
  now : Except String ℤ
  rowid : ℤ

def nowMs (moment : Moment) (operation : String) : Except StoreError ℤ :=
  moment.now.mapError (storage operation)

variable (lib : Library)

/-- The row id that an intent id names as decimal text. -/
def rowId (operation id : String) : Except StoreError ℤ :=
  match parseI64 id with
  | some n => pure n
  | none => throw (contract operation ("intent id " ++ lib.debugText id ++ " is not a row id"))

def newRow (intent : OwnedIntent) (rowid now : ℤ) : IntentRow where
  id := rowid
  tenant := intent.tenant
  release := intent.release
  package := intent.package
  operation := intent.operation
  idempotencyKey := intent.idempotencyKey
  inputHash := intent.inputHash
  deadlineMs := intent.deadlineMs
  begunAt := now
  finishedAt := none
  outcome := none
  resolvedBasis := none
  resolvedAt := none

/-- What a stored row answers to a call with its key. -/
def answerStored (row : IntentRow) (inputHash : String) : Except StoreError (Begun String) :=
  if row.inputHash ≠ inputHash then pure (.conflict (toString row.id))
  else match row.outcome, row.resolvedBasis with
    | some outcome, _ => pure (.finished outcome)
    | none, some basis =>
      match OperatorActionBasis.fromStr basis with
      | some basis => pure (.resolved (toString row.id) basis)
      | none => throw (contract "begin" ("stored basis: unknown operator action basis " ++
          lib.debugText basis ++
          "; expected external-evidence, counterparty-confirmation, or operator-judgment"))
    | none, none => pure (.uncertain (toString row.id))

/-- Read the key and insert it when it is new. -/
def begin (lib : Library) (moment : Moment) (intent : OwnedIntent) (s : Table) :
    Except StoreError (Begun String × Table) :=
  match s.lookup intent.key with
  | some row => do
    let answer ← answerStored lib row intent.inputHash
    pure (answer, s)
  | none => do
    let now ← nowMs moment "begin"
    match s.insert (newRow intent moment.rowid now) ⟨rfl, rfl, .inl rfl⟩ with
    | some s' => pure (.new (toString moment.rowid), s')
    | none => throw (storage "begin" "constraint failed")

/-- Record the exact text of an open intent's outcome. -/
def finishTextIn (moment : Moment) (id outcome : String) (s : Table) :
    Except StoreError (Unit × Table) := do
  let id ← rowId lib "finish" id
  let now ← nowMs moment "finish"
  if s.hasOpen id then
    pure ((), s.update id (fun row => row.finish now outcome) (fun _ => rfl) (fun _ => rfl) (by
      rintro row ⟨-, hresolved, -⟩ hopen
      have hnone := (Bool.and_eq_true_iff.1 hopen).2
      exact ⟨rfl, hresolved, .inr hnone⟩))
  else throw (contract "finish" ("intent " ++ toString id ++ " is not open"))

def release (lib : Library) (id : String) (s : Table) : Except StoreError (Unit × Table) := do
  let id ← rowId lib "release" id
  if s.hasOpen id then pure ((), s.delete id)
  else throw (contract "release" ("intent " ++ toString id ++ " is not open"))

/-- Close an open intent by an operator's decision. -/
def resolve (lib : Library) (moment : Moment) (id : String) (basis : OperatorActionBasis)
    (s : Table) : Except StoreError (Unit × Table) := do
  let id ← rowId lib "resolve" id
  let now ← nowMs moment "resolve"
  if s.hasOpen id then
    pure ((), s.update id (fun row => row.resolve now basis) (fun _ => rfl) (fun _ => rfl) (by
      rintro row ⟨hfinished, -, -⟩ hopen
      have hnone := (Bool.and_eq_true_iff.1 hopen).1
      exact ⟨hfinished, rfl, .inl hnone⟩))
  else throw (contract "resolve" ("intent " ++ toString id ++ " is not uncertain"))

/-! ## Calls -/

def Intent.owned (intent : Intent) : Except StoreError OwnedIntent :=
  if intent.deadlineMs ≤ 9223372036854775807 then
    pure {
      tenant := intent.tenant
      release := intent.release
      package := intent.package
      operation := intent.operation
      idempotencyKey := intent.idempotencyKey
      inputHash := intent.inputHash
      deadlineMs := intent.deadlineMs }
  else
    throw (contract "begin" ("deadline " ++ toString intent.deadlineMs ++ " ms does not fit"))

def storedOutcome (outcome : String) : Except StoreError Value :=
  (lib.decode outcome).mapError fun error =>
    contract "begin" ("stored outcome is not JSON: " ++ error)

/-- The answer of `begin_text` as the trait gives it. -/
def Begun.decoded : Begun String → Except StoreError (Begun Value)
  | .new id => pure (.new id)
  | .finished outcome => do
    let value ← storedOutcome lib outcome
    pure (.finished value)
  | .uncertain id => pure (.uncertain id)
  | .resolved id basis => pure (.resolved id basis)
  | .conflict id => pure (.conflict id)

inductive Request where
  | beginText (intent : Intent)
  | begin (intent : Intent)
  | finishText (id outcome : String)
  | finish (id : String) (outcome : Value)
  | release (id : String)
  | resolve (id : String) (basis : OperatorActionBasis)

inductive Answer where
  | text (begun : Begun String)
  | json (begun : Begun Value)
  | done

/-- One request as a transaction: its answer and the table it commits. -/
def serve (moment : Moment) (request : Request) (s : Table) : Except StoreError (Answer × Table) :=
  match request with
  | .beginText intent => do
    let row ← intent.owned
    let (begun, s') ← begin lib moment row s
    pure (.text begun, s')
  | .begin intent => do
    let row ← intent.owned
    let (begun, s') ← begin lib moment row s
    -- The transaction has committed when the outcome is decoded, but a finished key changed
    -- nothing.
    let begun ← begun.decoded lib
    pure (.json begun, s')
  | .finishText id outcome => do
    let (_, s') ← finishTextIn lib moment id outcome s
    pure (.done, s')
  | .finish id outcome => do
    let value ← (lib.encode outcome).mapError fun error =>
      contract "finish" ("encode outcome: " ++ error)
    let (_, s') ← finishTextIn lib moment id value s
    pure (.done, s')
  | .release id => do
    let (_, s') ← release lib id s
    pure (.done, s')
  | .resolve id basis => do
    let (_, s') ← resolve lib moment id basis s
    pure (.done, s')

inductive Fate where
  /-- It runs and its caller hears the answer. -/
  | heard
  /-- The lock, the connection or a statement fails, and nothing is committed. -/
  | failed (error : StoreError)
  /-- It runs, but its caller or the process is gone before the answer. -/
  | unheard

structure Call where
  request : Request
  moment : Moment
  fate : Fate

namespace Table

def step (lib : Library) (s : Table) (call : Call) : Table :=
  match call.fate with
  | .failed _ => s
  | _ => commit (serve lib call.moment call.request) s

def answer (lib : Library) (s : Table) (call : Call) : Option (Except StoreError Answer) :=
  match call.fate with
  | .heard => some ((serve lib call.moment call.request s).map Prod.fst)
  | .failed error => some (.error error)
  | .unheard => none

def run (lib : Library) (s : Table) (calls : List Call) : Table := calls.foldl (step lib) s

end Table

end Wamn.Intents
