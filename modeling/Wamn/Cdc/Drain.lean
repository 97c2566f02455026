import Wamn.Events.Wire
import Wamn.Lib.Transaction

/-!
# The change reader

A reader turns the rows of each committed transaction into messages. It buffers rows with their log
positions as their frames arrive, publishes one message per row at the commit frame, and then
confirms the position of the commit. Parameters are the relation maps, the decoding and encoding of
texts, and how a publication ended.
-/

namespace Wamn.Cdc

open Lib Lib.Json Events

/-! ## Frames -/

/-- A column of a decoded row: a text that is or is not valid UTF-8. -/
inductive ColumnValue where
  | null
  | text (utf8 : Except String String)

/-- The columns of a decoded row. An unchanged large column is absent. -/
abbrev RowData := List (String × ColumnValue)

/-- A relation as a frame names it. -/
structure Relation where
  schema : String
  table : String
  oid : ℕ

/-- A changed row. -/
inductive RowChange where
  | insert (relation : Relation) (data : RowData)
  | update (relation : Relation) (oldData : Option RowData) (newData : RowData)
  | delete (relation : Relation) (oldData : RowData)

namespace RowChange

/-- The relation of the row. -/
def relation : RowChange → Relation
  | insert relation _ | update relation _ _ | delete relation _ => relation

/-- The operation. -/
def op : RowChange → Op
  | insert _ _ => .insert
  | update _ _ _ => .update
  | delete _ _ => .delete

/-- The row before. -/
def oldData : RowChange → Option RowData
  | insert _ _ => none
  | update _ oldData _ => oldData
  | delete _ oldData => some oldData

/-- The row after. -/
def newData : RowChange → Option RowData
  | insert _ data | update _ _ data => some data
  | delete _ _ => none

end RowChange

/-- The kinds of frames. -/
inductive EventType where
  | begin (transactionId : ℕ) (commitTimestamp : ℤ)
  | commit (endLsn : ℕ)
  | message (flags : ℕ) (messageType content : String)
  | row (change : RowChange)
  | truncate
  /-- Relation, type and origin frames. -/
  | metadata
  | keepalive (walEnd : ℕ)
  | other

/-- A frame with its log position. -/
structure Frame where
  lsn : ℕ
  eventType : EventType

/-! ## Relations -/

/-- Why a session ends. -/
inductive ReplicationError where
  | protocol (message : String)
  | io (message : String)
  | config (message : String)
  | transientConnection (message : String)

/-- The entity of a relation. -/
structure EntityMapping where
  packageId : String
  entityId : String

/-- A relation that is not published. -/
structure ExcludedRelation where
  packageId : String
  relationId : String

/-- What a relation is to the reader. -/
inductive RelationClassification where
  | entity (mapping : EntityMapping)
  | excluded (excluded : ExcludedRelation)

/-- What the relation maps answer. -/
inductive RelationMapAnswer where
  | row (entityPackageId entityId excludedPackageId relationId : Option String)
  | undefinedTable
  | unavailable (message : String)

/-- The configuration of a reader, and what it takes from the database and its libraries. The maps
answer by OID, which names one relation. -/
structure Reader where
  org : String
  project : String
  env : String
  relationMaps : ℕ → RelationMapAnswer
  debugText : String → String
  decodeCausation : String → Except String Causation
  encode : Envelope → Except String String

/-- `UNMAPPED_MANAGED_RELATION_REFUSAL`. -/
def unmappedManagedRelationRefusal : String := "cdc-unmapped-managed-relation"

/-- `UNMAPPED_MANAGED_RELATION_REMEDY`. -/
def unmappedManagedRelationRemedy : String :=
  "reconcile the installed package relation classifications before resuming CDC publication"

/-- `resolve_relation_classification`: a relation must be in exactly one of the two maps. -/
def resolveRelationClassification (reader : Reader) (schema : String) (oid : ℕ) :
    Except ReplicationError RelationClassification :=
  let unmapped := unmappedManagedRelationRefusal ++ ": schema=" ++ reader.debugText schema
  let remedy := "; remedy: " ++ unmappedManagedRelationRemedy
  match reader.relationMaps oid with
  | .row (some packageId) (some entityId) none none => pure (.entity ⟨packageId, entityId⟩)
  | .row none none (some packageId) (some excludedId) => pure (.excluded ⟨packageId, excludedId⟩)
  | .row none none none none =>
    throw (.config (unmapped ++ " relation_oid=" ++ toString oid ++ remedy))
  | .row _ _ _ _ => throw (.config (unmapped ++ " relation_oid=" ++ toString oid ++
      " has conflicting classifications" ++ remedy))
  | .undefinedTable => throw (.config (unmapped ++ " has incomplete CDC relation maps" ++ remedy))
  | .unavailable message => throw (.transientConnection message)

/-- The tables of the relation maps, which publish nothing. -/
def controlOwnedRelations : List String := ["wamn_entities", "wamn_cdc_exclusions"]

/-! ## The session -/

/-- A row that waits for the commit of its transaction. -/
structure PendingRow where
  op : Op
  old : Option Image
  new : Option Image
  entityMapping : EntityMapping
  table : String
  lsn : ℕ

/-- An open transaction. -/
structure Txn where
  txid : ℕ
  commitTs : ℤ
  causation : Option Causation
  rows : List PendingRow
  excludedByRelation : String → ℕ

/-- The counts of a session. -/
structure DrainSummary where
  commits : ℕ
  published : ℕ
  deduped : ℕ
  truncates : ℕ
  excludedByRelation : String → ℕ

/-- How a session ends. -/
inductive DrainOutcome where
  | shutdown (summary : DrainSummary)
  | severed (error : ReplicationError) (summary : DrainSummary)

/-- What a reader keeps during a session: the open transaction, counts, resolved classifications,
and confirmed positions. -/
structure Session where
  txn : Option Txn
  summary : DrainSummary
  relationClassifications : ℕ → Option RelationClassification
  flushedLsn : ℕ
  appliedLsn : ℕ

/-- A session that starts at a position. -/
def Session.open (lsn : ℕ) : Session :=
  ⟨none, ⟨0, 0, 0, 0, fun _ => 0⟩, fun _ => none, lsn, lsn⟩

/-- A message as it is published, also on a retry. -/
structure PreparedMsg where
  subject : String
  id : String
  payload : String
  deriving DecidableEq

/-- What was stored, and what was dropped as a repetition. -/
structure PublishTally where
  published : ℕ
  deduped : ℕ

/-- How a publication ends. -/
inductive PublishOutcome where
  | acked (tally : PublishTally)
  | cancelledMidRetry

/-! ## Rows -/

/-- The JSON value of a column, which must be UTF-8. -/
def columnToValue (name : String) : ColumnValue → Except ReplicationError Value
  | .null => pure .null
  | .text (.ok text) => pure (.string text)
  | .text (.error e) => throw (.config ("non-UTF-8 value in column " ++ name ++ " (" ++ e ++
      ") — the v3 wire carries pgoutput text as JSON strings; refusing rather than corrupting " ++
      "it (R19). The source database encoding must be UTF-8."))

/-- The image of a row. -/
def rowToMap (row : RowData) : Except ReplicationError Image :=
  row.foldlM (fun image column => do
    let value ← columnToValue column.1 column.2
    pure (Value.insertMember column.1 value image)) []

/-- The image of a row that may be absent. -/
def imageOf : Option RowData → Except ReplicationError (Option Image)
  | none => pure none
  | some row => some <$> rowToMap row

/-- `parse_causation`: the causation in a transactional `wamn.causation` message. -/
def parseCausation (reader : Reader) (flags : ℕ) (messageType content : String) :
    Option Causation :=
  -- The lowest bit says that the message belongs to its transaction.
  if flags % 2 = 0 || messageType ≠ "wamn.causation" then none
  else (reader.decodeCausation content).toOption

/-- The entity of a relation. An excluded one is counted. -/
def publishableEntity (classification : RelationClassification) (excluded : String → ℕ) :
    Option EntityMapping × (String → ℕ) :=
  match classification with
  | .entity mapping => (some mapping, excluded)
  | .excluded relation =>
    let identity := relation.packageId ++ "::" ++ relation.relationId
    (none, fun name => excluded name + if name = identity then 1 else 0)

/-! ## Messages -/

/-- The envelope of a buffered row. -/
def PendingRow.envelope (row : PendingRow) (frame : Txn) : Envelope where
  op := row.op
  old := row.old
  new := row.new
  packageId := row.entityMapping.packageId
  entity := row.entityMapping.entityId
  table := row.table
  lsn := row.lsn
  txid := frame.txid
  commitTs := frame.commitTs
  causation := frame.causation

/-- The message of a buffered row, under its log position. -/
def prepareMsg (reader : Reader) (frame : Txn) (row : PendingRow) :
    Except ReplicationError PreparedMsg := do
  let payload ← (reader.encode (row.envelope frame)).mapError .io
  pure {
    subject := subject reader.org reader.project reader.env row.entityMapping.entityId row.op
    id := msgId reader.project reader.env row.lsn
    payload := payload }

/-- The messages of a transaction. -/
def prepareMsgs (reader : Reader) (frame : Txn) :
    List PendingRow → Except ReplicationError (List PreparedMsg)
  | [] => pure []
  | row :: rest => do
    let msg ← prepareMsg reader frame row
    let msgs ← prepareMsgs reader frame rest
    pure (msg :: msgs)

/-! ## Draining -/

namespace Session

variable (s : Session) (reader : Reader)

/-- `remember_relation_classification`. -/
def remember (oid : ℕ) (resolved : RelationClassification) : Session :=
  { s with
    relationClassifications := Function.update s.relationClassifications oid (some resolved) }

/-- The classification of a relation, remembered for its OID. -/
def classify (s : Session) (relation : Relation) :
    Except ReplicationError (RelationClassification × Session) :=
  match s.relationClassifications relation.oid with
  | some classification => pure (classification, s)
  | none => do
    let resolved ← resolveRelationClassification reader relation.schema relation.oid
    pure (resolved, s.remember relation.oid resolved)

/-- A row frame: the row of a publishable relation is buffered. -/
def buffer (s : Session) (lsn : ℕ) (change : RowChange) : Except ReplicationError Session :=
  -- Such a row is passed over before its relation is looked up.
  if controlOwnedRelations.contains change.relation.table then pure s
  else do
    let (classification, s) ← s.classify reader change.relation
    -- An unmapped relation severs the session before a row outside of a transaction does.
    let some frame := s.txn
      | throw (.protocol "row event outside a Begin/Commit frame")
    match publishableEntity classification frame.excludedByRelation with
    | (none, excluded) => pure { s with txn := some { frame with excludedByRelation := excluded } }
    | (some mapping, excluded) => do
      let old ← imageOf change.oldData
      let new ← imageOf change.newData
      let row : PendingRow := ⟨change.op, old, new, mapping, change.relation.table, lsn⟩
      pure { s with
        txn := some { frame with excludedByRelation := excluded, rows := frame.rows ++ [row] } }

/-- A commit frame: the buffered rows are published, and the end of the commit is confirmed once
they are acknowledged. -/
def commit (s : Session) (endLsn : ℕ) (outcome : PublishOutcome) :
    Except DrainOutcome (Session × List PreparedMsg) := do
  let some frame := s.txn
    | throw (.severed (.protocol "Commit outside a Begin frame") s.summary)
  -- All messages are prepared before the first is sent; a retry sends the same ones.
  let msgs ← (prepareMsgs reader frame frame.rows).mapError fun e => .severed e s.summary
  match outcome with
  -- Nothing is confirmed, so the server sends the transaction again.
  | .cancelledMidRetry => throw (.shutdown s.summary)
  | .acked tally =>
    let summary : DrainSummary := {
      commits := s.summary.commits + 1
      published := s.summary.published + tally.published
      deduped := s.summary.deduped + tally.deduped
      truncates := s.summary.truncates
      excludedByRelation := fun name =>
        s.summary.excludedByRelation name + frame.excludedByRelation name }
    pure ({ s with txn := none, summary := summary, flushedLsn := endLsn, appliedLsn := endLsn },
      msgs)

/-- The causation of the open transaction, if there is one. -/
def stamp (causation : Option Causation) : Session :=
  match causation, s.txn with
  | some causation, some frame => { s with txn := some { frame with causation := some causation } }
  | _, _ => s

/-- A keepalive outside of a transaction confirms what the server has sent. -/
def confirm (walEnd : ℕ) : Session :=
  -- Inside a transaction the position would run ahead of rows that are not published yet.
  if s.txn.isNone && s.flushedLsn < walEnd then
    { s with flushedLsn := walEnd, appliedLsn := walEnd }
  else s

/-- `drain` for one frame: the session and what it published. `outcome` is how the publication
ended. -/
def step (s : Session) (frame : Frame) (outcome : PublishOutcome) :
    Except DrainOutcome (Session × List PreparedMsg) :=
  match frame.eventType with
  | .begin transactionId commitTimestamp =>
    pure ({ s with txn := some ⟨transactionId, commitTimestamp, none, [], fun _ => 0⟩ }, [])
  | .commit endLsn => s.commit reader endLsn outcome
  | .message flags messageType content =>
    pure (s.stamp (parseCausation reader flags messageType content), [])
  | .row change => do
    let s' ← (s.buffer reader frame.lsn change).mapError fun e => .severed e s.summary
    pure (s', [])
  | .truncate =>
    pure ({ s with summary := { s.summary with truncates := s.summary.truncates + 1 } }, [])
  | .keepalive walEnd => pure (s.confirm walEnd, [])
  | .metadata | .other => pure (s, [])

/-- A session over frames, with all that it published. -/
def run (reader : Reader) : Session → List (Frame × PublishOutcome) →
    Except DrainOutcome (Session × List PreparedMsg)
  | s, [] => pure (s, [])
  | s, (frame, outcome) :: rest => do
    let (s₁, msgs) ← s.step reader frame outcome
    let (s₂, later) ← run reader s₁ rest
    pure (s₂, msgs ++ later)

end Session

end Wamn.Cdc
