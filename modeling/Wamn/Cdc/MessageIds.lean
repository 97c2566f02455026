import Wamn.Cdc.Drain
import Wamn.Lib.Decimal
import Wamn.Lib.DedupStream

/-!
# The message ids of one transaction

Every buffered row is published under an id made of its log position, and the stream drops a message
whose id it remembers. PostgreSQL writes the rows of a bulk insert into one log record, and all of
them are decoded at its position. Where such a record brings two publishable rows, they share an id,
and the stream stores only the first.
-/

namespace Wamn.Cdc

open List Lib Lib.Json Events

/-! ## Transactions in the log -/

/-- A record of the log with the row changes decoded from it, more than one for a multi-insert, or a
frame of another kind. -/
inductive LogItem where
  | record (lsn : ℕ) (changes : List RowChange)
  | message (lsn flags : ℕ) (messageType content : String)
  | truncate (lsn : ℕ)
  | metadata (lsn : ℕ)
  | keepalive (walEnd : ℕ)

namespace LogItem

/-- The frames of an item. All rows of a record come at its position. -/
def frames : LogItem → List Frame
  | record lsn changes => changes.map fun change => ⟨lsn, .row change⟩
  | message lsn flags messageType content => [⟨lsn, .message flags messageType content⟩]
  | truncate lsn => [⟨lsn, .truncate⟩]
  | metadata lsn => [⟨lsn, .metadata⟩]
  | keepalive walEnd => [⟨walEnd, .keepalive walEnd⟩]

/-- The position of a record. -/
def recordLsn? : LogItem → Option ℕ
  | record lsn _ => some lsn
  | _ => none

end LogItem

/-- A committed transaction, with the keepalives sent since the one before it. -/
structure LogTransaction where
  idle : List ℕ
  transactionId : ℕ
  commitTimestamp : ℤ
  beginLsn : ℕ
  items : List LogItem
  commitLsn : ℕ
  endLsn : ℕ

/-- The frames of a transaction. -/
def LogTransaction.frames (t : LogTransaction) : List Frame :=
  (t.idle.map fun walEnd => ⟨walEnd, .keepalive walEnd⟩) ++
    ⟨t.beginLsn, .begin t.transactionId t.commitTimestamp⟩ ::
      (t.items.flatMap LogItem.frames ++ [⟨t.commitLsn, .commit t.endLsn⟩])

/-- A stretch of the log in commit order. Every record has its own position. -/
structure Log where
  transactions : List LogTransaction
  distinct : ((transactions.flatMap LogTransaction.items).filterMap LogItem.recordLsn?).Nodup

namespace Log

/-- The items of all transactions. -/
def items (log : Log) : List LogItem := log.transactions.flatMap LogTransaction.items

/-- The frames of all transactions. -/
def frames (log : Log) : List Frame := log.transactions.flatMap LogTransaction.frames

end Log

/-- The relation is an entity. -/
def RelationClassification.isEntity : RelationClassification → Bool
  | entity _ => true
  | excluded _ => false

/-- The table of the row holds no relation map, and its relation is an entity. -/
def Reader.publishes (reader : Reader) (change : RowChange) : Bool :=
  !controlOwnedRelations.contains change.relation.table &&
    ((resolveRelationClassification reader change.relation.schema
      change.relation.oid).toOption.any RelationClassification.isEntity)

/-- The positions that a frame adds to the buffer. -/
def Frame.publishedLsns (reader : Reader) (frame : Frame) : List ℕ :=
  match frame.eventType with
  | .row change => if reader.publishes change then [frame.lsn] else []
  | _ => []

/-- The frame neither begins nor commits a transaction. -/
def Frame.isInner (frame : Frame) : Bool :=
  match frame.eventType with
  | .begin _ _ | .commit _ => false
  | _ => true

/-! ## What a step buffers -/

/-- What the session remembers is what the maps say. -/
def Session.Agrees (reader : Reader) (s : Session) : Prop :=
  ∀ oid classification, s.relationClassifications oid = some classification →
    ∀ schema, resolveRelationClassification reader schema oid = .ok classification

variable {reader : Reader} {s s' : Session} {msgs : List PreparedMsg}

variable {classification : RelationClassification} {change : RowChange} {outcome : PublishOutcome}
  {labels : List (Frame × PublishOutcome)}

lemma resolve_congr {schema : String} {oid : ℕ}
    (h : resolveRelationClassification reader schema oid = .ok classification) (schema' : String) :
    resolveRelationClassification reader schema' oid = .ok classification := by
  unfold resolveRelationClassification at h ⊢
  split at h <;> first | exact h | cases h

/-- Classifying answers what the maps say, and keeps the session in agreement. -/
theorem classify_eq_ok {relation : Relation} (hs : s.Agrees reader)
    (h : s.classify reader relation = .ok (classification, s')) :
    resolveRelationClassification reader relation.schema relation.oid = .ok classification ∧
      s'.Agrees reader ∧ s'.txn = s.txn := by
  unfold Session.classify at h
  split at h
  · rename_i hknown
    obtain ⟨rfl, rfl⟩ := done_eq_ok.1 h
    exact ⟨hs _ _ hknown _, hs, rfl⟩
  · obtain ⟨resolved, hresolved, h⟩ := bind_eq_ok.1 h
    obtain ⟨rfl, rfl⟩ := done_eq_ok.1 h
    refine ⟨hresolved, fun oid known hknown schema => ?_, rfl⟩
    simp only [Session.remember, Function.update_apply] at hknown
    split at hknown
    · subst oid
      obtain rfl := Option.some.inj hknown
      exact resolve_congr hresolved schema
    · exact hs oid known hknown schema

/-- A row of a managed relation is published exactly if its relation is an entity. -/
theorem publishes_of_resolved
    (hmanaged : controlOwnedRelations.contains change.relation.table = false)
    (h : resolveRelationClassification reader change.relation.schema change.relation.oid =
      .ok classification) : reader.publishes change = classification.isEntity := by
  rw [Reader.publishes, hmanaged, h]
  rfl

/-- The open transaction gets rows at the given positions. -/
def Adds (s s' : Session) (lsns : List ℕ) : Prop :=
  ∀ frame, s.txn = some frame → ∃ frame', s'.txn = some frame' ∧
    frame'.rows.map PendingRow.lsn = frame.rows.map PendingRow.lsn ++ lsns

lemma adds_of_eq (h : s'.txn = s.txn) : Adds s s' [] := by
  intro frame hframe
  exact ⟨frame, h.trans hframe, by simp⟩

lemma buffer_eq_ok {lsn : ℕ} (hs : s.Agrees reader) (h : s.buffer reader lsn change = .ok s') :
    s'.Agrees reader ∧ Adds s s' (if reader.publishes change then [lsn] else []) := by
  unfold Session.buffer at h
  split at h
  · rename_i hcontrol
    obtain rfl := pure_eq_ok.1 h
    have hpublishes : reader.publishes change = false := by rw [Reader.publishes, hcontrol]; rfl
    rw [hpublishes]
    exact ⟨hs, adds_of_eq rfl⟩
  · rename_i hmanaged
    obtain ⟨⟨classification, s₁⟩, hclassify, h⟩ := bind_eq_ok.1 h
    obtain ⟨hresolved, hs₁, htxn₁⟩ := classify_eq_ok hs hclassify
    rw [publishes_of_resolved (Bool.eq_false_iff.2 hmanaged) hresolved]
    cases htxn : s.txn with
    -- A row outside of a transaction severs the session.
    | none =>
      simp only [htxn₁, htxn] at h
      cases h
    | some frame =>
      simp only [htxn₁, htxn] at h
      cases classification with
      | excluded relation =>
        obtain rfl := pure_eq_ok.1 h
        refine ⟨hs₁, fun frame' hframe' => ⟨_, rfl, ?_⟩⟩
        obtain rfl := Option.mem_unique htxn hframe'
        simp [RelationClassification.isEntity]
      | entity mapping =>
        obtain ⟨old, -, h⟩ := bind_eq_ok.1 h
        obtain ⟨new, -, h⟩ := bind_eq_ok.1 h
        obtain rfl := pure_eq_ok.1 h
        refine ⟨hs₁, fun frame' hframe' => ⟨_, rfl, ?_⟩⟩
        obtain rfl := Option.mem_unique htxn hframe'
        simp [RelationClassification.isEntity]

lemma prepareMsgs_eq_ok {frame : Txn} {rows : List PendingRow}
    (h : prepareMsgs reader frame rows = .ok msgs) :
    msgs.map PreparedMsg.id =
      (rows.map PendingRow.lsn).map (msgId reader.project reader.env) := by
  induction rows generalizing msgs with
  | nil =>
    obtain rfl := pure_eq_ok.1 h
    rfl
  | cons row rest ih =>
    obtain ⟨msg, hmsg, h⟩ := bind_eq_ok.1 h
    obtain ⟨later, hlater, h⟩ := bind_eq_ok.1 h
    obtain rfl := pure_eq_ok.1 h
    obtain ⟨payload, -, hmsg⟩ := bind_eq_ok.1 hmsg
    obtain rfl := pure_eq_ok.1 hmsg
    rw [map_cons, ih hlater, map_cons, map_cons]

/-- A commit frame that is acknowledged published the buffered rows under their positions. -/
theorem commit_eq_ok {endLsn : ℕ} (h : s.commit reader endLsn outcome = .ok (s', msgs)) :
    s'.relationClassifications = s.relationClassifications ∧ ∃ frame, s.txn = some frame ∧
      msgs.map PreparedMsg.id =
        (frame.rows.map PendingRow.lsn).map (msgId reader.project reader.env) := by
  unfold Session.commit at h
  split at h
  · rename_i frame htxn
    obtain ⟨prepared, hprepared, h⟩ := bind_eq_ok.1 h
    cases outcome with
    -- A cancelled publication ends the session, so it commits nothing.
    | cancelledMidRetry => cases h
    | acked tally =>
      obtain ⟨rfl, rfl⟩ := done_eq_ok.1 h
      exact ⟨rfl, frame, htxn, prepareMsgs_eq_ok (mapError_eq_ok.1 hprepared)⟩
  · cases h

lemma step_eq_ok {frame : Frame} (hs : s.Agrees reader)
    (h : s.step reader frame outcome = .ok (s', msgs)) : s'.Agrees reader ∧
      (frame.isInner = true → msgs = [] ∧ Adds s s' (frame.publishedLsns reader)) := by
  obtain ⟨lsn, eventType⟩ := frame
  cases eventType with
  | row change =>
    obtain ⟨s₁, hbuffer, h⟩ := bind_eq_ok.1 h
    obtain ⟨rfl, rfl⟩ := done_eq_ok.1 h
    obtain ⟨hs₁, hadds⟩ := buffer_eq_ok hs (mapError_eq_ok.1 hbuffer)
    exact ⟨hs₁, fun _ => ⟨rfl, hadds⟩⟩
  | message flags messageType content =>
    obtain ⟨rfl, rfl⟩ := done_eq_ok.1 h
    unfold Session.stamp
    split
    · rename_i causation frame _ htxn
      refine ⟨hs, fun _ => ⟨rfl, fun frame' hframe' => ⟨_, rfl, ?_⟩⟩⟩
      obtain rfl := Option.mem_unique htxn hframe'
      simp [Frame.publishedLsns]
    · exact ⟨hs, fun _ => ⟨rfl, adds_of_eq rfl⟩⟩
  | keepalive walEnd =>
    obtain ⟨rfl, rfl⟩ := done_eq_ok.1 h
    unfold Session.confirm
    split <;> exact ⟨hs, fun _ => ⟨rfl, adds_of_eq rfl⟩⟩
  | commit endLsn =>
    obtain ⟨hsame, -⟩ := commit_eq_ok h
    refine ⟨fun oid classification hknown => ?_, fun hinner => by cases hinner⟩
    rw [hsame] at hknown
    exact hs oid classification hknown
  | begin =>
    obtain ⟨rfl, rfl⟩ := done_eq_ok.1 h
    exact ⟨hs, fun hinner => by cases hinner⟩
  | truncate | metadata | other =>
    obtain ⟨rfl, rfl⟩ := done_eq_ok.1 h
    exact ⟨hs, fun _ => ⟨rfl, adds_of_eq rfl⟩⟩

/-! ## What a transaction publishes -/

lemma Adds.trans {s'' : Session} {lsns lsns' : List ℕ} (h : Adds s s' lsns)
    (h' : Adds s' s'' lsns') : Adds s s'' (lsns ++ lsns') := by
  intro frame hframe
  obtain ⟨frame₁, hframe₁, hrows⟩ := h frame hframe
  obtain ⟨frame₂, hframe₂, hrows'⟩ := h' frame₁ hframe₁
  exact ⟨frame₂, hframe₂, by rw [hrows', hrows, append_assoc]⟩

lemma run_cons_eq_ok {label : Frame × PublishOutcome}
    (h : s.run reader (label :: labels) = .ok (s', msgs)) :
    ∃ s₁ published later, s.step reader label.1 label.2 = .ok (s₁, published) ∧
      s₁.run reader labels = .ok (s', later) ∧ msgs = published ++ later := by
  obtain ⟨⟨s₁, published⟩, hstep, h⟩ := bind_eq_ok.1 h
  obtain ⟨⟨s₂, later⟩, hrun, h⟩ := bind_eq_ok.1 h
  obtain ⟨rfl, rfl⟩ := done_eq_ok.1 h
  exact ⟨s₁, published, later, hstep, hrun, rfl⟩

lemma run_append_eq_ok {labels' : List (Frame × PublishOutcome)}
    (h : s.run reader (labels ++ labels') = .ok (s', msgs)) :
    ∃ s₁ first second, s.run reader labels = .ok (s₁, first) ∧
      s₁.run reader labels' = .ok (s', second) ∧ msgs = first ++ second := by
  induction labels generalizing s msgs with
  | nil => exact ⟨s, [], msgs, rfl, h, rfl⟩
  | cons label labels ih =>
    obtain ⟨s₁, published, later, hstep, hrun, rfl⟩ := run_cons_eq_ok h
    obtain ⟨s₃, first, second, hfirst, hsecond, rfl⟩ := ih hrun
    refine ⟨s₃, published ++ first, second, ?_, hsecond, (append_assoc ..).symm⟩
    exact bind_eq_ok.2 ⟨_, hstep, bind_eq_ok.2 ⟨_, hfirst, rfl⟩⟩

/-- The position of the item, once for every published row. -/
def LogItem.publishedLsns (reader : Reader) : LogItem → List ℕ
  | .record lsn changes => (changes.filter reader.publishes).map fun _ => lsn
  | _ => []

lemma LogItem.frames_spec (reader : Reader) (item : LogItem) :
    item.frames.flatMap (Frame.publishedLsns reader) = item.publishedLsns reader ∧
      ∀ frame ∈ item.frames, frame.isInner = true := by
  cases item with
  | record lsn changes =>
    constructor
    · simp only [frames, publishedLsns]
      induction changes with
      | nil => rfl
      | cons change changes ih =>
        rw [map_cons, flatMap_cons, ih, filter_cons]
        -- Every row of the record comes at the same position, published or not.
        by_cases hpublishes : reader.publishes change = true
        · simp [Frame.publishedLsns, hpublishes]
        · simp [Frame.publishedLsns, hpublishes]
    · intro frame hframe
      obtain ⟨change, -, rfl⟩ := mem_map.1 hframe
      rfl
  | message | truncate | metadata | keepalive =>
    exact ⟨rfl, by simp [frames, Frame.isInner]⟩

section

variable (hs : s.Agrees reader) (h : s.run reader labels = .ok (s', msgs))

include hs h

lemma agrees_run : s'.Agrees reader := by
  induction labels generalizing s msgs with
  | nil =>
    obtain ⟨rfl, -⟩ := done_eq_ok.1 h
    exact hs
  | cons label labels ih =>
    obtain ⟨s₁, published, later, hstep, hrun, -⟩ := run_cons_eq_ok h
    exact ih (step_eq_ok hs hstep).1 hrun

lemma run_inner_eq_ok (hinner : ∀ label ∈ labels, label.1.isInner = true) :
    msgs = [] ∧ Adds s s' ((labels.map Prod.fst).flatMap (Frame.publishedLsns reader)) := by
  induction labels generalizing s msgs with
  | nil =>
    obtain ⟨rfl, rfl⟩ := done_eq_ok.1 h
    exact ⟨rfl, adds_of_eq rfl⟩
  | cons label labels ih =>
    obtain ⟨s₁, published, later, hstep, hrun, rfl⟩ := run_cons_eq_ok h
    obtain ⟨hs₁, hsilent⟩ := step_eq_ok hs hstep
    -- This frame publishes nothing, and neither do those after it.
    obtain ⟨rfl, hadds⟩ := hsilent (hinner label (by simp))
    obtain ⟨rfl, hadds'⟩ := ih hs₁ hrun fun l hl => hinner l (by simp [hl])
    exact ⟨rfl, hadds.trans hadds'⟩

lemma lsn_of_run {t : LogTransaction} (hframes : labels.map Prod.fst = t.frames) :
    msgs.map PreparedMsg.id = (t.items.flatMap (LogItem.publishedLsns reader)).map
      (msgId reader.project reader.env) := by
  -- The labels are those of the keepalives, the begin, the inner frames and the commit.
  obtain ⟨idle, labels, rfl, hidle, hframes⟩ := map_eq_append_iff.1 hframes
  obtain ⟨⟨begin, outcome⟩, rest, rfl, rfl, hrest⟩ := map_eq_cons_iff.1 hframes
  obtain ⟨inner, last, rfl, hinner, hlast⟩ := map_eq_append_iff.1 hrest
  obtain ⟨⟨commit, acked⟩, rfl, rfl⟩ := map_eq_singleton_iff.1 hlast
  obtain ⟨s₀, silent, msgs, hsilent, htransaction, rfl⟩ := run_append_eq_ok h
  -- Between transactions there is nothing but keepalives, which publish nothing.
  have hkeepalives : ∀ label ∈ idle, label.1.isInner = true := by
    intro label hlabel
    have hframe := hidle ▸ mem_map_of_mem (f := Prod.fst) hlabel
    obtain ⟨walEnd, -, hlabel⟩ := mem_map.1 hframe
    rw [← hlabel]
    rfl
  obtain ⟨rfl, -⟩ := run_inner_eq_ok hs hsilent hkeepalives
  have hs₀ := agrees_run hs hsilent
  obtain ⟨s₁, published, later, hbegin, hrun, rfl⟩ := run_cons_eq_ok htransaction
  have hs₁ := (step_eq_ok hs₀ hbegin).1
  obtain ⟨rfl, rfl⟩ := done_eq_ok.1 hbegin
  obtain ⟨s₃, first, second, hfirst, hsecond, rfl⟩ := run_append_eq_ok hrun
  -- The inner frames buffer the published rows on top of the empty transaction.
  have hall : ∀ label ∈ inner, label.1.isInner = true := by
    intro label hlabel
    have hframe : label.1 ∈ t.items.flatMap LogItem.frames := hinner ▸ mem_map_of_mem hlabel
    obtain ⟨item, -, hitem⟩ := mem_flatMap.1 hframe
    exact (item.frames_spec reader).2 label.1 hitem
  obtain ⟨rfl, hadds⟩ := run_inner_eq_ok hs₁ hfirst hall
  obtain ⟨frame, htxn, hrows⟩ := hadds _ rfl
  rw [hinner, flatMap_assoc] at hrows
  simp only [fun item => (LogItem.frames_spec reader item).1] at hrows
  -- The commit publishes them.
  obtain ⟨s₄, committed, rest, hcommit, hnil, rfl⟩ := run_cons_eq_ok hsecond
  obtain ⟨rfl, rfl⟩ := done_eq_ok.1 hnil
  obtain ⟨-, frame', htxn', hids⟩ := commit_eq_ok hcommit
  obtain rfl := Option.mem_unique htxn htxn'
  rw [hrows] at hids
  simpa using hids

lemma lsn_of_run_transactions {transactions : List LogTransaction}
    (hframes : labels.map Prod.fst = transactions.flatMap LogTransaction.frames) :
    msgs.map PreparedMsg.id =
      ((transactions.flatMap LogTransaction.items).flatMap (LogItem.publishedLsns reader)).map
        (msgId reader.project reader.env) := by
  induction transactions generalizing s labels msgs with
  | nil =>
    obtain rfl := map_eq_nil_iff.1 hframes
    obtain ⟨-, rfl⟩ := done_eq_ok.1 h
    rfl
  | cons t transactions ih =>
    obtain ⟨first, rest, rfl, hfirst, hrest⟩ := map_eq_append_iff.1 hframes
    obtain ⟨s₁, msgs, later, hrun, hlater, rfl⟩ := run_append_eq_ok h
    rw [map_append, lsn_of_run hs hrun hfirst, ih (agrees_run hs hrun) hlater hrest,
      ← map_append, ← flatMap_append, flatMap_cons]

end

/-! ## Ids and positions -/

lemma msgId_injective (project env : String) : Function.Injective (msgId project env) := by
  intro lsn lsn' h
  have hlist := congrArg String.toList h
  simp only [msgId, String.toList_append] at hlist
  exact Decimal.repr_injective (String.toList_inj.1 (append_cancel_left hlist))

lemma LogItem.recordLsn_of_mem {item : LogItem} {lsn : Nat}
    (h : lsn ∈ item.publishedLsns reader) : item.recordLsn? = some lsn := by
  cases item with
  | record recordLsn changes =>
    obtain ⟨change, -, rfl⟩ := mem_map.1 h
    rfl
  | message | truncate | metadata | keepalive => exact absurd h not_mem_nil

lemma nodup_publishedLsns_iff (reader : Reader) (log : Log) :
    (log.items.flatMap (LogItem.publishedLsns reader)).Nodup ↔
      ∀ lsn changes, LogItem.record lsn changes ∈ log.items →
        (changes.filter reader.publishes).length ≤ 1 := by
  rw [nodup_flatMap]
  constructor
  · rintro ⟨hitems, -⟩ lsn changes hrecord
    have hnodup := hitems _ hrecord
    rw [LogItem.publishedLsns, map_const'] at hnodup
    exact nodup_replicate.1 hnodup
  · intro hrecords
    constructor
    · intro item hitem
      cases item with
      | record lsn changes =>
        rw [LogItem.publishedLsns, map_const']
        exact nodup_replicate.2 (hrecords lsn changes hitem)
      | message | truncate | metadata | keepalive => exact nodup_nil
    · -- Different records have different positions.
      refine (pairwise_filterMap.1 log.distinct).imp ?_
      intro item item' hdistinct lsn hlsn hlsn'
      exact hdistinct lsn (LogItem.recordLsn_of_mem hlsn) lsn (LogItem.recordLsn_of_mem hlsn') rfl

/-- The messages of any stretch of the log that a session publishes have ids of their own exactly if
no record brings two rows that the reader publishes. Then, and only then, every stream on which
their ids are not used otherwise has stored all of them once each was received, in whatever order,
however often, and whatever the stream forgot meanwhile. -/
theorem rows_keep_their_events_iff {lsn : ℕ} {before labels : List (Frame × PublishOutcome)}
    {earlier : List PreparedMsg} {log : Log}
    (hbefore : (Session.open lsn).run reader before = .ok (s, earlier))
    (hframes : labels.map Prod.fst = log.frames) (h : s.run reader labels = .ok (s', msgs)) :
    ((msgs.map PreparedMsg.id).Nodup ↔
      ∀ lsn changes, LogItem.record lsn changes ∈ log.items →
        (changes.filter reader.publishes).length ≤ 1) ∧
    ((∀ (stream : DedupStream PreparedMsg String) events, stream.Remembers PreparedMsg.id →
        stream.Owns PreparedMsg.id msgs → (∀ e ∈ events, e.Respects PreparedMsg.id msgs) →
        (∀ m ∈ msgs, .received m ∈ events) →
        msgs.Subperm (stream.run PreparedMsg.id events).stored) ↔
      ∀ lsn changes, LogItem.record lsn changes ∈ log.items →
        (changes.filter reader.publishes).length ≤ 1) := by
  have hs : s.Agrees reader := agrees_run (fun _ _ hknown => by cases hknown) hbefore
  have hids := lsn_of_run_transactions hs h hframes
  have hnodup : (msgs.map PreparedMsg.id).Nodup ↔
      ∀ lsn changes, LogItem.record lsn changes ∈ log.items →
        (changes.filter reader.publishes).length ≤ 1 := by
    rw [hids, nodup_map_iff (msgId_injective _ _)]
    exact nodup_publishedLsns_iff reader log
  exact ⟨hnodup, DedupStream.nodup_iff_subperm.symm.trans hnodup⟩

namespace Sample

/-- A reader of one relation, `orders`, whose payloads are first columns. -/
def shop : Reader where
  org := "acme"
  project := "shop"
  env := "live"
  relationMaps oid :=
    if oid = 7 then .row (some "sales") (some "orders") none none else .undefinedTable
  debugText text := text
  decodeCausation _ := .error "no causation"
  encode envelope :=
    match envelope.new with
    | some ((_, .string text) :: _) => .ok text
    | _ => .ok ""

/-- The insert of an order. -/
def order (name : String) : RowChange :=
  .insert ⟨"public", "orders", 7⟩ [("name", .text (.ok name))]

/-- A transaction of such records. -/
def transaction (id : ℕ) (records : List (ℕ × List String)) : LogTransaction where
  idle := [100 * id]
  transactionId := id
  commitTimestamp := 0
  beginLsn := 100 * id
  items := records.map fun record => .record record.1 (record.2.map order)
  commitLsn := 100 * id + 90
  endLsn := 100 * id + 99

/-- Orders that are inserted one by one. -/
def singles : Log where
  transactions := [transaction 1 [(110, ["ink"]), (120, ["pen"])], transaction 2 [(210, ["cup"])]]
  distinct := by decide

/-- Two orders that are inserted at once. -/
def bulk : Log where
  transactions := [transaction 1 [(110, ["ink", "pen"])]]
  distinct := by decide

/-- The frames of a log whose publications are acknowledged. -/
def acked (log : Log) : List (Frame × PublishOutcome) :=
  log.frames.map fun frame => (frame, .acked ⟨0, 0⟩)

/-- Orders that are inserted one by one keep their events. -/
theorem singles_keep_their_events :
    ∃ s msgs, (Session.open 0).run shop (acked singles) = .ok (s, msgs) ∧
      msgs.map PreparedMsg.payload = ["ink", "pen", "cup"] ∧
      (msgs.map PreparedMsg.id).Nodup ∧
      msgs.Subperm (DedupStream.empty.run PreparedMsg.id (msgs.map .received)).stored := by
  have hopen : (Session.open 0).run shop [] = .ok (Session.open 0, []) := rfl
  have hframes : (acked singles).map Prod.fst = singles.frames := rfl
  have hrecords : ∀ lsn changes, LogItem.record lsn changes ∈ singles.items →
      (changes.filter shop.publishes).length ≤ 1 := by
    intro lsn changes hrecord
    have hone : changes.length = 1 := by
      simp [Log.items, singles, transaction] at hrecord
      rcases hrecord with ⟨-, rfl⟩ | ⟨-, rfl⟩ | ⟨-, rfl⟩ <;> rfl
    exact hone ▸ length_filter_le ..
  have hkept := rows_keep_their_events_iff hopen hframes rfl
  refine ⟨_, _, rfl, rfl, hkept.1.2 hrecords, hkept.2.2 hrecords .empty _ ?_ ?_ ?_ ?_⟩
  · exact DedupStream.remembers_empty _
  · exact DedupStream.owns_empty _ _
  · exact DedupStream.respects_received _ _
  · exact fun m hm => mem_map_of_mem hm

/-- The message of an order. -/
def announced (name : String) : PreparedMsg :=
  ⟨"evt.acme.shop.live.orders.insert", "shop_live:110", name⟩

/-- Two orders inserted at once share an id, and a stream stores only the first. -/
theorem bulk_loses_an_order :
    ((Session.open 0).run shop (acked bulk)).toOption.map Prod.snd =
        some [announced "ink", announced "pen"] ∧
      (DedupStream.empty.run PreparedMsg.id
        [.received (announced "ink"), .received (announced "pen")]).stored = [announced "ink"] := by
  constructor <;> decide +kernel

end Sample

end Wamn.Cdc
