import Wamn.Cdc.MessageIds
import Wamn.Cdc.Publish

/-!
# What the reader confirms

The server keeps its log from the confirmed position on, and sends a new session every transaction
from there. A transaction whose rows are not all acknowledged must stay ahead of that position:
while commits confirm their ends and keepalives between transactions what the server has sent,
publications fail halfway, and sessions are severed and opened at any point.

The reader meets the server of its slot, which sends whole transactions in commit order with other
frames in between; a keepalive does not reach beyond the first transaction that is not yet begun. A
reader that publishes reads no frame.
-/

namespace Wamn.Cdc

open Option List Lib Lib.Json Events

/-! ## The server -/

namespace LogTransaction

/-- The begin frame. -/
def begin (t : LogTransaction) : Frame := ⟨t.beginLsn, .begin t.transactionId t.commitTimestamp⟩

/-- The frames of the items. -/
def body (t : LogTransaction) : List Frame := t.items.flatMap LogItem.frames

/-- The commit frame. -/
def commit (t : LogTransaction) : Frame := ⟨t.commitLsn, .commit t.endLsn⟩

/-- The positions of the rows to publish. -/
def publishedLsns (reader : Reader) (t : LogTransaction) : List ℕ :=
  t.items.flatMap (LogItem.publishedLsns reader)

end LogTransaction

/-- All that a slot will ever see of the log, in commit order, without the keepalives. -/
structure Wal where
  transactions : List LogTransaction
  /-- The position that the slot was created at. -/
  slot : ℕ
  ordered : transactions.Pairwise fun t t' => t.endLsn ≤ t'.commitLsn
  ends : ∀ t ∈ transactions, t.commitLsn < t.endLsn
  after : ∀ t ∈ transactions, slot ≤ t.commitLsn

/-- What a session that starts at a position is sent. -/
def Wal.resume (wal : Wal) (lsn : ℕ) : List LogTransaction :=
  wal.transactions.filter fun t => lsn ≤ t.commitLsn

/-- The frame is not part of a transaction. -/
def Frame.isAside (frame : Frame) : Bool :=
  match frame.eventType with
  | .message _ _ _ | .truncate | .metadata | .other => true
  | _ => false

/-! ## Sessions with the server -/

/-- An open session: the reader's state, the transaction that is being sent and the rest of its
frames, the transactions after it, and the publication under way. -/
structure Feed where
  session : Session
  current : Option (LogTransaction × List Frame)
  queue : List LogTransaction
  publishing : Option (List PreparedMsg × Pipeline Unit)

namespace Feed

/-- A new session. -/
def connect (wal : Wal) (confirmed start : ℕ) : Feed :=
  ⟨.open start, none, wal.resume confirmed, none⟩

variable (reader : Reader) (feed : Feed)

/-- The reader reads a frame that publishes nothing, and ends the session if it refuses it. -/
def read (frame : Frame) : Option Session :=
  (feed.session.step reader frame .cancelledMidRetry).toOption.map Prod.fst

/-- The next frame of the transactions is sent and read. At a commit the reader prepares the
messages and starts to publish them. -/
def deliver : Option Feed :=
  match feed.current with
  | none =>
    match feed.queue with
    | [] => some feed
    | t :: queue =>
      (feed.read reader t.begin).map fun session => ⟨session, some (t, t.body), queue, none⟩
  | some (t, frame :: rest) =>
    (feed.read reader frame).map fun session => { feed with session, current := some (t, rest) }
  | some (_, []) => do
    let frame ← feed.session.txn
    let msgs ← (prepareMsgs reader frame frame.rows).toOption
    pure { feed with publishing := some (msgs, .start) }

/-- The row whose acknowledgment settles, with the end of its transaction. -/
def settles (reply : Reply Unit) : Option (ℕ × ℕ) := do
  let (t, _) ← feed.current
  let (_, p) ← feed.publishing
  let (row, _) ← p.settling
  let _ ← reply.settled
  pure (t.endLsn, row)

/-- The publication goes on. When it is over, the commit frame is done. -/
def publish (reply : Reply Unit) : Option Feed :=
  match feed.current, feed.publishing with
  | some (t, _), some (msgs, p) =>
    let p' := p.step msgs.length maxInFlight reply
    match p'.phase with
    | .done outcome =>
      (feed.session.step reader t.commit outcome).toOption.map fun done =>
        ⟨done.1, none, feed.queue, none⟩
    | _ => some { feed with publishing := some (msgs, p') }
  | _, _ => some feed

/-- The transactions that are not done. -/
def ahead : List LogTransaction := (feed.current.map Prod.fst).toList ++ feed.queue

end Feed

/-! ## The system -/

/-- The confirmed position, the open session, and all rows ever acknowledged. -/
structure System where
  confirmed : ℕ
  feed : Option Feed
  settled : List (ℕ × ℕ)

/-- What happens. -/
inductive Label where
  /-- A session is opened. It reports from a position on that is not beyond the confirmed one. -/
  | connect (start : ℕ)
  /-- The next frame of the transactions is sent and read. -/
  | deliver
  /-- A frame outside of the transactions is sent and read. -/
  | aside (frame : Frame)
  | keepalive (walEnd : ℕ)
  /-- The publication of the reader goes on. -/
  | publish (reply : Reply Unit)
  /-- The reader reports its flushed position, and the server confirms it. -/
  | feedback
  /-- The session is severed, or the reader is cancelled or gone. -/
  | sever

namespace System

/-- The slot before its first session. -/
def init (wal : Wal) : System := ⟨wal.slot, none, []⟩

/-- What happens to an open session. -/
def stepFeed (reader : Reader) (s : System) (feed : Feed) : Label → System
  | .connect _ => s
  | .deliver => if feed.publishing.isNone then { s with feed := feed.deliver reader } else s
  | .aside frame =>
    if feed.publishing.isNone && frame.isAside then
      { s with feed := (feed.read reader frame).map fun session => { feed with session } }
    else s
  | .keepalive walEnd =>
    if feed.publishing.isNone && feed.queue.all (fun t => walEnd ≤ t.commitLsn) then
      { s with feed := (feed.read reader ⟨walEnd, .keepalive walEnd⟩).map fun session =>
          { feed with session } }
    else s
  | .publish reply =>
    { s with feed := feed.publish reader reply
             settled := (feed.settles reply).toList ++ s.settled }
  | .feedback => { s with confirmed := max s.confirmed feed.session.flushedLsn }
  | .sever => { s with feed := none }

/-- What happens to the system. A label that is not possible changes nothing. -/
def step (reader : Reader) (wal : Wal) (s : System) (label : Label) : System :=
  match s.feed with
  | some feed => s.stepFeed reader feed label
  | none =>
    match label with
    | .connect start =>
      if start ≤ s.confirmed then { s with feed := some (.connect wal s.confirmed start) } else s
    | _ => s

/-- The system after these labels. -/
def run (reader : Reader) (wal : Wal) (labels : List Label) : System :=
  labels.foldl (step reader wal) (init wal)

end System

/-! ## What a frame does to the positions -/

section Session

variable {reader : Reader} {s s' : Session} {frame : Frame} {outcome : PublishOutcome}
  {msgs : List PreparedMsg}

lemma flushedLsn_classify {relation : Relation} {classification : RelationClassification}
    (h : s.classify reader relation = .ok (classification, s')) :
    s'.flushedLsn = s.flushedLsn := by
  unfold Session.classify at h
  split at h
  · obtain ⟨-, rfl⟩ := done_eq_ok.1 h
    rfl
  · obtain ⟨resolved, -, h⟩ := bind_eq_ok.1 h
    obtain ⟨-, rfl⟩ := done_eq_ok.1 h
    rfl

lemma flushedLsn_buffer {lsn : ℕ} {change : RowChange} (h : s.buffer reader lsn change = .ok s') :
    s'.flushedLsn = s.flushedLsn := by
  unfold Session.buffer at h
  split at h
  · obtain rfl := pure_eq_ok.1 h
    rfl
  · obtain ⟨⟨classification, s₁⟩, hclassify, h⟩ := bind_eq_ok.1 h
    have hflushed := flushedLsn_classify hclassify
    dsimp only at h
    split at h
    · split at h
      · obtain rfl := pure_eq_ok.1 h
        exact hflushed
      · obtain ⟨old, -, h⟩ := bind_eq_ok.1 h
        obtain ⟨new, -, h⟩ := bind_eq_ok.1 h
        obtain rfl := pure_eq_ok.1 h
        exact hflushed
    · cases h

lemma stamp_spec (causation : Option Causation) :
    (s.stamp causation).flushedLsn = s.flushedLsn ∧
      ((s.stamp causation).txn = none ↔ s.txn = none) := by
  unfold Session.stamp
  split
  · rename_i htxn
    simp [htxn]
  · exact ⟨rfl, Iff.rfl⟩

lemma flushedLsn_inner (h : s.step reader frame outcome = .ok (s', msgs))
    (hinner : frame.isInner = true) (htxn : s.txn ≠ none) : s'.flushedLsn = s.flushedLsn := by
  obtain ⟨lsn, eventType⟩ := frame
  cases eventType with
  | row change =>
    obtain ⟨s₁, hbuffer, h⟩ := bind_eq_ok.1 h
    obtain ⟨rfl, -⟩ := done_eq_ok.1 h
    exact flushedLsn_buffer (mapError_eq_ok.1 hbuffer)
  | message flags messageType content =>
    obtain ⟨rfl, -⟩ := done_eq_ok.1 h
    exact (stamp_spec _).1
  | keepalive walEnd =>
    obtain ⟨rfl, -⟩ := done_eq_ok.1 h
    unfold Session.confirm
    rw [isNone_eq_false_iff.2 (isSome_iff_ne_none.2 htxn), Bool.false_and]
    rfl
  | begin | commit => cases hinner
  | truncate | metadata | other =>
    obtain ⟨rfl, -⟩ := done_eq_ok.1 h
    rfl

lemma step_aside (h : s.step reader frame outcome = .ok (s', msgs))
    (haside : frame.isAside = true) :
    s'.flushedLsn = s.flushedLsn ∧ (s'.txn = none ↔ s.txn = none) := by
  obtain ⟨lsn, eventType⟩ := frame
  cases eventType with
  | message flags messageType content =>
    obtain ⟨rfl, -⟩ := done_eq_ok.1 h
    exact stamp_spec _
  | begin | commit | row | keepalive => cases haside
  | truncate | metadata | other =>
    obtain ⟨rfl, -⟩ := done_eq_ok.1 h
    exact ⟨rfl, Iff.rfl⟩

lemma step_keepalive {lsn walEnd : ℕ}
    (h : s.step reader ⟨lsn, .keepalive walEnd⟩ outcome = .ok (s', msgs)) :
    s'.txn = s.txn ∧ (s'.flushedLsn = s.flushedLsn ∨ s.txn = none ∧ s'.flushedLsn = walEnd) := by
  obtain ⟨rfl, -⟩ := done_eq_ok.1 h
  unfold Session.confirm
  split
  · rename_i hidle
    exact ⟨rfl, .inr ⟨isNone_iff_eq_none.1 (Bool.and_eq_true_iff.1 hidle).1, rfl⟩⟩
  · exact ⟨rfl, .inl rfl⟩

lemma step_commit {lsn endLsn : ℕ}
    (h : s.step reader ⟨lsn, .commit endLsn⟩ outcome = .ok (s', msgs)) :
    (∃ tally, outcome = .acked tally) ∧ s'.txn = none ∧ s'.flushedLsn = endLsn := by
  change s.commit reader endLsn outcome = .ok (s', msgs) at h
  unfold Session.commit at h
  split at h
  · obtain ⟨prepared, -, h⟩ := bind_eq_ok.1 h
    cases outcome with
    | cancelledMidRetry => cases h
    | acked tally =>
      obtain ⟨rfl, -⟩ := done_eq_ok.1 h
      exact ⟨⟨tally, rfl⟩, rfl, rfl⟩
  · cases h

end Session

/-! ## The invariant -/

/-- The transaction has a row to publish that is not acknowledged. -/
def LogTransaction.Unsettled (reader : Reader) (settled : List (ℕ × ℕ)) (t : LogTransaction) :
    Prop :=
  ∃ row < (t.publishedLsns reader).length, (t.endLsn, row) ∉ settled

/-- What the reader has buffered and published of the current transaction. -/
inductive Feed.Progress (reader : Reader) (settled : List (ℕ × ℕ)) (feed : Feed) : Prop where
  /-- No transaction is being sent. -/
  | idle (hcurrent : feed.current = none) (hpublishing : feed.publishing = none)
      (htxn : feed.session.txn = none)
  /-- The rows that are sent are buffered, and the others are still to come. -/
  | sending (t : LogTransaction) (rest : List Frame) (frame : Txn)
      (hcurrent : feed.current = some (t, rest)) (hpublishing : feed.publishing = none)
      (htxn : feed.session.txn = some frame) (hinner : ∀ f ∈ rest, f.isInner = true)
      (hrows : frame.rows.map PendingRow.lsn ++ rest.flatMap (Frame.publishedLsns reader) =
        t.publishedLsns reader)
  /-- The rows are being published, and those before the first unacknowledged one are settled. -/
  | publishing (t : LogTransaction) (msgs : List PreparedMsg) (p : Pipeline Unit)
      (hcurrent : feed.current = some (t, [])) (hpublishing : feed.publishing = some (msgs, p))
      (hmsgs : msgs.length = (t.publishedLsns reader).length) (hvalid : p.Valid msgs.length)
      (hsettled : ∀ row < p.firstUnacked, (t.endLsn, row) ∈ settled)

/-- Transactions with an unacknowledged row are ahead of the reader, and nothing that is ahead is
confirmed. -/
structure Feed.Valid (reader : Reader) (wal : Wal) (settled : List (ℕ × ℕ)) (feed : Feed) :
    Prop where
  agrees : feed.session.Agrees reader
  sublist : feed.ahead.Sublist wal.transactions
  unsettled : ∀ t ∈ wal.transactions, t.Unsettled reader settled → t ∈ feed.ahead
  flushed : ∀ t ∈ feed.ahead, feed.session.flushedLsn ≤ t.commitLsn
  progress : feed.Progress reader settled

/-- The invariant of the system. -/
structure System.Valid (reader : Reader) (wal : Wal) (s : System) : Prop where
  confirmed : ∀ t ∈ wal.transactions, t.Unsettled reader s.settled → s.confirmed ≤ t.commitLsn
  feed : ∀ feed, s.feed = some feed → feed.Valid reader wal s.settled

namespace Feed

variable {reader : Reader} {wal : Wal} {settled : List (ℕ × ℕ)} {feed feed' : Feed}

variable {session : Session} {t : LogTransaction} {p : Pipeline Unit}

lemma read_eq_some (h : feed.read reader frame = some session) :
    ∃ msgs, feed.session.step reader frame .cancelledMidRetry = .ok (session, msgs) := by
  unfold read at h
  obtain ⟨⟨session', msgs⟩, hstep, rfl⟩ := map_eq_some_iff.1 h
  exact ⟨msgs, toOption_eq_some.1 hstep⟩

lemma valid_connect {confirmed start : ℕ} (hstart : start ≤ confirmed)
    (h : ∀ t ∈ wal.transactions, t.Unsettled reader settled → confirmed ≤ t.commitLsn) :
    (Feed.connect wal confirmed start).Valid reader wal settled where
  agrees := by
    intro oid classification hknown
    cases hknown
  sublist := filter_sublist
  unsettled := fun t ht hunsettled =>
    mem_filter.2 ⟨ht, decide_eq_true (h t ht hunsettled)⟩
  flushed := fun t ht => hstart.trans (of_decide_eq_true (mem_filter.1 ht).2)
  progress := .idle rfl rfl rfl

lemma publishedLsns_body (t : LogTransaction) :
    t.body.flatMap (Frame.publishedLsns reader) = t.publishedLsns reader := by
  unfold LogTransaction.body LogTransaction.publishedLsns
  rw [flatMap_assoc]
  simp only [fun item => (LogItem.frames_spec reader item).1]

lemma isInner_body (reader : Reader) (h : frame ∈ t.body) : frame.isInner = true := by
  obtain ⟨item, -, hframe⟩ := mem_flatMap.1 h
  exact (item.frames_spec reader).2 frame hframe

lemma progress_read (h : feed.Progress reader settled) (hagrees : feed.session.Agrees reader)
    (hpublishing : feed.publishing = none) (hread : feed.read reader frame = some session)
    (hinner : frame.isInner = true) (hrowless : frame.publishedLsns reader = [])
    (htxn : feed.session.txn = none → session.txn = none) :
    ({ feed with session } : Feed).Progress reader settled := by
  obtain ⟨msgs, hstep⟩ := read_eq_some hread
  cases h with
  | idle hcurrent _ hnone => exact .idle hcurrent hpublishing (htxn hnone)
  | sending t rest open_ hcurrent _ hopen hrest hrows =>
    obtain ⟨-, hadds⟩ := (step_eq_ok hagrees hstep).2 hinner
    obtain ⟨open', hopen', hrows'⟩ := hadds open_ hopen
    rw [hrowless, append_nil] at hrows'
    exact .sending t rest open' hcurrent hpublishing hopen' hrest (hrows' ▸ hrows)
  | publishing t msgs p _ hsome =>
    rw [hpublishing] at hsome
    cases hsome

lemma unsettled_of_append {more : List (ℕ × ℕ)} (h : t.Unsettled reader (more ++ settled)) :
    t.Unsettled reader settled := by
  obtain ⟨row, hrow, hunsettled⟩ := h
  exact ⟨row, hrow, fun hmem => hunsettled (mem_append_right _ hmem)⟩

/-- An acknowledgment is recorded before the rows behind it are taken for settled. -/
theorem mem_settled_step {rest : List Frame} (reply : Reply Unit)
    (hcurrent : feed.current = some (t, rest)) (hpublishing : feed.publishing = some (msgs, p))
    (hvalid : p.Valid msgs.length) (hsettled : ∀ row < p.firstUnacked, (t.endLsn, row) ∈ settled) :
    ∀ row < (p.step msgs.length maxInFlight reply).firstUnacked,
      (t.endLsn, row) ∈ (feed.settles reply).toList ++ settled := by
  intro row hrow
  -- Rows before the first unacknowledged one were recorded earlier; it moves by one row at most,
  -- and this row is the one that settles now.
  rcases p.firstUnacked_step msgs.length maxInFlight reply with
    hsame | ⟨acked, ack, hsettling, hreply, hnext⟩
  · rw [hsame] at hrow
    exact mem_append_right _ (hsettled row hrow)
  · rw [hnext] at hrow
    obtain rfl := hvalid.settling hsettling
    by_cases hlt : row < p.firstUnacked
    · exact mem_append_right _ (hsettled row hlt)
    · obtain rfl : row = p.firstUnacked := by omega
      obtain ⟨acknowledgment, hacknowledgment⟩ := ne_none_iff_exists'.1 hreply
      have hsettles : feed.settles reply = some (t.endLsn, p.firstUnacked) := by
        simp [settles, hcurrent, hpublishing, hsettling, hacknowledgment]
      rw [hsettles]
      exact mem_append_left _ mem_cons_self

lemma publish_of_none (reader : Reader) (reply : Reply Unit) (h : feed.publishing = none) :
    feed.publish reader reply = some feed ∧ feed.settles reply = none := by
  constructor
  · unfold Feed.publish
    rw [h]
    split
    · rename_i hsome
      cases hsome
    · rfl
  · unfold settles
    rw [h]
    cases feed.current <;> rfl

lemma not_unsettled_of_acked {n : ℕ} {tally : PublishTally} (hvalid : p.Valid n)
    (hphase : p.phase = .done (.acked tally)) (hrows : n = (t.publishedLsns reader).length)
    (hsettled : ∀ row < p.firstUnacked, (t.endLsn, row) ∈ settled) :
    ¬ t.Unsettled reader settled := by
  rintro ⟨row, hrow, hunsettled⟩
  have hfits := hvalid.fits
  rw [hphase] at hfits
  exact hunsettled (hsettled row (by rw [hfits.1, hrows]; exact hrow))

variable (h : feed.Valid reader wal settled)

include h

/-- A session may go on to one that is ahead of nothing more and confirms nothing more. -/
theorem Valid.goesOn (hagrees : feed'.session.Agrees reader) (hahead : feed'.ahead = feed.ahead)
    (hflushed : feed'.session.flushedLsn = feed.session.flushedLsn)
    (hprogress : feed'.Progress reader settled) : feed'.Valid reader wal settled where
  agrees := hagrees
  sublist := by
    rw [hahead]
    exact h.sublist
  unsettled := by
    rw [hahead]
    exact h.unsettled
  flushed := by
    rw [hahead, hflushed]
    exact h.flushed
  progress := hprogress

lemma Valid.begins {queue : List LogTransaction} (hcurrent : feed.current = none)
    (hqueue : feed.queue = t :: queue) (hread : feed.read reader t.begin = some session) :
    Feed.Valid reader wal settled ⟨session, some (t, t.body), queue, none⟩ := by
  obtain ⟨msgs, hstep⟩ := read_eq_some hread
  have hagrees := (step_eq_ok h.agrees hstep).1
  obtain ⟨rfl, -⟩ := done_eq_ok.1 hstep
  refine h.goesOn hagrees ?_ rfl ?_
  · simp [ahead, hcurrent, hqueue]
  · exact .sending t t.body _ rfl rfl rfl (fun frame => isInner_body reader) (publishedLsns_body t)

/-- At the commit every row of the transaction is buffered, and one message is prepared for each. -/
theorem Valid.prepares {txn : Txn} (hcurrent : feed.current = some (t, []))
    (hrows : txn.rows.map PendingRow.lsn = t.publishedLsns reader)
    (hmsgs : prepareMsgs reader txn txn.rows = .ok msgs) : Feed.Valid reader wal settled
      ⟨feed.session, some (t, []), feed.queue, some (msgs, .start)⟩ := by
  have hlength := congrArg List.length (prepareMsgs_eq_ok hmsgs)
  rw [hrows, length_map, length_map] at hlength
  refine h.goesOn h.agrees ?_ rfl ?_
  · simp [ahead, hcurrent]
  · exact .publishing t msgs .start rfl rfl hlength Pipeline.valid_start
      fun row hrow => absurd hrow (Nat.not_lt_zero row)

lemma Valid.settle (more : List (ℕ × ℕ)) : feed.Valid reader wal (more ++ settled) where
  agrees := h.agrees
  sublist := h.sublist
  unsettled := fun t ht hunsettled => h.unsettled t ht (unsettled_of_append hunsettled)
  flushed := h.flushed
  progress := by
    cases h.progress with
    | idle hcurrent hpublishing htxn => exact .idle hcurrent hpublishing htxn
    | sending t rest frame hcurrent hpublishing htxn hinner hrows =>
      exact .sending t rest frame hcurrent hpublishing htxn hinner hrows
    | publishing t msgs p hcurrent hpublishing hmsgs hvalid hsettled =>
      exact .publishing t msgs p hcurrent hpublishing hmsgs hvalid fun row hrow =>
        mem_append_right _ (hsettled row hrow)

lemma Valid.publish {reply : Reply Unit} (hpublish : feed.publish reader reply = some feed') :
    feed'.Valid reader wal ((feed.settles reply).toList ++ settled) := by
  by_cases hnone : feed.publishing = none
  · obtain ⟨hsame, hsettles⟩ := publish_of_none reader reply hnone
    obtain rfl := mem_unique hsame hpublish
    rw [hsettles]
    exact h
  cases h.progress with
  | idle _ hpublishing | sending _ _ _ _ hpublishing => exact absurd hpublishing hnone
  | publishing t msgs p hcurrent hsome hmsgs hvalid hsettled =>
    have hsettled' := mem_settled_step reply hcurrent hsome hvalid hsettled
    have hvalid' : (p.step msgs.length maxInFlight reply).Valid msgs.length := hvalid.step reply
    have hahead : feed.ahead = t :: feed.queue := by simp [ahead, hcurrent]
    have hsettle := h.settle (feed.settles reply).toList
    unfold Feed.publish at hpublish
    simp only [hcurrent, hsome] at hpublish
    -- Either the publication is over and the commit frame is read, or it goes on.
    split at hpublish
    · rename_i outcome hphase
      obtain ⟨⟨session, published⟩, hstep, rfl⟩ := map_eq_some_iff.1 hpublish
      rw [toOption_eq_some] at hstep
      obtain ⟨⟨tally, rfl⟩, htxn, hflushed⟩ := step_commit hstep
      have hdone := not_unsettled_of_acked hvalid' hphase hmsgs hsettled'
      have hsublist := h.sublist
      rw [hahead] at hsublist
      refine ⟨(step_eq_ok h.agrees hstep).1, (sublist_cons_self t feed.queue).trans hsublist,
        ?_, ?_, .idle rfl rfl htxn⟩
      · -- This transaction is settled, so what is not was behind it.
        intro t' ht' hunsettled'
        have hmem := hsettle.unsettled t' ht' hunsettled'
        rw [hahead] at hmem
        rcases mem_cons.1 hmem with rfl | hmem
        · exact absurd hunsettled' hdone
        · exact hmem
      · -- The transactions behind it committed after its end.
        intro t' ht'
        show session.flushedLsn ≤ t'.commitLsn
        rw [hflushed]
        exact (pairwise_cons.1 (wal.ordered.sublist hsublist)).1 t' ht'
    · obtain rfl := Option.some.inj hpublish
      exact hsettle.goesOn h.agrees hahead.symm rfl
        (.publishing t msgs _ rfl rfl hmsgs hvalid' hsettled')

variable (hpublishing : feed.publishing = none)

include hpublishing

lemma Valid.aside (hread : feed.read reader frame = some session)
    (haside : frame.isAside = true) :
    ({ feed with session } : Feed).Valid reader wal settled := by
  obtain ⟨msgs, hstep⟩ := read_eq_some hread
  obtain ⟨hflushed, htxn⟩ := step_aside hstep haside
  have hframe : frame.isInner = true ∧ frame.publishedLsns reader = [] := by
    unfold Frame.isAside at haside
    unfold Frame.isInner Frame.publishedLsns
    split at haside <;> simp_all
  exact h.goesOn (step_eq_ok h.agrees hstep).1 rfl hflushed
    (progress_read h.progress h.agrees hpublishing hread hframe.1 hframe.2 htxn.2)

/-- A keepalive that does not reach beyond the first transaction to come keeps the invariant. -/
theorem Valid.keepalive {walEnd : ℕ}
    (hread : feed.read reader ⟨walEnd, .keepalive walEnd⟩ = some session)
    (hqueue : ∀ t ∈ feed.queue, walEnd ≤ t.commitLsn) :
    ({ feed with session } : Feed).Valid reader wal settled := by
  obtain ⟨msgs, hstep⟩ := read_eq_some hread
  obtain ⟨htxn, hflushed⟩ := step_keepalive hstep
  refine ⟨(step_eq_ok h.agrees hstep).1, h.sublist, h.unsettled, fun t ht => ?_, ?_⟩
  · show session.flushedLsn ≤ t.commitLsn
    rcases hflushed with hsame | ⟨hnone, hwalEnd⟩
    · rw [hsame]
      exact h.flushed t ht
    · -- The position is confirmed between two transactions only.
      rw [hwalEnd]
      refine hqueue t ?_
      cases h.progress with
      | idle hcurrent => simpa [ahead, hcurrent] using ht
      | sending _ _ _ _ _ hopen =>
        rw [hnone] at hopen
        cases hopen
      | publishing _ _ _ _ hsome =>
        rw [hpublishing] at hsome
        cases hsome
  · exact progress_read h.progress h.agrees hpublishing hread rfl rfl fun hnone =>
      htxn.trans hnone

lemma Valid.buffers {next : Frame} {rest : List Frame} {txn : Txn}
    (hcurrent : feed.current = some (t, next :: rest)) (hopen : feed.session.txn = some txn)
    (hinner : ∀ f ∈ next :: rest, f.isInner = true)
    (hrows : txn.rows.map PendingRow.lsn ++
      (next :: rest).flatMap (Frame.publishedLsns reader) = t.publishedLsns reader)
    (hread : feed.read reader next = some session) :
    ({ feed with session, current := some (t, rest) } : Feed).Valid reader wal settled := by
  obtain ⟨msgs, hstep⟩ := read_eq_some hread
  have hnext := hinner next mem_cons_self
  obtain ⟨hagrees, hstepInner⟩ := step_eq_ok h.agrees hstep
  obtain ⟨txn', hopen', hrows'⟩ := (hstepInner hnext).2 txn hopen
  have hflushed : session.flushedLsn = feed.session.flushedLsn :=
    flushedLsn_inner hstep hnext (by simp [hopen])
  refine h.goesOn hagrees ?_ hflushed ?_
  · simp [ahead, hcurrent]
  · refine .sending t rest txn' rfl hpublishing hopen'
      (fun f hf => hinner f (mem_cons_of_mem _ hf)) ?_
    rw [hrows', append_assoc, ← flatMap_cons, hrows]

lemma Valid.deliver (hdeliver : feed.deliver reader = some feed') :
    feed'.Valid reader wal settled := by
  unfold Feed.deliver at hdeliver
  -- What comes next depends on how much of the current transaction has been sent.
  cases h.progress with
  | idle hcurrent =>
    rw [hcurrent] at hdeliver
    dsimp only at hdeliver
    split at hdeliver
    · obtain rfl := Option.some.inj hdeliver
      exact h
    · rename_i t queue hqueue
      obtain ⟨session, hread, rfl⟩ := map_eq_some_iff.1 hdeliver
      exact h.begins hcurrent hqueue hread
  | sending t rest txn hcurrent _ hopen hinner hrows =>
    rw [hcurrent] at hdeliver
    cases rest with
    | nil =>
      obtain ⟨txn', hopen', hdeliver⟩ := bind_eq_some_iff.1 hdeliver
      obtain rfl := mem_unique hopen hopen'
      obtain ⟨msgs, hmsgs, hdeliver⟩ := bind_eq_some_iff.1 hdeliver
      obtain rfl := Option.some.inj hdeliver
      rw [flatMap_nil, append_nil] at hrows
      exact h.prepares hcurrent hrows (toOption_eq_some.1 hmsgs)
    | cons next rest =>
      obtain ⟨session, hread, rfl⟩ := map_eq_some_iff.1 hdeliver
      exact h.buffers hpublishing hcurrent hopen hinner hrows hread
  | publishing _ _ _ _ hsome =>
    rw [hpublishing] at hsome
    cases hsome

end Feed

/-! ## All times -/

namespace System

variable {reader : Reader} {wal : Wal} {s : System}

lemma valid_init : (init wal).Valid reader wal :=
  ⟨fun t ht _ => wal.after t ht, fun _ hfeed => by cases hfeed⟩

lemma Valid.stepFeed {feed : Feed} (h : s.Valid reader wal) (hfeed : s.feed = some feed)
    (label : Label) : (s.stepFeed reader feed label).Valid reader wal := by
  have hvalid := h.feed feed hfeed
  cases label with
  | connect start => exact h
  | deliver =>
    unfold System.stepFeed
    dsimp only
    split
    · rename_i hnone
      exact ⟨h.confirmed, fun feed' hfeed' =>
        hvalid.deliver (isNone_iff_eq_none.1 hnone) hfeed'⟩
    · exact h
  | aside frame =>
    unfold System.stepFeed
    dsimp only
    split
    · rename_i hguard
      obtain ⟨hnone, haside⟩ := Bool.and_eq_true_iff.1 hguard
      refine ⟨h.confirmed, fun feed' hfeed' => ?_⟩
      obtain ⟨session, hread, rfl⟩ := map_eq_some_iff.1 hfeed'
      exact hvalid.aside (isNone_iff_eq_none.1 hnone) hread haside
    · exact h
  | keepalive walEnd =>
    unfold System.stepFeed
    dsimp only
    split
    · rename_i hguard
      obtain ⟨hnone, hqueue⟩ := Bool.and_eq_true_iff.1 hguard
      refine ⟨h.confirmed, fun feed' hfeed' => ?_⟩
      dsimp only at hfeed'
      obtain ⟨session, hread, rfl⟩ := map_eq_some_iff.1 hfeed'
      exact hvalid.keepalive (isNone_iff_eq_none.1 hnone) hread fun t ht =>
        of_decide_eq_true (all_eq_true.1 hqueue t ht)
    · exact h
  | publish reply =>
    exact ⟨fun t ht hunsettled => h.confirmed t ht (Feed.unsettled_of_append hunsettled),
      fun feed' hfeed' => hvalid.publish hfeed'⟩
  | feedback =>
    -- What is unsettled is ahead of the reader, and nothing ahead of it is flushed.
    refine ⟨fun t ht hunsettled => ?_, fun feed' hfeed' => ?_⟩
    · exact max_le (h.confirmed t ht hunsettled)
        (hvalid.flushed t (hvalid.unsettled t ht hunsettled))
    · exact h.feed feed' hfeed'
  | sever => exact ⟨h.confirmed, fun _ hfeed' => by cases hfeed'⟩

lemma Valid.step (h : s.Valid reader wal) (label : Label) :
    (s.step reader wal label).Valid reader wal := by
  unfold System.step
  split
  · rename_i feed hfeed
    exact h.stepFeed hfeed label
  · split
    · split
      · rename_i hstart
        refine ⟨h.confirmed, fun feed hfeed => ?_⟩
        obtain rfl := Option.some.inj hfeed
        exact Feed.valid_connect hstart h.confirmed
      · exact h
    · exact h

lemma valid_run (reader : Reader) (wal : Wal) (labels : List Label) :
    (run reader wal labels).Valid reader wal :=
  invariant_foldl (fun _ label h => h.step label) valid_init labels

/-- Every transaction with an unacknowledged row ends beyond what the server has confirmed and what
the reader reports, and once the session is severed, a new one is sent it. -/
def Safe (reader : Reader) (wal : Wal) (s : System) : Prop :=
  ∀ t ∈ wal.transactions, t.Unsettled reader s.settled →
    s.confirmed < t.endLsn ∧
    (∀ feed, s.feed = some feed → feed.session.flushedLsn < t.endLsn) ∧
    ∀ start ≤ s.confirmed, ∃ feed,
      ((s.step reader wal .sever).step reader wal (.connect start)).feed = some feed ∧
        t ∈ feed.queue

lemma step_sever : s.step reader wal .sever = { s with feed := none } := by
  unfold System.step
  split
  · rfl
  · rename_i hnone
    rw [← hnone]

lemma feed_reconnect {start : ℕ} (h : start ≤ s.confirmed) :
    ((s.step reader wal .sever).step reader wal (.connect start)).feed =
      some (.connect wal s.confirmed start) := by
  rw [step_sever]
  simp only [System.step]
  rw [if_pos h]

/-- Whatever frames come, however publications fare, and wherever sessions end: the confirmed
position never passes a transaction with an unacknowledged row, and a new session is sent each of
them again. -/
theorem safe_run (reader : Reader) (wal : Wal) (labels : List Label) :
    (run reader wal labels).Safe reader wal := by
  intro t ht hunsettled
  have hvalid := valid_run reader wal labels
  have hconfirmed := hvalid.confirmed t ht hunsettled
  refine ⟨hconfirmed.trans_lt (wal.ends t ht), fun feed hfeed => ?_, fun start hstart => ?_⟩
  · have hfeedValid := hvalid.feed feed hfeed
    exact (hfeedValid.flushed t (hfeedValid.unsettled t ht hunsettled)).trans_lt (wal.ends t ht)
  · refine ⟨_, feed_reconnect hstart, ?_⟩
    exact mem_filter.2 ⟨ht, decide_eq_true hconfirmed⟩

end System

namespace Sample

/-- A log of one transaction with two rows. -/
def orders : Wal where
  transactions := [transaction 1 [(110, ["ink"]), (120, ["pen"])]]
  slot := 100
  ordered := by decide
  ends := by decide
  after := by decide

/-- A session up to the commit. -/
def session : List Label := [.connect 0, .keepalive 150, .deliver, .deliver, .deliver, .deliver]

/-- A stop of the publication that goes well. -/
def succeeds : Label := .publish ⟨false, some (), some ⟨false⟩⟩

/-- A session that settles one of two rows, confirms the keepalive and is severed. -/
def severed : List Label := session ++ List.replicate 5 succeeds ++ [.feedback, .sever]

/-- The half settled transaction is beyond the confirmed position. -/
theorem half_settled_is_unconfirmed :
    ∃ t ∈ orders.transactions, t.Unsettled shop (System.run shop orders severed).settled ∧
      (System.run shop orders severed).confirmed < t.endLsn := by
  have hunsettled : (transaction 1 [(110, ["ink"]), (120, ["pen"])]).Unsettled shop
      (System.run shop orders severed).settled := ⟨1, by decide +kernel, by decide +kernel⟩
  have hsafe := System.safe_run shop orders severed _ mem_cons_self hunsettled
  exact ⟨_, mem_cons_self, hunsettled, hsafe.1⟩

-- The severed session confirms the keepalive only. The next one is sent both rows again and
-- confirms the end of the transaction.
example : (System.run shop orders severed).confirmed = 150 := by decide +kernel

example : (System.run shop orders
    (severed ++ session ++ List.replicate 7 succeeds ++ [.feedback])).confirmed = 199 := by
  decide +kernel

end Sample

end Wamn.Cdc
