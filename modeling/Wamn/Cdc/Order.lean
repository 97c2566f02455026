import Wamn.Cdc.Publish
import Wamn.Lib.DedupStream

/-!
# The order of a transaction in the stream

JetStream stores a message that it accepts unless it accepted one with its id before, and every
publish and every acknowledgment may be lost. Rows are sent without waiting for the acknowledgments
of those before them. If a publish is lost while a later one is accepted, the pass fails when the
lost one is settled, and the next pass stores the lost row behind the later one.

The messages of a transaction are in the order of its rows exactly if this never happens, as the log
of the sends tells: a pass sends its rows in ascending order, from the first one that is not
acknowledged on.
-/

namespace Wamn.Cdc

open List Lib

/-- What becomes of a stop: whether the token is cancelled, whether the server accepts a publish,
whether the send succeeds for the client, and whether the acknowledgment arrives. -/
structure Fate where
  cancelled : Bool
  accepted : Bool
  sent : Bool
  acknowledged : Bool

/-- A publication with its stream. A held acknowledgment is none if the publish was lost. -/
structure JetStream where
  pipeline : Pipeline (Option PublishAcknowledgment)
  stream : DedupStream PreparedMsg String

namespace JetStream

/-- A publication that starts on a stream. -/
def start (stream : DedupStream PreparedMsg String) : JetStream := ⟨.start, stream⟩

variable (msgs : List PreparedMsg) (bound : ℕ)

variable (w : JetStream) (fate : Fate)

/-- The row whose message the server accepts at this stop. -/
def accepts : Option ℕ :=
  if fate.accepted && !fate.cancelled then w.pipeline.sending msgs.length else none

/-- What the server answers to a publish: whether it stored the id before. -/
def acknowledgment : Option PublishAcknowledgment :=
  ((w.accepts msgs fate).bind fun i => msgs[i]?).map fun msg => ⟨decide (msg.id ∈ w.stream.window)⟩

/-- What the publication learns at the stop. -/
def reply : Reply (Option PublishAcknowledgment) where
  cancelled := fate.cancelled
  sent := if fate.sent then some (w.acknowledgment msgs fate) else none
  settled := if fate.acknowledged then w.pipeline.settling.bind Prod.snd else none

/-- The stream after the stop. -/
def receive : DedupStream PreparedMsg String :=
  match (w.accepts msgs fate).bind fun i => msgs[i]? with
  | some msg => w.stream.step PreparedMsg.id (.received msg)
  | none => w.stream

/-- One stop. -/
def step : JetStream :=
  ⟨w.pipeline.step msgs.length bound (w.reply msgs fate), w.receive msgs fate⟩

/-- The publication after these stops. -/
def run (fates : List Fate) : JetStream := fates.foldl (step msgs bound) w

/-- The stream has a message of this id. -/
def Stores (msg : PreparedMsg) : Prop :=
  msg.id ∈ w.stream.stored.map PreparedMsg.id

/-- A pass starts, or a row is sent and the server accepts or loses it. -/
inductive Entry where
  | started
  | sent (row : ℕ) (accepted : Bool)
  deriving DecidableEq

/-- What a stop adds to the log. -/
def entry : Option Entry :=
  if fate.cancelled then none
  else match w.pipeline.phase with
    | .attempt => some .started
    | .pass =>
      if w.pipeline.idx < msgs.length then some (.sent w.pipeline.idx fate.accepted) else none
    | _ => none

/-- The log of a run. -/
def log (w : JetStream) : List Fate → List Entry
  | [] => []
  | fate :: fates => (w.entry msgs fate).toList ++ log (w.step msgs bound fate) fates

/-- The sends of a pass after one more entry. -/
def extend (pass : List (ℕ × Bool)) : Entry → List (ℕ × Bool)
  | .started => []
  | .sent row accepted => pass ++ [(row, accepted)]

/-- The sends of the last pass that a log shows. -/
def lastPass (log : List Entry) : List (ℕ × Bool) := log.foldl extend []

/-- The stream has the message of a row. -/
def Has (msgs : List PreparedMsg) (w : JetStream) (row : ℕ) : Prop :=
  ∃ msg, msgs[row]? = some msg ∧ w.Stores msg

/-- The server lost a row in the pass and never accepted it, and it accepts a later one for the
first time. -/
def Overtakes (held : ℕ → Prop) (log : List Entry) : Prop :=
  ∃ before row after lost, log = before ++ .sent row true :: after ∧
    (lost, false) ∈ lastPass before ∧ ¬ (held lost ∨ .sent lost true ∈ before) ∧
    ¬ (held row ∨ .sent row true ∈ before)

/-- If the server accepts a row that is not in the stream, then all rows before it are. -/
def InTurn : Prop :=
  ∀ i msg, w.accepts msgs fate = some i → msgs[i]? = some msg →
    w.Stores msg ∨ ∀ earlier ∈ msgs.take i, w.Stores earlier

/-! ## What the acknowledgments say -/

variable {msgs bound} {w : JetStream} {fate : Fate}

/-- An acknowledgment of the server means that the message is stored. -/
structure Valid (msgs : List PreparedMsg) (w : JetStream) : Prop where
  pipeline : w.pipeline.Valid msgs.length
  total : w.stream.Total PreparedMsg.id
  acked : ∀ msg ∈ msgs.take w.pipeline.firstUnacked, w.Stores msg
  held : ∀ i ack msg, (i, some ack) ∈ w.pipeline.held → msgs[i]? = some msg → w.Stores msg

variable {i : ℕ} {ack : Option PublishAcknowledgment} {stream : DedupStream PreparedMsg String}

lemma sending_of_accepts (h : w.accepts msgs fate = some i) :
    w.pipeline.sending msgs.length = some i := by
  unfold accepts at h
  split at h
  · exact h
  · cases h

lemma lt_of_accepts (h : w.accepts msgs fate = some i) : i < msgs.length := by
  obtain ⟨-, rfl, hlt⟩ := Pipeline.sending_eq_some.1 (sending_of_accepts h)
  exact hlt

lemma receive_of_accepts (h : w.accepts msgs fate = some i) (hi : i < msgs.length) :
    w.receive msgs fate = w.stream.step PreparedMsg.id (.received msgs[i]) := by
  unfold receive
  rw [h, Option.bind_some, getElem?_eq_getElem hi]

lemma receive_of_none (h : w.accepts msgs fate = none) : w.receive msgs fate = w.stream := by
  unfold receive
  rw [h, Option.bind_none]

lemma Stores.step {msg : PreparedMsg} (h : w.Stores msg) :
    (w.step msgs bound fate).Stores msg := by
  show msg.id ∈ (w.receive msgs fate).stored.map PreparedMsg.id
  obtain ⟨stored, hstored, hid⟩ := mem_map.1 h
  refine mem_map.2 ⟨stored, ?_, hid⟩
  cases haccepts : w.accepts msgs fate with
  | none => rwa [receive_of_none haccepts]
  | some i =>
    rw [receive_of_accepts haccepts (lt_of_accepts haccepts)]
    exact DedupStream.mem_stored_step hstored _

lemma stores_of_accepts (htotal : w.stream.Total PreparedMsg.id) {msg : PreparedMsg}
    (h : w.accepts msgs fate = some i) (hmsg : msgs[i]? = some msg) :
    (w.step msgs bound fate).Stores msg := by
  obtain ⟨hi, rfl⟩ := List.getElem?_eq_some_iff.1 hmsg
  show msgs[i].id ∈ (w.receive msgs fate).stored.map PreparedMsg.id
  rw [receive_of_accepts h hi]
  by_cases hold : msgs[i].id ∈ w.stream.window
  · rw [DedupStream.step_received_of_mem hold]
    exact (htotal.mem_window _).1 hold
  · rw [DedupStream.step_received_of_notMem hold]
    simp

lemma total_receive (htotal : w.stream.Total PreparedMsg.id) :
    (w.receive msgs fate).Total PreparedMsg.id := by
  cases haccepts : w.accepts msgs fate with
  | none => rwa [receive_of_none haccepts]
  | some i =>
    rw [receive_of_accepts haccepts (lt_of_accepts haccepts)]
    exact htotal.received _

lemma acknowledged_of_settled {row : ℕ} (hsettling : w.pipeline.settling = some (row, ack))
    (h : (w.reply msgs fate).settled ≠ none) : ∃ known, ack = some known := by
  unfold reply at h
  rw [hsettling] at h
  dsimp only at h
  split at h
  · exact Option.ne_none_iff_exists'.1 h
  · exact absurd rfl h

lemma mem_held_of_settling {row : ℕ} (h : w.pipeline.settling = some (row, ack)) :
    (row, ack) ∈ w.pipeline.held := by
  unfold Pipeline.settling at h
  split at h
  · exact mem_of_mem_head? h
  · cases h

lemma accepts_of_sent {row : ℕ} {ack : PublishAcknowledgment}
    (hsending : w.pipeline.sending msgs.length = some row)
    (h : (w.reply msgs fate).sent = some (some ack)) : w.accepts msgs fate = some row := by
  unfold reply acknowledgment at h
  dsimp only at h
  split at h
  · obtain ⟨msg, hmsg, -⟩ := Option.map_eq_some_iff.1 (Option.some.inj h)
    obtain ⟨i, hi, -⟩ := Option.bind_eq_some_iff.1 hmsg
    have hsame : w.accepts msgs fate = w.pipeline.sending msgs.length := by
      unfold accepts at hi ⊢
      split at hi
      · rename_i haccepted
        rw [if_pos haccepted]
      · cases hi
    rw [hsame, hsending]
  · cases h

lemma Valid.step (h : w.Valid msgs) (fate : Fate) : (w.step msgs bound fate).Valid msgs where
  pipeline := h.pipeline.step _
  total := total_receive h.total
  acked := by
    intro msg hmsg
    change msg ∈ msgs.take (w.pipeline.step msgs.length bound (w.reply msgs fate)).firstUnacked
      at hmsg
    rcases w.pipeline.firstUnacked_step msgs.length bound (w.reply msgs fate) with
      hsame | ⟨row, ack, hsettling, hsettled, hnext⟩
    · rw [hsame] at hmsg
      exact (h.acked msg hmsg).step
    · rw [hnext] at hmsg
      obtain rfl := h.pipeline.settling hsettling
      -- The server acknowledged the publish of this row, so it stored it.
      obtain ⟨i, hi, rfl⟩ := mem_take_iff_getElem.1 hmsg
      have hi' : i < msgs.length := by omega
      by_cases hrow : i < w.pipeline.firstUnacked
      · exact (h.acked _ (mem_take_iff_getElem.2 ⟨i, by omega, rfl⟩)).step
      · obtain rfl : i = w.pipeline.firstUnacked := by omega
        obtain ⟨known, rfl⟩ := acknowledged_of_settled hsettling hsettled
        exact (h.held _ known _ (mem_held_of_settling hsettling)
          (getElem?_eq_getElem hi')).step
  held := by
    intro i ack msg hheld hmsg
    rcases Pipeline.mem_held_step hheld with hold | ⟨hsending, hcancelled, hsent⟩
    · exact (h.held i ack msg hold hmsg).step
    · exact stores_of_accepts h.total (accepts_of_sent hsending hsent) hmsg

lemma valid_start (h : stream.Total PreparedMsg.id) : (start stream).Valid msgs :=
  ⟨Pipeline.valid_start, h, by simp [start, Pipeline.start], by simp [start, Pipeline.start]⟩

lemma valid_run (h : stream.Total PreparedMsg.id) (fates : List Fate) :
    ((start stream).run msgs bound fates).Valid msgs :=
  invariant_foldl (fun _ fate h => h.step fate) (valid_start h) fates

lemma stores_of_acked (h : w.Valid msgs) {tally : PublishTally}
    (hacked : w.pipeline.phase = .done (.acked tally)) : ∀ msg ∈ msgs, w.Stores msg := by
  have hfits := h.pipeline.fits
  rw [hacked] at hfits
  intro msg hmsg
  refine h.acked msg ?_
  rwa [hfits.1, take_length]

/-! ## Order -/

/-- The stream holds a first part of the transaction, in order. -/
def Ordered (msgs : List PreparedMsg) (w : JetStream) : Prop :=
  w.stream.under PreparedMsg.id msgs <+: msgs

lemma ordered_of_step (h : (w.step msgs bound fate).Ordered msgs) : w.Ordered msgs := by
  refine List.IsPrefix.trans ?_ h
  show w.stream.under PreparedMsg.id msgs <+: (w.receive msgs fate).under PreparedMsg.id msgs
  cases haccepts : w.accepts msgs fate with
  | none =>
    have hsame : w.receive msgs fate = w.stream := receive_of_none haccepts
    exact hsame ▸ prefix_rfl
  | some i =>
    rw [receive_of_accepts haccepts (lt_of_accepts haccepts)]
    exact DedupStream.under_isPrefix_received _

lemma ordered_step_iff (hvalid : w.Valid msgs) (hnodup : (msgs.map PreparedMsg.id).Nodup)
    (h : w.Ordered msgs) : (w.step msgs bound fate).Ordered msgs ↔ w.InTurn msgs fate := by
  show (w.receive msgs fate).under PreparedMsg.id msgs <+: msgs ↔ _
  cases haccepts : w.accepts msgs fate with
  | none =>
    rw [receive_of_none haccepts]
    refine iff_of_true h fun i msg hi => ?_
    rw [haccepts] at hi
    cases hi
  | some i =>
    have hi := lt_of_accepts haccepts
    rw [receive_of_accepts haccepts hi, DedupStream.isPrefix_received_iff h hnodup hvalid.total hi]
    constructor
    · rintro hturn j msg hj hmsg
      obtain rfl := Option.mem_unique haccepts hj
      obtain rfl := Option.some.inj ((getElem?_eq_getElem hi).symm.trans hmsg)
      exact hturn
    · intro hturn
      exact hturn i msgs[i] haccepts (getElem?_eq_getElem hi)

/-! ## The log -/

variable {entries : List Entry} {row : ℕ}

lemma log_append (w : JetStream) (before after : List Fate) :
    w.log msgs bound (before ++ after) =
      w.log msgs bound before ++ (w.run msgs bound before).log msgs bound after := by
  induction before generalizing w with
  | nil => rfl
  | cons fate before ih =>
    rw [cons_append, log, log, ih, append_assoc]
    rfl

/-- An entry of the log was added at some stop. -/
theorem stop_of_log {fates : List Fate} {before after : List Entry} {e : Entry}
    (h : w.log msgs bound fates = before ++ e :: after) :
    ∃ earlier fate later, fates = earlier ++ fate :: later ∧ w.log msgs bound earlier = before ∧
      (w.run msgs bound earlier).entry msgs fate = some e := by
  induction fates generalizing w before with
  | nil => simp [log] at h
  | cons fate fates ih =>
    have hrest : ∀ before', (w.step msgs bound fate).log msgs bound fates = before' ++ e :: after →
        (w.entry msgs fate).toList ++ before' = before →
        ∃ earlier fate' later, fate :: fates = earlier ++ fate' :: later ∧
          w.log msgs bound earlier = before ∧
          (w.run msgs bound earlier).entry msgs fate' = some e := by
      rintro before' hlog rfl
      obtain ⟨earlier, fate', later, rfl, rfl, hentry⟩ := ih hlog
      exact ⟨fate :: earlier, fate', later, rfl, rfl, hentry⟩
    rw [log] at h
    cases hentry : w.entry msgs fate with
    | none => exact hrest before (by simpa [hentry] using h) (by simp [hentry])
    | some e' =>
      rw [hentry] at h
      cases before with
      | nil =>
        obtain ⟨rfl, -⟩ := List.cons.inj h
        exact ⟨[], fate, fates, rfl, rfl, hentry⟩
      | cons first before =>
        obtain ⟨rfl, hlog⟩ := List.cons.inj h
        exact hrest before hlog (by simp [hentry])

lemma lastPass_append (entries : List Entry) (e : Option Entry) :
    lastPass (entries ++ e.toList) = e.elim (lastPass entries) (extend (lastPass entries)) := by
  cases e with
  | none => simp
  | some e => simp [lastPass]

lemma accepts_eq_some :
    w.accepts msgs fate = some row ↔ w.entry msgs fate = some (.sent row true) := by
  unfold accepts entry Pipeline.sending
  cases w.pipeline.phase <;> cases fate.cancelled <;> cases fate.accepted <;> simp

lemma mem_of_foldl_extend {log : List Entry} {pass : List (ℕ × Bool)} {row : ℕ} {accepted : Bool}
    (h : (row, accepted) ∈ log.foldl extend pass) :
    (row, accepted) ∈ pass ∨ .sent row accepted ∈ log := by
  induction log generalizing pass with
  | nil => exact .inl h
  | cons e log ih =>
    rcases ih h with h | h
    · cases e with
      | started => cases h
      | sent row' accepted' =>
        rcases mem_append.1 h with h | h
        · exact .inl h
        · cases mem_singleton.1 h
          exact .inr mem_cons_self
    · exact .inr (mem_cons_of_mem _ h)

lemma mem_of_lastPass {log : List Entry} {row : ℕ} {accepted : Bool}
    (h : (row, accepted) ∈ lastPass log) : .sent row accepted ∈ log :=
  (mem_of_foldl_extend h).resolve_left not_mem_nil

/-- What the sends of a pass say about the publication. -/
structure Passes (pass : List (ℕ × Bool)) (p : Pipeline (Option PublishAcknowledgment)) : Prop where
  /-- What is not settled was sent in this pass. -/
  held : ∀ row ack, (row, ack) ∈ p.held → ∃ accepted, (row, accepted) ∈ pass
  /-- The pass has come past the rows that it sent. -/
  below : p.phase = .pass ∨ (∃ last, p.phase = .settling last) →
    ∀ row accepted, (row, accepted) ∈ pass → row < p.idx

lemma entry_eq_none (hstart : w.pipeline.phase ≠ .attempt)
    (hpass : w.pipeline.phase = .pass → msgs.length ≤ w.pipeline.idx) :
    w.entry msgs fate = none := by
  unfold entry
  cases hphase : w.pipeline.phase <;> simp_all

lemma Passes.step {pass : List (ℕ × Bool)} (h : Passes pass w.pipeline) (fate : Fate) :
    Passes ((w.entry msgs fate).elim pass (extend pass)) (w.step msgs bound fate).pipeline := by
  have hmoves := w.pipeline.moves_step msgs.length bound (w.reply msgs fate)
  change Passes _ (w.pipeline.step msgs.length bound (w.reply msgs fate))
  generalize w.pipeline.step msgs.length bound (w.reply msgs fate) = p' at hmoves ⊢
  cases hmoves with
  | cancelled hphase hcancelled =>
    have hnone : w.entry msgs fate = none := if_pos hcancelled
    rw [hnone]
    exact ⟨h.held, by simp⟩
  | started hphase hcancelled =>
    have hstarted : w.entry msgs fate = some .started := by
      have hcancelled : fate.cancelled = false := hcancelled
      simp [entry, hphase, hcancelled]
    rw [hstarted]
    exact ⟨nofun, fun _ => nofun⟩
  | sent ack hphase hlt hcancelled =>
    have hsent : w.entry msgs fate = some (.sent w.pipeline.idx fate.accepted) := by
      have hcancelled : fate.cancelled = false := hcancelled
      simp [entry, hphase, hlt, hcancelled]
    rw [hsent]
    refine ⟨fun row ack' hheld => ?_, fun _ row accepted hmem => ?_⟩
    · rcases mem_append.1 hheld with hheld | hheld
      · obtain ⟨accepted, hmem⟩ := h.held row ack' hheld
        exact ⟨accepted, mem_append_left _ hmem⟩
      · obtain ⟨rfl, -⟩ := Prod.mk.inj (mem_singleton.1 hheld)
        exact ⟨fate.accepted, mem_append_right _ mem_cons_self⟩
    · show row < w.pipeline.idx + 1
      rcases mem_append.1 hmem with hmem | hmem
      · exact Nat.lt_succ_of_lt (h.below (.inl hphase) row accepted hmem)
      · obtain ⟨rfl, -⟩ := Prod.mk.inj (mem_singleton.1 hmem)
        exact Nat.lt_succ_self _
  | unsent | unsettled => exact ⟨nofun, by simp⟩
  | sentAll hphase hge =>
    rw [entry_eq_none (by simp [hphase]) fun _ => hge]
    exact ⟨h.held, fun _ => h.below (.inl hphase)⟩
  | settled last row ack held acknowledgment hphase hheld =>
    rw [entry_eq_none (by simp [hphase]) (by simp [hphase])]
    refine ⟨fun row' ack' hmem => h.held row' ack' ?_, fun _ => h.below (.inr ⟨last, hphase⟩)⟩
    rw [hheld]
    exact mem_cons_of_mem _ hmem
  | settledAll last hphase =>
    rw [entry_eq_none (by simp [hphase]) (by simp [hphase])]
    exact ⟨h.held, fun _ => h.below (.inr ⟨last, hphase⟩)⟩
  | retried hphase =>
    rw [entry_eq_none (by simp [hphase]) (by simp [hphase])]
    exact ⟨h.held, by simp⟩
  | ended outcome hphase =>
    rw [entry_eq_none (by simp [hphase]) (by simp [hphase])]
    exact h

lemma has_step_iff (hvalid : w.Valid msgs) (hnodup : (msgs.map PreparedMsg.id).Nodup) (row : ℕ) :
    (w.step msgs bound fate).Has msgs row ↔ w.Has msgs row ∨ w.accepts msgs fate = some row := by
  constructor
  · rintro ⟨msg, hmsg, hstores⟩
    cases haccepts : w.accepts msgs fate with
    | none =>
      have hsame : w.receive msgs fate = w.stream := receive_of_none haccepts
      exact .inl ⟨msg, hmsg, by rw [Stores, ← hsame]; exact hstores⟩
    | some i =>
      have hi := lt_of_accepts haccepts
      change msg.id ∈ (w.receive msgs fate).stored.map PreparedMsg.id at hstores
      rw [receive_of_accepts haccepts hi] at hstores
      by_cases hold : msgs[i].id ∈ w.stream.window
      · rw [DedupStream.step_received_of_mem hold] at hstores
        exact .inl ⟨msg, hmsg, hstores⟩
      · rw [DedupStream.step_received_of_notMem hold, map_append, mem_append] at hstores
        refine hstores.imp (fun h => ⟨msg, hmsg, h⟩) fun hid => ?_
        -- The message that was stored now has the id of this row, so it is this row's.
        obtain ⟨hrow, rfl⟩ := List.getElem?_eq_some_iff.1 hmsg
        have hid : msgs[row].id = msgs[i].id := mem_singleton.1 hid
        have hsame : row = i := (List.Nodup.getElem_inj_iff hnodup.of_map).1
          (inj_on_of_nodup_map hnodup (getElem_mem _) (getElem_mem _) hid)
        rw [hsame]
  · rintro (⟨msg, hmsg, hstores⟩ | haccepts)
    · exact ⟨msg, hmsg, hstores.step⟩
    · have hmsg := getElem?_eq_getElem (lt_of_accepts haccepts)
      exact ⟨_, hmsg, stores_of_accepts hvalid.total haccepts hmsg⟩

/-- A row that the server accepts is in its turn exactly if no earlier one of the pass was lost for
good. -/
theorem inTurn_iff_of_accepts {held : ℕ → Prop} {before : List Entry} (hvalid : w.Valid msgs)
    (hhas : ∀ row, w.Has msgs row ↔ held row ∨ .sent row true ∈ before)
    (hpasses : Passes (lastPass before) w.pipeline) (haccepts : w.accepts msgs fate = some row) :
    w.InTurn msgs fate ↔ ¬ ∃ lost, (lost, false) ∈ lastPass before ∧ ¬ w.Has msgs lost ∧
      ¬ w.Has msgs row := by
  have hrow := lt_of_accepts haccepts
  obtain ⟨hphase, hidx, -⟩ := Pipeline.sending_eq_some.1 (sending_of_accepts haccepts)
  constructor
  · rintro hturn ⟨lost, hlost, hnever, hnew⟩
    -- The pass sends its rows in ascending order.
    have hlt : lost < row := hidx ▸ hpasses.below (.inl hphase) lost false hlost
    rcases hturn row _ haccepts (getElem?_eq_getElem hrow) with hstores | hall
    · exact hnew ⟨_, getElem?_eq_getElem hrow, hstores⟩
    · exact hnever ⟨_, getElem?_eq_getElem (hlt.trans hrow),
        hall _ (mem_take_iff_getElem.2 ⟨lost, by omega, rfl⟩)⟩
  · intro hnot i msg hi hmsg
    obtain rfl := Option.mem_unique haccepts hi
    refine or_iff_not_imp_left.2 fun hnew earlier hearlier => ?_
    by_contra hnever
    obtain ⟨lost, hlt, rfl⟩ := mem_take_iff_getElem.1 hearlier
    -- What is acknowledged is in the stream, so the pass sent the row and waits to settle it.
    have hunacked : w.pipeline.firstUnacked ≤ lost := by
      by_contra hacked
      exact hnever (hvalid.acked _ (mem_take_iff_getElem.2 ⟨lost, by omega, rfl⟩))
    have hheld : lost ∈ w.pipeline.held.map Prod.fst := by
      have hfits := hvalid.pipeline.fits
      rw [hphase] at hfits
      rw [hvalid.pipeline.rows, mem_range'_1]
      have := hfits.1
      omega
    obtain ⟨⟨_, ack⟩, hack, rfl⟩ := mem_map.1 hheld
    have hlost : ¬ w.Has msgs _ := fun ⟨msg, hmsg, hstores⟩ =>
      hnever ((List.getElem?_eq_some_iff.1 hmsg).2 ▸ hstores)
    obtain ⟨accepted, hsent⟩ := hpasses.held _ ack hack
    cases accepted with
    | true => exact hlost ((hhas _).2 (.inr (mem_of_lastPass hsent)))
    | false =>
      exact hnot ⟨_, hsent, hlost, fun ⟨msg', hmsg', hstores⟩ =>
        hnew (Option.mem_unique hmsg hmsg' ▸ hstores)⟩

section Run

variable (htotal : stream.Total PreparedMsg.id) (hnodup : (msgs.map PreparedMsg.id).Nodup)

include htotal hnodup

/-- The stream has what it had and what the server accepted, and the pass is as the log shows it. -/
theorem log_run (bound : ℕ) (fates : List Fate) :
    (∀ row, ((start stream).run msgs bound fates).Has msgs row ↔ (start stream).Has msgs row ∨
      .sent row true ∈ (start stream).log msgs bound fates) ∧
    Passes (lastPass ((start stream).log msgs bound fates))
      ((start stream).run msgs bound fates).pipeline := by
  induction fates using List.reverseRecOn with
  | nil => exact ⟨by simp [log, run], nofun, by simp [run, start, Pipeline.start]⟩
  | append_singleton fates fate ih =>
    obtain ⟨hhas, hpasses⟩ := ih
    have hrun : (start stream).run msgs bound (fates ++ [fate]) =
        ((start stream).run msgs bound fates).step msgs bound fate := foldl_concat ..
    have hlog : (start stream).log msgs bound (fates ++ [fate]) =
        (start stream).log msgs bound fates ++
          (((start stream).run msgs bound fates).entry msgs fate).toList := by
      rw [log_append, log, log, append_nil]
    rw [hrun, hlog, lastPass_append]
    refine ⟨fun row => ?_, hpasses.step fate⟩
    rw [has_step_iff (valid_run htotal fates) hnodup, hhas, accepts_eq_some, mem_append,
      Option.mem_toList, or_assoc]

/-- Every row is accepted in its turn exactly if none overtakes another one. -/
theorem inTurn_iff_not_overtakes (fates : List Fate) :
    (∀ before fate after, fates = before ++ fate :: after →
      ((start stream).run msgs bound before).InTurn msgs fate) ↔
    ¬ Overtakes ((start stream).Has msgs) ((start stream).log msgs bound fates) := by
  have hstop {before : List Fate} {fate : Fate} {row : ℕ}
      (haccepts : ((start stream).run msgs bound before).accepts msgs fate = some row) :=
    inTurn_iff_of_accepts (valid_run htotal before) (log_run htotal hnodup bound before).1
      (log_run htotal hnodup bound before).2 haccepts
  constructor
  · rintro hturns ⟨before, row, after, lost, hlog, hlost, hnever, hnew⟩
    obtain ⟨earlier, fate, later, rfl, rfl, hentry⟩ := stop_of_log hlog
    rw [← (log_run htotal hnodup bound earlier).1] at hnever hnew
    exact (hstop (accepts_eq_some.2 hentry)).1 (hturns earlier fate later rfl)
      ⟨lost, hlost, hnever, hnew⟩
  · rintro hnot before fate after rfl row msg haccepts
    refine (hstop haccepts).2 (fun ⟨lost, hlost, hnever, hnew⟩ => hnot ?_) row msg haccepts
    rw [(log_run htotal hnodup bound before).1] at hnever hnew
    have hlog : (start stream).log msgs bound (before ++ fate :: after) =
        (start stream).log msgs bound before ++ .sent row true ::
          (((start stream).run msgs bound before).step msgs bound fate).log msgs bound after := by
      rw [log_append, log, accepts_eq_some.1 haccepts]
      rfl
    exact ⟨_, row, _, lost, hlog, hlost, hnever, hnew⟩

end Run

end JetStream

open JetStream

/-- An acknowledged transaction stands in the stream in the order of its rows exactly if its
messages have different ids, what the stream held of it was a first part of it in order, and no row
overtook another one that the server had lost. -/
theorem acked_in_order_iff {msgs : List PreparedMsg} {bound : ℕ}
    {stream : DedupStream PreparedMsg String} {fates : List Fate} {tally : PublishTally}
    (htotal : stream.Total PreparedMsg.id)
    (hacked : ((start stream).run msgs bound fates).pipeline.phase = .done (.acked tally)) :
    msgs.Sublist ((start stream).run msgs bound fates).stream.stored ↔
      (msgs.map PreparedMsg.id).Nodup ∧ stream.under PreparedMsg.id msgs <+: msgs ∧
        ¬ Overtakes ((start stream).Has msgs) ((start stream).log msgs bound fates) := by
  have hvalid : ((start stream).run msgs bound fates).Valid msgs := valid_run htotal fates
  rw [← DedupStream.under_eq_iff_sublist hvalid.total]
  have hordered : (msgs.map PreparedMsg.id).Nodup →
      (((start stream).run msgs bound fates).Ordered msgs ↔ (start stream).Ordered msgs ∧
        ¬ Overtakes ((start stream).Has msgs) ((start stream).log msgs bound fates)) := by
    intro hnodup
    rw [← inTurn_iff_not_overtakes htotal hnodup]
    exact foldl_iff (I := fun w : JetStream => w.Valid msgs) (P := fun w => w.Ordered msgs)
      (C := fun w fate => w.InTurn msgs fate) (fun _ fate h => h.step fate)
      (fun _ _ _ h => ordered_of_step h) (fun _ _ hw h => ordered_step_iff hw hnodup h)
      (valid_start htotal) fates
  constructor
  · -- The stream stores no id twice, so an order over all rows tells them apart.
    intro hall
    have hnodup : (msgs.map PreparedMsg.id).Nodup := by
      rw [← hall]
      exact hvalid.total.nodup.sublist (filter_sublist.map _)
    have hend : ((start stream).run msgs bound fates).Ordered msgs := by
      show _ <+: _
      exact hall.symm ▸ prefix_rfl
    exact ⟨hnodup, (hordered hnodup).1 hend⟩
  · rintro ⟨hnodup, hfirst, hnot⟩
    exact DedupStream.under_eq_of_isPrefix ((hordered hnodup).2 ⟨hfirst, hnot⟩) hnodup
      (stores_of_acked hvalid hacked)

namespace Sample

/-- Two messages. -/
def rows : List PreparedMsg :=
  [⟨"evt.a.insert", "id-1", "first"⟩, ⟨"evt.a.insert", "id-2", "second"⟩]

/-- All goes well. -/
def well : Fate := ⟨false, true, true, true⟩

/-- A publication of two rows that goes well. -/
def smooth : List Fate := List.replicate 7 well

/-- A transaction that goes well is in order, without an overtaking row. -/
theorem smooth_in_order :
    rows.Sublist ((start .empty).run rows maxInFlight smooth).stream.stored ∧
      (start .empty).log rows maxInFlight smooth = [.started, .sent 0 true, .sent 1 true] ∧
      ¬ Overtakes ((start .empty).Has rows) ((start .empty).log rows maxInFlight smooth) := by
  have hacked : ((start .empty).run rows maxInFlight smooth).pipeline.phase =
      .done (.acked ⟨2, 0⟩) := rfl
  have hiff := acked_in_order_iff DedupStream.total_empty hacked
  have hsublist : rows.Sublist ((start .empty).run rows maxInFlight smooth).stream.stored := by
    decide
  exact ⟨hsublist, rfl, (hiff.1 hsublist).2.2⟩

/-- The first row is lost at first, and the second is accepted. -/
def firstLost : List Fate :=
  [well, ⟨false, false, true, true⟩, well, well, well, well] ++ smooth

/-- A lost row is retried and acknowledged, and ends in the wrong order. -/
theorem first_lost_out_of_order :
    ((start .empty).run rows maxInFlight firstLost).pipeline.phase = .done (.acked ⟨2, 1⟩) ∧
      ((start .empty).run rows maxInFlight firstLost).stream.stored = rows.reverse ∧
      ¬ rows.Sublist ((start .empty).run rows maxInFlight firstLost).stream.stored :=
  ⟨rfl, by decide, by decide⟩

end Sample

end Wamn.Cdc
