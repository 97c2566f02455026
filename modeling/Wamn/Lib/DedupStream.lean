import Mathlib.Data.List.Perm.Subperm
import Mathlib.Data.List.Nodup

/-!
# Streams that drop repeated ids

A publisher that repeats what may be lost gives every message an id, and the stream drops a message
whose id it accepted a short while ago. Such a stream keeps all that is published exactly if no two
messages share an id. The duplicate window is the list of ids that the stream remembers; it may
forget any of them at any time.
-/

namespace Wamn.Lib

open List

/-- What a stream stored, in order, and the ids in its duplicate window. -/
structure DedupStream (M I : Type) where
  stored : List M
  window : List I

namespace DedupStream

variable {M I : Type}

/-- A stream that has received nothing. -/
def empty : DedupStream M I := ⟨[], []⟩

/-- What happens to a stream: it receives a message, or its window slides. -/
inductive Event (M I : Type) where
  | received (message : M)
  | expired (kept : I → Bool)

variable (id : M → I) (messages : List M)

/-- Every id in the window is of a stored message. -/
def Remembers (s : DedupStream M I) : Prop :=
  ∀ i ∈ s.window, ∃ m ∈ s.stored, id m = i

/-- What is stored under the id of one of the messages is one of them. -/
def Owns (s : DedupStream M I) : Prop :=
  ∀ m ∈ s.stored, id m ∈ messages.map id → m ∈ messages

/-- The event delivers no foreign message under one of the ids. -/
def Event.Respects : Event M I → Prop
  | .received m => id m ∈ messages.map id → m ∈ messages
  | .expired _ => True

lemma remembers_empty : (empty : DedupStream M I).Remembers id :=
  fun _ hi => absurd hi not_mem_nil

lemma owns_empty : (empty : DedupStream M I).Owns id messages :=
  fun _ hm => absurd hm not_mem_nil

lemma respects_received :
    ∀ e ∈ messages.map (Event.received (I := I)), e.Respects id messages := by
  intro e he
  obtain ⟨m, hm, rfl⟩ := mem_map.1 he
  exact fun _ => hm

variable [DecidableEq I]

/-- A received message is stored and remembered, unless its id is in the window. -/
def step (id : M → I) (s : DedupStream M I) : Event M I → DedupStream M I
  | .received m => if id m ∈ s.window then s else ⟨s.stored ++ [m], id m :: s.window⟩
  | .expired kept => { s with window := s.window.filter kept }

/-- The stream after these events. -/
def run (id : M → I) (s : DedupStream M I) (events : List (Event M I)) : DedupStream M I :=
  events.foldl (step id) s

variable {id : M → I} {messages : List M} {s : DedupStream M I}

lemma step_received_of_mem {m : M} (h : id m ∈ s.window) : s.step id (.received m) = s :=
  if_pos h

lemma step_received_of_notMem {m : M} (h : id m ∉ s.window) :
    s.step id (.received m) = ⟨s.stored ++ [m], id m :: s.window⟩ :=
  if_neg h

/-! ## What every step keeps -/

lemma Remembers.step (h : s.Remembers id) (e : Event M I) : (s.step id e).Remembers id := by
  cases e with
  | received m =>
    by_cases hold : id m ∈ s.window
    · rwa [step_received_of_mem hold]
    · rw [step_received_of_notMem hold]
      intro i hi
      rcases mem_cons.1 hi with rfl | hi
      · exact ⟨m, by simp, rfl⟩
      · obtain ⟨m', hm', hid⟩ := h i hi
        exact ⟨m', mem_append_left _ hm', hid⟩
  | expired kept =>
    intro i hi
    exact h i (mem_filter.1 hi).1

lemma Owns.step {e : Event M I} (h : s.Owns id messages) (he : e.Respects id messages) :
    (s.step id e).Owns id messages := by
  cases e with
  | received m =>
    by_cases hold : id m ∈ s.window
    · rwa [step_received_of_mem hold]
    · rw [step_received_of_notMem hold]
      intro m' hm' hid
      rcases mem_append.1 hm' with hm' | hm'
      · exact h m' hm' hid
      · obtain rfl := mem_singleton.1 hm'
        exact he hid
  | expired kept => exact h

lemma mem_stored_step {m : M} (h : m ∈ s.stored) (e : Event M I) : m ∈ (s.step id e).stored := by
  cases e with
  | received m' =>
    by_cases hold : id m' ∈ s.window
    · rwa [step_received_of_mem hold]
    · rw [step_received_of_notMem hold]
      exact mem_append_left _ h
  | expired kept => exact h

/-! ## Different ids -/

section

variable (hnodup : (messages.map id).Nodup) (hremembers : s.Remembers id)
  (howns : s.Owns id messages)

include hnodup hremembers howns

lemma mem_stored_of_received {m : M} (hm : m ∈ messages) :
    m ∈ (s.step id (.received m)).stored := by
  by_cases hold : id m ∈ s.window
  · -- A message with this id is stored already, and it is this one.
    rw [step_received_of_mem hold]
    obtain ⟨m', hm', hid⟩ := hremembers _ hold
    have hmine := howns m' hm' (hid ▸ mem_map_of_mem hm)
    rwa [inj_on_of_nodup_map hnodup hmine hm hid] at hm'
  · rw [step_received_of_notMem hold]
    simp

/-- Of messages with different ids, each is stored once it has been received. -/
theorem mem_stored_run {events : List (Event M I)} (hevents : ∀ e ∈ events, e.Respects id messages)
    {m : M} (hm : m ∈ messages) (hreceived : m ∈ s.stored ∨ .received m ∈ events) :
    m ∈ (s.run id events).stored := by
  induction events generalizing s with
  | nil => exact hreceived.resolve_right (by simp)
  | cons e events ih =>
    have hremembers' := hremembers.step e
    have howns' := howns.step (hevents e (by simp))
    have hevents' := fun e' he' => hevents e' (mem_cons_of_mem e he')
    -- Stored already, received by this event, or received by a later one.
    rcases hreceived with hstored | hreceived
    · exact ih hremembers' howns' hevents' (.inl (mem_stored_step hstored e))
    · rcases mem_cons.1 hreceived with rfl | hlater
      · exact ih hremembers' howns' hevents'
          (.inl (mem_stored_of_received hnodup hremembers howns hm))
      · exact ih hremembers' howns' hevents' (.inr hlater)

lemma subperm_stored {events : List (Event M I)} (hevents : ∀ e ∈ events, e.Respects id messages)
    (hreceived : ∀ m ∈ messages, .received m ∈ events) :
    messages.Subperm (s.run id events).stored :=
  (hnodup.of_map id).subperm fun m hm =>
    mem_stored_run hnodup hremembers howns hevents hm (.inr (hreceived m hm))

end

/-! ## Repeated ids -/

lemma nodup_stored_of_received (received : List M) (hwindow : ∀ m ∈ s.stored, id m ∈ s.window)
    (hnodup : (s.stored.map id).Nodup) :
    ((s.run id (received.map .received)).stored.map id).Nodup := by
  induction received generalizing s with
  | nil => exact hnodup
  | cons m received ih =>
    rw [map_cons, run, foldl_cons]
    by_cases hold : id m ∈ s.window
    · rw [step_received_of_mem hold]
      exact ih hwindow hnodup
    · rw [step_received_of_notMem hold]
      -- The new message is in the window now, and its id is none of the stored ones.
      refine ih (fun m' hm' => ?_) ?_
      · rcases mem_append.1 hm' with hm' | hm'
        · exact mem_cons_of_mem _ (hwindow m' hm')
        · obtain rfl := mem_singleton.1 hm'
          exact mem_cons_self
      · rw [map_append, map_singleton]
        refine nodup_append.2 ⟨hnodup, nodup_singleton _, ?_⟩
        rintro i hi j hj rfl
        obtain rfl := mem_singleton.1 hj
        obtain ⟨m', hm', hid⟩ := mem_map.1 hi
        exact hold (hid ▸ hwindow m' hm')

lemma nodup_of_subperm
    (h : messages.Subperm ((empty : DedupStream M I).run id (messages.map .received)).stored) :
    (messages.map id).Nodup := by
  obtain ⟨stored, hperm, hsublist⟩ := h
  have hnodup : (((empty : DedupStream M I).run id (messages.map .received)).stored.map id).Nodup :=
    nodup_stored_of_received messages (by simp [empty]) nodup_nil
  exact (hperm.map id).nodup_iff.1 (hnodup.sublist (hsublist.map id))

/-- Messages have different ids exactly if every stream that leaves the ids to them has stored them
all once they have all been received. -/
theorem nodup_iff_subperm :
    (messages.map id).Nodup ↔ ∀ (s : DedupStream M I) events, s.Remembers id →
      s.Owns id messages → (∀ e ∈ events, e.Respects id messages) →
      (∀ m ∈ messages, .received m ∈ events) → messages.Subperm (s.run id events).stored := by
  constructor
  · intro hnodup s events hremembers howns hevents hreceived
    exact subperm_stored hnodup hremembers howns hevents hreceived
  · intro hstores
    -- A fresh stream that receives every message once, and forgets nothing.
    exact nodup_of_subperm (hstores empty (messages.map .received) (remembers_empty id)
      (owns_empty id messages) (respects_received id messages) fun m hm => mem_map_of_mem hm)

/-! ## Order -/

/-- The stream has forgotten no id, so it stores one message for each. -/
structure Total (id : M → I) (s : DedupStream M I) : Prop where
  mem_window : ∀ i, i ∈ s.window ↔ i ∈ s.stored.map id
  nodup : (s.stored.map id).Nodup

/-- What the stream has stored under the ids of the messages. -/
def under (id : M → I) (messages : List M) (s : DedupStream M I) : List M :=
  s.stored.filter fun m => id m ∈ messages.map id

omit [DecidableEq I] in
lemma total_empty : (empty : DedupStream M I).Total id :=
  ⟨fun i => by simp [empty], nodup_nil⟩

lemma Total.received (h : s.Total id) (m : M) : (s.step id (.received m)).Total id := by
  by_cases hold : id m ∈ s.window
  · rwa [step_received_of_mem hold]
  · rw [step_received_of_notMem hold]
    constructor
    · intro i
      show i ∈ id m :: s.window ↔ i ∈ (s.stored ++ [m]).map id
      rw [mem_cons, h.mem_window, map_append, mem_append, map_singleton,
        mem_singleton, or_comm]
    · show ((s.stored ++ [m]).map id).Nodup
      rw [map_append, map_singleton, ← concat_eq_append]
      exact h.nodup.concat fun hmem => hold ((h.mem_window _).2 hmem)

lemma under_isPrefix_received (m : M) :
    s.under id messages <+: (s.step id (.received m)).under id messages := by
  by_cases hold : id m ∈ s.window
  · have hsame : s.step id (.received m) = s := step_received_of_mem hold
    exact hsame.symm ▸ prefix_rfl
  · rw [step_received_of_notMem hold]
    exact (prefix_append _ _).filter _

lemma under_eq_iff_sublist (h : s.Total id) :
    s.under id messages = messages ↔ messages.Sublist s.stored := by
  constructor
  · intro heq
    rw [← heq]
    exact filter_sublist
  · intro hsub
    have hsub' : messages.Sublist (s.under id messages) := by
      have hfilter := hsub.filter fun m => id m ∈ messages.map id
      rwa [filter_eq_self.2 fun m hm => decide_eq_true (mem_map_of_mem hm)] at hfilter
    -- Each id under the messages is stored once, so there is no room for more.
    have hnodup : ((s.under id messages).map id).Nodup :=
      h.nodup.sublist (filter_sublist.map id)
    have hsubset : (s.under id messages).map id ⊆ messages.map id := by
      intro i hi
      obtain ⟨m, hm, rfl⟩ := mem_map.1 hi
      exact of_decide_eq_true (mem_filter.1 hm).2
    have hlength : (s.under id messages).length ≤ messages.length := by
      simpa using (hnodup.subperm hsubset).length_le
    exact (hsub'.eq_of_length_le hlength).symm

variable {i : ℕ} (hordered : s.under id messages <+: messages) (hnodup : (messages.map id).Nodup)

include hordered hnodup

lemma under_eq_of_isPrefix (hall : ∀ m ∈ messages, id m ∈ s.stored.map id) :
    s.under id messages = messages := by
  refine hordered.eq_of_length_le ?_
  have hsubset : messages.map id ⊆ (s.under id messages).map id := by
    intro i hi
    obtain ⟨m, hm, rfl⟩ := mem_map.1 hi
    obtain ⟨m', hm', hid⟩ := mem_map.1 (hall m hm)
    refine mem_map.2 ⟨m', mem_filter.2 ⟨hm', ?_⟩, hid⟩
    exact decide_eq_true (hid ▸ hi)
  simpa using (hnodup.subperm hsubset).length_le

lemma mem_stored_iff_lt (hi : i < messages.length) :
    id messages[i] ∈ s.stored.map id ↔ i < (s.under id messages).length := by
  constructor
  · intro hmem
    obtain ⟨m, hm, hid⟩ := mem_map.1 hmem
    have hunder : m ∈ s.under id messages :=
      mem_filter.2 ⟨hm, decide_eq_true (hid ▸ mem_map_of_mem (getElem_mem hi))⟩
    obtain ⟨j, hj, rfl⟩ := getElem_of_mem hunder
    have hj' : j < messages.length := Nat.lt_of_lt_of_le hj hordered.length_le
    -- Two messages of one id are one message.
    have heq : messages[j] = messages[i] := by
      refine inj_on_of_nodup_map hnodup (getElem_mem hj') (getElem_mem hi) ?_
      rw [← hid, hordered.getElem hj]
    exact (hnodup.of_map id).getElem_inj_iff.1 heq ▸ hj
  · intro hlt
    have hmem : (s.under id messages)[i] ∈ s.stored :=
      (mem_filter.1 (getElem_mem hlt)).1
    rw [hordered.getElem hlt] at hmem
    exact mem_map_of_mem hmem

lemma forall_take_iff_le (hi : i < messages.length) :
    (∀ m ∈ messages.take i, id m ∈ s.stored.map id) ↔ i ≤ (s.under id messages).length := by
  constructor
  · intro hall
    by_contra hlt
    have hk : (s.under id messages).length < messages.length := by omega
    have hstored := hall messages[(s.under id messages).length]
      (mem_take_iff_getElem.2 ⟨_, by omega, rfl⟩)
    rw [mem_stored_iff_lt hordered hnodup hk] at hstored
    omega
  · intro hle m hm
    obtain ⟨j, hj, rfl⟩ := mem_take_iff_getElem.1 hm
    have hj' : j < messages.length := by omega
    exact (mem_stored_iff_lt hordered hnodup hj').2 (by omega)

/-- A received message keeps the order exactly if it is stored already or all before it are. -/
theorem isPrefix_received_iff (h : s.Total id) (hi : i < messages.length) :
    (s.step id (.received messages[i])).under id messages <+: messages ↔
      id messages[i] ∈ s.stored.map id ∨ ∀ m ∈ messages.take i, id m ∈ s.stored.map id := by
  rw [forall_take_iff_le hordered hnodup hi, mem_stored_iff_lt hordered hnodup hi]
  by_cases hold : id messages[i] ∈ s.stored.map id
  · rw [step_received_of_mem ((h.mem_window _).2 hold)]
    rw [mem_stored_iff_lt hordered hnodup hi] at hold
    exact iff_of_true hordered (.inl hold)
  · -- A new message comes last among the stored ones.
    have hunder : (s.step id (.received messages[i])).under id messages =
        s.under id messages ++ [messages[i]] := by
      have hmem : id messages[i] ∈ messages.map id := mem_map_of_mem (getElem_mem hi)
      rw [step_received_of_notMem fun hmem => hold ((h.mem_window _).1 hmem)]
      simp only [under, filter_append]
      rw [filter_singleton, decide_eq_true hmem]
      rfl
    rw [mem_stored_iff_lt hordered hnodup hi] at hold
    rw [hunder, or_iff_right hold]
    constructor
    · -- The new message stands where the stored ones end, which is its only place.
      intro hnext
      have hk : (s.under id messages).length < (s.under id messages ++ [messages[i]]).length := by
        simp
      have hat : messages[i] = messages[(s.under id messages).length] := by
        rw [← hnext.getElem hk, getElem_concat_length rfl]
      exact Nat.le_of_eq ((hnodup.of_map id).getElem_inj_iff.1 hat)
    · intro hle
      have hk : (s.under id messages).length = i := by omega
      rw [prefix_iff_eq_take.1 hordered, hk, take_append_getElem hi]
      exact take_prefix _ _

end DedupStream

end Wamn.Lib
