import Mathlib.Logic.Function.Basic
import Wamn.History.Fold

/-!
# The history of a relation

Every write of a logged relation appends entries: an insert and a delete the whole row, an update
under one key the old values of the changed columns, and an update of the key a delete and an
insert. `replay` is the state of a key after the writes at or before a position.
-/

namespace Wamn.History

open List Lib

variable {κ : Type} {r : Relation κ}

/-! ## Writes -/

/-- One write of a row: the trigger sees the old row, the new one, or both. -/
inductive Change (r : Relation κ) where
  | insert (new : Row r)
  | update (old new : Row r)
  | delete (old : Row r)

variable [DecidableEq κ]

/-- The entries of a write. A write that keeps the text of the row has none. -/
def logRowChange : Change r → List (Entry κ)
  | .insert new => if render [] = render new.members then [] else [new.inserted]
  | .delete old => if render old.members = render [] then [] else [old.deleted]
  | .update old new =>
    if render old.members = render new.members then []
    else if old.key = new.key then [old.updated new]
    else [old.deleted, new.inserted]

/-- The rows of a relation and its history, the oldest entry first. -/
structure World (r : Relation κ) where
  rows : κ → Option (Row r)
  log : List (ℤ × Entry κ)

namespace Change

def apply (rows : κ → Option (Row r)) : Change r → κ → Option (Row r)
  | .insert new => Function.update rows new.key (some new)
  | .update old new => Function.update (Function.update rows old.key none) new.key (some new)
  | .delete old => Function.update rows old.key none

/-- The write is one of these rows: the old row is there, and the key of a new one is free. -/
def Fits (rows : κ → Option (Row r)) : Change r → Prop
  | .insert new => rows new.key = none
  | .update old new => rows old.key = some old ∧ (old.key = new.key ∨ rows new.key = none)
  | .delete old => rows old.key = some old

end Change

/-- A write, with the positions that the identity column gives to its entries. -/
structure Write (r : Relation κ) where
  change : Change r
  positions : ℤ × ℤ

def Write.entries (write : Write r) : List (ℤ × Entry κ) :=
  [write.positions.1, write.positions.2].zip (logRowChange write.change)

namespace World

variable (w : World r) (key : κ)

def after (write : Write r) : World r :=
  ⟨write.change.apply w.rows, w.log ++ write.entries⟩

def run (writes : List (Write r)) : World r := writes.foldl after w

/-- The write fits the rows, and the positions of a key rise. -/
def Admits (write : Write r) : Prop :=
  write.change.Fits w.rows ∧ ∀ new ∈ write.entries, ∀ old ∈ w.log,
    old.2.rowKey = new.2.rowKey → old.1 < new.1

/-- A sequence of writes, each of which fits where it happens. -/
def Writes : World r → List (Write r) → Prop
  | _, [] => True
  | w, write :: rest => w.Admits write ∧ (w.after write).Writes rest

def history : List (ℤ × Entry κ) :=
  w.log.filter fun entry => entry.2.rowKey = key

def read (retained : List (ℤ × Entry κ)) : List HistoryRow :=
  historyRows (render ((w.rows key).elim [] Row.members)) retained

/-- The row of a key after the writes whose entries are not past a position. -/
def replay (key : κ) (position : ℤ) : World r → List (Write r) → Option (Row r)
  | w, [] => w.rows key
  | w, write :: rest =>
    if write.entries.any fun entry => entry.2.rowKey = key && position < entry.1 then w.rows key
    else replay key position (w.after write) rest

def state : Option RowImage :=
  (w.rows key).map fun row => texts row.members

end World

def rowState (row : Option (Row r)) : RowState :=
  row.elim .absent fun row => .present (texts row.members)

/-- What a write does to a key: nothing to its texts, or one entry leads to the new state. -/
theorem entries_of_write {w : World r} {write : Write r} (h : write.change.Fits w.rows) (key : κ) :
    (write.entries.filter (fun entry => entry.2.rowKey = key) = [] ∧
      (w.after write).state key = w.state key) ∨
    ∃ entry, write.entries.filter (fun entry => entry.2.rowKey = key) = [entry] ∧
      Leads entry.2 (w.state key) ((w.after write).state key) := by
  obtain ⟨change, positions⟩ := write
  cases change with
  | insert new =>
    have hentries : (⟨.insert new, positions⟩ : Write r).entries =
        [(positions.1, new.inserted)] := by
      simp [Write.entries, logRowChange, render_ne_nil]
    rw [hentries]
    by_cases hkey : new.key = key
    · subst hkey
      refine .inr ⟨(positions.1, new.inserted), by simp [Row.inserted], ?_⟩
      have hfree : w.rows new.key = none := h
      simpa [World.state, World.after, Change.apply, hfree] using leads_inserted new
    · refine .inl ⟨by simp [Row.inserted, hkey], ?_⟩
      simp [World.state, World.after, Change.apply, Ne.symm hkey]
  | delete old =>
    have hentries : (⟨.delete old, positions⟩ : Write r).entries =
        [(positions.1, old.deleted)] := by
      simp [Write.entries, logRowChange, (render_ne_nil old).symm]
    rw [hentries]
    by_cases hkey : old.key = key
    · subst hkey
      refine .inr ⟨(positions.1, old.deleted), by simp [Row.deleted], ?_⟩
      have hrow : w.rows old.key = some old := h
      simpa [World.state, World.after, Change.apply, hrow] using leads_deleted old
    · refine .inl ⟨by simp [Row.deleted, hkey], ?_⟩
      simp [World.state, World.after, Change.apply, Ne.symm hkey]
  | update old new =>
    obtain ⟨hrow, hfree⟩ := h
    by_cases hsame : render old.members = render new.members
    · -- The row is written as it is.
      obtain rfl := eq_of_render hsame
      refine .inl ⟨by simp [Write.entries, logRowChange], ?_⟩
      by_cases hkey : old.key = key
      · subst hkey
        simp [World.state, World.after, Change.apply, hrow]
      · simp [World.state, World.after, Change.apply, Ne.symm hkey]
    by_cases hmoved : old.key = new.key
    · have hentries : (⟨.update old new, positions⟩ : Write r).entries =
          [(positions.1, old.updated new)] := by
        simp [Write.entries, logRowChange, hsame, hmoved]
      rw [hentries]
      by_cases hkey : new.key = key
      · subst hkey
        refine .inr ⟨(positions.1, old.updated new), by simp [Row.updated], ?_⟩
        have hold : w.rows new.key = some old := hmoved ▸ hrow
        simpa [World.state, World.after, Change.apply, hold] using leads_updated old new
      · refine .inl ⟨by simp [Row.updated, hkey], ?_⟩
        simp [World.state, World.after, Change.apply, Ne.symm hkey, hmoved]
    · -- The row moves to another key: it goes at the old one and comes at the new one.
      have hentries : (⟨.update old new, positions⟩ : Write r).entries =
          [(positions.1, old.deleted), (positions.2, new.inserted)] := by
        simp [Write.entries, logRowChange, hsame, hmoved]
      rw [hentries]
      by_cases hold : old.key = key
      · subst hold
        refine .inr ⟨(positions.1, old.deleted),
          by simp [Row.deleted, Row.inserted, Ne.symm hmoved], ?_⟩
        simpa [World.state, World.after, Change.apply, hrow, hmoved] using leads_deleted old
      · by_cases hnew : new.key = key
        · subst hnew
          refine .inr ⟨(positions.2, new.inserted), by simp [Row.deleted, Row.inserted, hmoved], ?_⟩
          have hnone : w.rows new.key = none := hfree.resolve_left hmoved
          simpa [World.state, World.after, Change.apply, hnone] using leads_inserted new
        · refine .inl ⟨by simp [Row.deleted, Row.inserted, hold, hnew], ?_⟩
          simp [World.state, World.after, Change.apply, Ne.symm hold, Ne.symm hnew]

namespace World

lemma history_run (w : World r) (writes : List (Write r)) (key : κ) :
    (w.run writes).history key = w.history key ++
      (writes.flatMap Write.entries).filter fun entry => entry.2.rowKey = key := by
  induction writes generalizing w with
  | nil => simp [run]
  | cons write rest ih =>
    have hstep : (w.after write).history key = w.history key ++
        write.entries.filter fun entry => entry.2.rowKey = key := by
      simp [history, after, filter_append]
    show ((w.after write).run rest).history key = _
    rw [ih, hstep, flatMap_cons, filter_append, append_assoc]

variable {w : World r} {writes : List (Write r)}

lemma pairwise_history (hwrites : w.Writes writes) (key : κ)
    (hw : (w.history key).Pairwise fun a b => a.1 < b.1) :
    ((w.run writes).history key).Pairwise fun a b => a.1 < b.1 := by
  induction writes generalizing w with
  | nil => exact hw
  | cons write rest ih =>
    obtain ⟨⟨hfits, hpositions⟩, hrest⟩ := hwrites
    refine ih hrest ?_
    have hstep : (w.after write).history key = w.history key ++
        write.entries.filter fun entry => entry.2.rowKey = key := by
      simp [history, after, filter_append]
    rw [hstep, pairwise_append]
    refine ⟨hw, ?_, fun old hold new hnew => ?_⟩
    · -- A write has at most one entry for a key.
      rcases entries_of_write hfits key with ⟨hnone, -⟩ | ⟨entry, hone, -⟩
      · rw [hnone]
        exact List.Pairwise.nil
      · rw [hone]
        exact pairwise_singleton _ _
    · obtain ⟨hold, holdKey⟩ := mem_filter.1 hold
      obtain ⟨hnew, hnewKey⟩ := mem_filter.1 hnew
      simp only [decide_eq_true_eq] at holdKey hnewKey
      exact hpositions new hnew old hold (holdKey.trans hnewKey.symm)

lemma chain_run (hwrites : w.Writes writes) (key : κ) :
    Chain (w.state key) ((writes.flatMap Write.entries).filter fun entry => entry.2.rowKey = key)
      ((w.run writes).state key) := by
  induction writes generalizing w with
  | nil => exact .nil _
  | cons write rest ih =>
    obtain ⟨⟨hfits, -⟩, hrest⟩ := hwrites
    rw [flatMap_cons, filter_append]
    rcases entries_of_write hfits key with ⟨hnone, hstate⟩ | ⟨entry, hone, hleads⟩
    · rw [hnone, ← hstate]
      exact ih hrest
    · rw [hone]
      exact .cons hleads (ih hrest)

/-- The entries up to a position lead to the replayed state, the others from there to the last. -/
theorem chain_replay (hwrites : w.Writes writes) (key : κ) (position : ℤ)
    (hsorted : ((writes.flatMap Write.entries).filter fun entry => entry.2.rowKey = key).Pairwise
      fun a b => a.1 < b.1) :
    ∃ older newer, ((writes.flatMap Write.entries).filter fun entry => entry.2.rowKey = key) =
        older ++ newer ∧
      (∀ entry ∈ older, entry.1 ≤ position) ∧ (∀ entry ∈ newer, position < entry.1) ∧
      Chain (w.state key) older
        ((replay key position w writes).map fun row => texts row.members) ∧
      Chain ((replay key position w writes).map fun row => texts row.members) newer
        ((w.run writes).state key) := by
  induction writes generalizing w with
  | nil => exact ⟨[], [], by simp, by simp, by simp, .nil _, .nil _⟩
  | cons write rest ih =>
    have hwhole := chain_run hwrites key
    obtain ⟨⟨hfits, -⟩, hrest⟩ := hwrites
    rw [flatMap_cons, filter_append] at hsorted hwhole ⊢
    have hany : (write.entries.any fun entry => entry.2.rowKey = key && position < entry.1) =
        (write.entries.filter fun entry => entry.2.rowKey = key).any fun entry =>
          position < entry.1 := by
      rw [any_filter]
    rw [replay, hany]
    rcases entries_of_write hfits key with ⟨hnone, hstate⟩ | ⟨entry, hone, hleads⟩
    · rw [hnone] at hsorted ⊢
      obtain ⟨older, newer, hsplit, holder, hnewer, hchain, hchain'⟩ := ih hrest hsorted
      refine ⟨older, newer, hsplit, holder, hnewer, ?_, hchain'⟩
      rw [← hstate]
      exact hchain
    · rw [hone] at hsorted hwhole ⊢
      obtain ⟨hfirst, hsorted⟩ := pairwise_cons.1 hsorted
      by_cases hpast : position < entry.1
      · -- The entry is past the position, and so are all that follow.
        rw [any_cons, decide_eq_true hpast, Bool.true_or, if_pos rfl]
        refine ⟨[], _, rfl, by simp, fun other hother => ?_, .nil _, hwhole⟩
        rcases mem_cons.1 hother with rfl | hother
        · exact hpast
        · exact Int.lt_trans hpast (hfirst other hother)
      · rw [any_cons, decide_eq_false hpast, any_nil, Bool.or_false, if_neg (by simp)]
        obtain ⟨older, newer, hsplit, holder, hnewer, hchain, hchain'⟩ := ih hrest hsorted
        refine ⟨entry :: older, newer, ?_, ?_, hnewer, .cons hleads hchain, hchain'⟩
        · rw [hsplit]
          rfl
        · intro other hother
          rcases mem_cons.1 hother with rfl | hother
          · exact Int.not_lt.1 hpast
          · exact holder other hother

end World

/-! ## The fold replays the writes -/

/-- Take a relation whose log starts empty, any writes, and the entries of a key without any number
of the oldest. The fold over them answers every position at or after the oldest one with the state
that replaying the writes gives, with the exact texts of its members, and every other one with
`Unavailable`. -/
theorem state_at_eq_replay (w : World r) (hlog : w.log = []) (writes : List (Write r))
    (hwrites : w.Writes writes) (key : κ) (expired : ℕ) (position : ℤ) :
    let retained := ((w.run writes).history key).drop expired
    (∀ oldest, retained.head? = some oldest → oldest.1 ≤ position →
      stateAt ((w.run writes).read key retained) position =
        .ok (rowState (World.replay key position w writes))) ∧
    (∀ oldest, retained.head? = some oldest → position < oldest.1 →
      stateAt ((w.run writes).read key retained) position = .ok .unavailable) ∧
    (retained = [] → stateAt ((w.run writes).read key retained) position = .ok .unavailable) := by
  intro retained
  have hstart : w.history key = [] := by simp [World.history, hlog]
  have hhistory := w.history_run writes key
  rw [hstart, nil_append] at hhistory
  have hsorted := World.pairwise_history hwrites key (hstart ▸ List.Pairwise.nil)
  have hretained : retained.Pairwise fun a b => a.1 < b.1 :=
    hsorted.sublist (drop_sublist expired _)
  have hcurrent : ∀ state, (w.run writes).state key = some state →
      image (render (((w.run writes).rows key).elim [] Row.members)) = some state := by
    intro state hstate
    obtain ⟨row, hrow, rfl⟩ := Option.map_eq_some_iff.1 hstate
    rw [hrow]
    exact image_render row.members
  refine ⟨fun oldest holdest hle => ?_, fun oldest holdest hlt => ?_, fun hnil => ?_⟩
  · obtain ⟨older, newer, hsplit, hle', hlt', hchain, hchain'⟩ :=
      World.chain_replay hwrites key position (hhistory ▸ hsorted)
    have hdropped : retained = (older ++ newer).drop expired := by
      rw [← hsplit, ← hhistory]
    -- The oldest entry left is not past the position, so it is one of the older ones.
    have hlength : expired < older.length := by
      by_contra hge
      have hmem : oldest ∈ newer := by
        have hdrop : retained = newer.drop (expired - older.length) := by
          rw [hdropped, drop_append, drop_eq_nil_of_le (Nat.not_lt.1 hge),
            nil_append]
        exact mem_of_mem_drop (hdrop ▸ mem_of_mem_head? holdest)
      exact absurd hle (Int.not_le.2 (hlt' oldest hmem))
    have hrest : retained = older.drop expired ++ newer := by
      rw [hdropped, drop_append_of_le_length (Nat.le_of_lt hlength)]
    obtain ⟨state, hchain⟩ := hchain.drop expired
    rw [hrest] at hretained ⊢
    rw [World.read, stateAt_of_chain (by simpa using hlength) hretained hchain hchain' hcurrent
      (fun entry hentry => hle' entry (mem_of_mem_drop hentry)) hlt', rowState]
    cases World.replay key position w writes <;> rfl
  · have hchain := World.chain_run hwrites key
    rw [← hhistory] at hchain
    obtain ⟨state, hchain⟩ := hchain.drop expired
    obtain ⟨head, newest, pairs, -, -, hstate⟩ :=
      stateAt_historyRows (render (((w.run writes).rows key).elim [] Row.members)) position hchain
        hretained holdest
    rw [World.read, hstate, if_pos hlt]
  · rw [hnil]
    rfl

namespace Sample

def notes : Relation (Option (List Char)) where
  columns := ["id", "note"]
  nodup := by decide
  columns_ne_nil := by decide
  key := fun members => (members.find? fun m => m.1 = "id").map fun m => m.2.text

def note (text : String) : Row notes where
  members := [("id", ⟨['1'], .scalar (by decide) (by decide)⟩), ("note", ⟨_, .string text.toList⟩)]
  names := rfl

def start : World notes := ⟨fun _ => none, []⟩

def writes : List (Write notes) :=
  [⟨.insert (note "a"), (1, 0)⟩, ⟨.update (note "a") (note "b"), (3, 0)⟩,
    ⟨.delete (note "b"), (4, 0)⟩]

/-- Between its change and its deletion the note is found as it was then. -/
theorem changed_note_is_found :
    start.Writes writes ∧ stateAt ((start.run writes).read (some ['1'])
      ((start.run writes).history (some ['1']))) 3 = .ok (.present (texts (note "b").members)) := by
  have hwrites : start.Writes writes := by
    refine ⟨⟨rfl, by decide⟩, ⟨⟨rfl, .inl rfl⟩, by decide⟩, ⟨rfl, by decide⟩, trivial⟩
  refine ⟨hwrites, ?_⟩
  have hfound := (state_at_eq_replay start rfl writes hwrites (some ['1']) 0 3).1
    (1, (note "a").inserted) rfl (by decide)
  exact hfound

end Sample

end Wamn.History
