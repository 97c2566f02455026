import Wamn.History.Image
import Wamn.Lib.Transaction

/-!
# The history fold

`state_at` finds the state of a row at a position by undoing the entries after it, backward from the
current row. An insert and a delete carry the whole row, an update the old values of the columns it
changed. A `Chain` of entries leads from one state to another, each entry as the log trigger writes
it.
-/

namespace Wamn.History

open List Lib

/-! ## The fold -/

inductive Kind where
  | insert
  | update
  | delete
  deriving DecidableEq

structure HistoryRow where
  position : ℤ
  type : String
  before : List Char
  current : List Char
  headPosition : ℤ

inductive RowState where
  | present (image : RowImage)
  | absent
  | unavailable
  deriving DecidableEq

inductive FoldErrorType where
  | headMismatch
  | positionOrder
  | incompleteRead
  | unknownKind
  | malformedImage
  | brokenChain
  deriving DecidableEq

structure FoldError where
  type : FoldErrorType
  position : ℤ
  deriving DecidableEq

def rowType (row : HistoryRow) : Except FoldError Kind :=
  if row.type = "insert" then pure .insert
  else if row.type = "update" then pure .update
  else if row.type = "delete" then pure .delete
  else throw ⟨.unknownKind, row.position⟩

/-- The columns of an image, or the refusal of the row that carries it. -/
def imageAt (text : List Char) (position : ℤ) : Except FoldError RowImage :=
  match image text with
  | some image => pure image
  | none => throw ⟨.malformedImage, position⟩

def checkRows (head : ℤ) : Option ℤ → List HistoryRow → Except FoldError (List (HistoryRow × Kind))
  | _, [] => pure []
  | previous, row :: rest =>
    if row.headPosition ≠ head then throw ⟨.headMismatch, row.position⟩
    else if previous.any fun position => decide (row.position ≤ position) then
      throw ⟨.positionOrder, row.position⟩
    else do
      let kind ← rowType row
      let kinds ← checkRows head (some row.position) rest
      pure ((row, kind) :: kinds)

def undo (row : HistoryRow) : Kind → Option RowImage → Except FoldError (Option RowImage)
  | .insert, some _ => pure none
  | .delete, none => do
    let before ← imageAt row.before row.position
    pure (some before)
  | .update, some after => do
    let before ← imageAt row.before row.position
    pure (some (after.extend before))
  | _, _ => throw ⟨.brokenChain, row.position⟩

/-- Take back the entries after a position, the newest first. -/
def unwind (position : ℤ) :
    List (HistoryRow × Kind) → Option RowImage → Except FoldError (Option RowImage)
  | [], state => pure state
  | (row, kind) :: older, state =>
    if row.position ≤ position then pure state
    else do
      let state ← undo row kind state
      unwind position older state

def lastState (newest : HistoryRow) (kinds : List (HistoryRow × Kind)) :
    Except FoldError (Option RowImage) :=
  if kinds.getLast?.map Prod.snd = some .delete then pure none
  else do
    let current ← imageAt newest.current newest.position
    pure (some current)

/-- The fold over the checked rows, backward from the current row. -/
def foldBack (newest : HistoryRow) (kinds : List (HistoryRow × Kind)) (position : ℤ) :
    Except FoldError RowState := do
  let state ← lastState newest kinds
  let state ← unwind position kinds.reverse state
  pure (state.elim .absent .present)

/-- The state of the row after the newest entry at or before a position. -/
def stateAt (rows : List HistoryRow) (position : ℤ) : Except FoldError RowState :=
  match rows.head?, rows.getLast? with
  | some oldest, some newest => do
    let kinds ← checkRows newest.headPosition none rows
    if newest.position ≠ newest.headPosition then throw ⟨.incompleteRead, newest.position⟩
    else if position < oldest.position then pure .unavailable
    else foldBack newest kinds position
  | _, _ => pure .unavailable

/-! ## Rows -/

/-- A logged relation: its columns, and the primary key as the database compares it. -/
structure Relation (κ : Type) where
  columns : List String
  nodup : columns.Nodup
  columns_ne_nil : columns ≠ []
  key : List (String × Jsonb) → κ

variable {κ : Type} {r : Relation κ}

/-- A row of the relation: a value for each column. -/
structure Row (r : Relation κ) where
  members : List (String × Jsonb)
  names : members.map Prod.fst = r.columns

namespace Row

def key (row : Row r) : κ := r.key row.members

def get (row : Row r) (name : String) : Option Jsonb :=
  (row.members.find? fun m => m.1 = name).map Prod.snd

/-- The members whose text another row has otherwise. -/
def changedFrom (row other : Row r) : List (String × Jsonb) :=
  row.members.filter fun m => (other.get m.1).map Jsonb.text ≠ some m.2.text

end Row

variable (row : Row r) (old new : Row r)

lemma Row.nodup_names : (row.members.map Prod.fst).Nodup := row.names ▸ r.nodup

lemma get_texts {members : List (String × Jsonb)} (hnodup : (members.map Prod.fst).Nodup)
    (name : String) : (texts members).get name =
      (members.find? fun m => m.1 = name).map fun m => String.ofList m.2.text := by
  rw [texts, OrdMap.get_ofList (by simpa [Function.comp_def] using hnodup), find?_map,
    Option.map_map]
  rfl

lemma extend_changedFrom :
    (texts new.members).extend (texts (old.changedFrom new)) = texts old.members := by
  have hchanged : ((old.changedFrom new).map Prod.fst).Nodup :=
    old.nodup_names.sublist (filter_sublist.map _)
  refine OrdMap.ext_get fun name => ?_
  rw [OrdMap.get_extend, get_texts hchanged, get_texts old.nodup_names, get_texts new.nodup_names]
  cases hold : old.members.find? fun m => m.1 = name with
  | none =>
    -- A column that the old row does not have is not in the new row either.
    have hmissing : name ∉ r.columns := by
      rw [← old.names]
      intro hmem
      obtain ⟨m, hm, rfl⟩ := mem_map.1 hmem
      have hnone := find?_eq_none.1 hold m hm
      simp at hnone
    have hnew : new.members.find? (fun m => m.1 = name) = none := by
      refine Keyed.find?_eq_none.2 fun m hm heq => hmissing ?_
      rw [← new.names, ← heq]
      exact mem_map_of_mem hm
    have hnone : (old.changedFrom new).find? (fun m => m.1 = name) = none := by
      refine Keyed.find?_eq_none.2 fun m hm heq => hmissing ?_
      rw [← old.names, ← heq]
      exact mem_map_of_mem (mem_of_mem_filter hm)
    rw [hnew, hnone]
    rfl
  | some m =>
    obtain ⟨hm, rfl⟩ := (Keyed.find?_eq_some old.nodup_names).1 hold
    by_cases hsame : (new.get m.1).map Jsonb.text = some m.2.text
    · -- An unchanged column is not in the entry, and the new row has its text.
      have hnone : (old.changedFrom new).find? (fun m' => m'.1 = m.1) = none := by
        refine Keyed.find?_eq_none.2 fun m' hm' heq => ?_
        obtain ⟨hmem, hdiff⟩ := mem_filter.1 hm'
        rw [inj_on_of_nodup_map old.nodup_names hmem hm heq] at hdiff
        simp [hsame] at hdiff
      obtain ⟨value, hvalue, htext⟩ := Option.map_eq_some_iff.1 hsame
      obtain ⟨m', hm', rfl⟩ := Option.map_eq_some_iff.1 hvalue
      rw [hnone, hm']
      simp [htext]
    · have hsome : (old.changedFrom new).find? (fun m' => m'.1 = m.1) = some m :=
        (Keyed.find?_eq_some hchanged).2 ⟨mem_filter.2 ⟨hm, by simpa using hsame⟩, rfl⟩
      rw [hsome]
      rfl

lemma texts_eq_of_render {members members' : List (String × Jsonb)}
    (h : render members = render members') : texts members = texts members' := by
  have himage := image_render members
  rw [h, image_render] at himage
  exact (Option.some.inj himage).symm

lemma eq_of_render {row other : Row r} (h : render row.members = render other.members) :
    row = other := by
  have htexts := texts_eq_of_render h
  have hmembers : row.members = other.members := by
    have hnames : row.members.map Prod.fst = other.members.map Prod.fst :=
      row.names.trans other.names.symm
    have hlength : row.members.length = other.members.length := by
      simpa using congrArg List.length hnames
    refine ext_getElem hlength fun i hi hi' => ?_
    have hname : row.members[i].1 = other.members[i].1 := by
      simpa [getElem?_map, hi, hi'] using congrArg (fun names => names[i]?) hnames
    -- Both rows answer the name of the member with its text.
    have hrow := get_texts row.nodup_names row.members[i].1
    have hother := get_texts other.nodup_names row.members[i].1
    rw [(Keyed.find?_eq_some row.nodup_names).2 ⟨getElem_mem hi, rfl⟩] at hrow
    rw [(Keyed.find?_eq_some other.nodup_names).2 ⟨getElem_mem hi', hname.symm⟩,
      ← htexts, hrow] at hother
    have htext : row.members[i].2.text = other.members[i].2.text :=
      String.ofList_injective (Option.some.inj hother)
    exact Prod.ext hname (Jsonb.ext htext)
  cases row
  cases other
  cases hmembers
  rfl

lemma render_ne_nil : render [] ≠ render row.members := by
  intro h
  have hempty := texts_eq_of_render h
  obtain ⟨name, rest, hcolumns⟩ := exists_cons_of_ne_nil r.columns_ne_nil
  obtain ⟨m, hm, hname⟩ : ∃ m ∈ row.members, m.1 = name := by
    have hmem : name ∈ row.members.map Prod.fst := by simp [row.names, hcolumns]
    simpa using hmem
  have hget := get_texts row.nodup_names name
  rw [(Keyed.find?_eq_some row.nodup_names).2 ⟨hm, hname⟩, ← hempty] at hget
  simp [texts, OrdMap.ofList, OrdMap.get, OrdMap.empty] at hget

/-! ## Entries -/

structure Entry (κ : Type) where
  rowKey : κ
  type : String
  before : List Char
  after : List Char

def Row.inserted : Entry κ := ⟨row.key, "insert", render [], render row.members⟩

def Row.deleted : Entry κ := ⟨row.key, "delete", render row.members, render []⟩

def Row.updated : Entry κ :=
  ⟨new.key, "update", render (old.changedFrom new), render (new.changedFrom old)⟩

/-- The fold reads the kind of the entry and takes it back, and only a delete leaves no row. -/
def Leads (entry : Entry κ) (before after : Option RowImage) : Prop :=
  ∃ kind, (kind = .delete ↔ after = none) ∧ ∀ row : HistoryRow, row.type = entry.type →
    row.before = entry.before → rowType row = .ok kind ∧ undo row kind after = .ok before

lemma imageAt_render {row : HistoryRow} {members : List (String × Jsonb)}
    (h : row.before = render members) : imageAt row.before row.position = .ok (texts members) := by
  rw [imageAt, h, image_render]
  rfl

lemma leads_inserted : Leads row.inserted none (some (texts row.members)) := by
  refine ⟨.insert, by simp, fun entry htype _ => ⟨?_, rfl⟩⟩
  have htype : entry.type = "insert" := htype
  simp [rowType, htype, pure, Except.pure]

lemma leads_deleted : Leads row.deleted (some (texts row.members)) none := by
  refine ⟨.delete, by simp, fun entry htype hbefore => ⟨?_, ?_⟩⟩
  · have htype : entry.type = "delete" := htype
    simp [rowType, htype, pure, Except.pure]
  · exact bind_eq_ok.2 ⟨_, imageAt_render hbefore, rfl⟩

lemma leads_updated :
    Leads (old.updated new) (some (texts old.members)) (some (texts new.members)) := by
  refine ⟨.update, by simp, fun entry htype hbefore => ⟨?_, ?_⟩⟩
  · have htype : entry.type = "update" := htype
    simp [rowType, htype, pure, Except.pure]
  · refine bind_eq_ok.2 ⟨_, imageAt_render hbefore, ?_⟩
    rw [extend_changedFrom]
    rfl

/-! ## Chains -/

/-- Entries that lead from one state of a key to another, the oldest first. -/
inductive Chain : Option RowImage → List (ℤ × Entry κ) → Option RowImage → Prop where
  | nil (state : Option RowImage) : Chain state [] state
  | cons {before between after : Option RowImage} {entry : ℤ × Entry κ}
      {rest : List (ℤ × Entry κ)} (hleads : Leads entry.2 before between)
      (hrest : Chain between rest after) : Chain before (entry :: rest) after

namespace Chain

variable {before between after : Option RowImage} {older newer : List (ℤ × Entry κ)}

lemma drop (h : Chain before older after) (n : ℕ) :
    ∃ state, Chain state (older.drop n) after := by
  induction h generalizing n with
  | nil state => exact ⟨state, by simpa using Chain.nil state⟩
  | cons hleads hrest ih =>
    cases n with
    | zero => exact ⟨_, .cons hleads hrest⟩
    | succ n => exact ih n

lemma append (h : Chain before older between) (h' : Chain between newer after) :
    Chain before (older ++ newer) after := by
  induction h with
  | nil state => exact h'
  | cons hleads hrest ih => exact .cons hleads (ih h')

end Chain

/-! ## The fold of a chain -/

def rowOf (current : List Char) (head : ℤ) (entry : ℤ × Entry κ) : HistoryRow where
  position := entry.1
  type := entry.2.type
  before := entry.2.before
  current := current
  headPosition := head

def historyRows (current : List Char) (entries : List (ℤ × Entry κ)) : List HistoryRow :=
  entries.map (rowOf current ((entries.getLast?.map Prod.fst).getD 0))

/-- The entry and its row with the kind that the fold reads. -/
def KindOf (current : List Char) (head : ℤ) (entry : ℤ × Entry κ) (pair : HistoryRow × Kind) :
    Prop :=
  pair.1 = rowOf current head entry ∧ rowType pair.1 = .ok pair.2

section Fold

variable {current : List Char} {head position : ℤ} {entries : List (ℤ × Entry κ)}
  {before between after : Option RowImage} {pairs : List (HistoryRow × Kind)}

lemma checkRows_of_chain (current : List Char) (head : ℤ) (h : Chain before entries after)
    (previous : Option ℤ)
    (hprevious : ∀ entry ∈ entries, ∀ p ∈ previous, p < entry.1)
    (hsorted : entries.Pairwise fun a b => a.1 < b.1) :
    ∃ pairs, checkRows head previous (entries.map (rowOf current head)) = .ok pairs ∧
      List.Forall₂ (KindOf current head) entries pairs := by
  induction h generalizing previous with
  | nil state => exact ⟨[], rfl, .nil⟩
  | @cons before between after entry rest hleads hrest ih =>
    obtain ⟨hfirst, hsorted⟩ := pairwise_cons.1 hsorted
    obtain ⟨kind, -, hkind⟩ := hleads
    obtain ⟨hkind, -⟩ := hkind (rowOf current head entry) rfl rfl
    obtain ⟨pairs, hpairs, hforall⟩ := ih (some entry.1)
      (fun other hother p hp => Option.some.inj hp ▸ hfirst other hother) hsorted
    refine ⟨(rowOf current head entry, kind) :: pairs, ?_, .cons ⟨rfl, hkind⟩ hforall⟩
    have hhead : ¬ (rowOf current head entry).headPosition ≠ head := by simp [rowOf]
    have horder : ¬ (previous.any fun p =>
        decide ((rowOf current head entry).position ≤ p)) = true := by
      cases previous with
      | none => simp
      | some p =>
        have hlt := hprevious entry mem_cons_self p rfl
        have hnot : ¬ entry.1 ≤ p := Int.not_le.2 hlt
        simp [rowOf, hnot]
    rw [map_cons, checkRows, if_neg hhead, if_neg horder]
    exact bind_eq_ok.2 ⟨kind, hkind, bind_eq_ok.2 ⟨pairs, hpairs, rfl⟩⟩

section

variable (hpairs : List.Forall₂ (KindOf current head) entries pairs)

include hpairs

lemma unwind_of_chain (h : Chain before entries after)
    (hnewer : ∀ entry ∈ entries, position < entry.1) (older : List (HistoryRow × Kind)) :
    unwind position (pairs.reverse ++ older) after = unwind position older before := by
  induction h generalizing pairs older with
  | nil state =>
    cases hpairs
    rfl
  | @cons before between after entry rest hleads hrest ih =>
    cases hpairs with
    | @cons _ pair _ pairs hpair hpairs =>
      -- The oldest entry is the last to be taken back.
      obtain ⟨kind, -, hundo⟩ := hleads
      obtain ⟨hrow, hkind⟩ := hpair
      obtain ⟨row, kind'⟩ := pair
      obtain rfl : row = rowOf current head entry := hrow
      obtain ⟨hkind', hundo⟩ := hundo (rowOf current head entry) rfl rfl
      obtain rfl : kind = kind' := Except.ok.inj (hkind'.symm.trans hkind)
      have hpast : ¬ (rowOf current head entry).position ≤ position :=
        Int.not_le.2 (hnewer entry mem_cons_self)
      rw [reverse_cons, append_assoc,
        ih hpairs (fun other hother => hnewer other (mem_cons_of_mem _ hother)),
        singleton_append, unwind, if_neg hpast, hundo]
      rfl

lemma positions_eq : pairs.map (fun pair => pair.1.position) = entries.map Prod.fst := by
  induction hpairs with
  | nil => rfl
  | cons hpair _ ih =>
    rw [map_cons, map_cons, ih, hpair.1]
    rfl

lemma unwind_of_older (holder : ∀ entry ∈ entries, entry.1 ≤ position) (state : Option RowImage) :
    unwind position pairs.reverse state = .ok state := by
  cases hreverse : pairs.reverse with
  | nil => rfl
  | cons pair rest =>
    have hmem : pair ∈ pairs := mem_reverse.1 (hreverse ▸ mem_cons_self)
    have hposition : pair.1.position ∈ entries.map Prod.fst :=
      positions_eq hpairs ▸ mem_map_of_mem hmem
    obtain ⟨entry, hentry, heq⟩ := mem_map.1 hposition
    rw [unwind, if_pos (heq ▸ holder entry hentry)]
    rfl

lemma kind_of_last (h : Chain before entries after) (hne : entries ≠ []) :
    pairs.getLast?.map Prod.snd = some .delete ↔ after = none := by
  induction h generalizing pairs with
  | nil state => exact absurd rfl hne
  | @cons before between after entry rest hleads hrest ih =>
    cases hpairs with
    | @cons _ pair _ pairs hpair hpairs =>
      cases hrest with
      | nil state =>
        cases hpairs
        obtain ⟨kind, hdelete, hkind⟩ := hleads
        obtain ⟨hkind, -⟩ := hkind pair.1 (by rw [hpair.1]; rfl) (by rw [hpair.1]; rfl)
        have heq : pair.2 = kind := Except.ok.inj (hpair.2.symm.trans hkind)
        simpa [heq] using hdelete
      | cons hleads' hrest' =>
        have hlast := ih hpairs (by simp)
        cases hpairs
        simpa [getLast?_cons_cons] using hlast

end

/-- The fold of a chain checks its rows, and answers `Unavailable` before the oldest. -/
theorem stateAt_historyRows (current : List Char) (position : ℤ) (h : Chain before entries after)
    (hsorted : entries.Pairwise fun a b => a.1 < b.1) {oldest : ℤ × Entry κ}
    (holdest : entries.head? = some oldest) :
    ∃ head newest pairs, newest.current = current ∧
      List.Forall₂ (KindOf current head) entries pairs ∧
      stateAt (historyRows current entries) position =
        if position < oldest.1 then .ok .unavailable else foldBack newest pairs position := by
  obtain ⟨last, hlast⟩ : ∃ last, entries.getLast? = some last := by
    cases entries with
    | nil => cases holdest
    | cons entry rest => exact ⟨_, getLast?_eq_some_getLast (by simp)⟩
  obtain ⟨pairs, hpairs, hforall⟩ :=
    checkRows_of_chain current last.1 h none (by simp) hsorted
  refine ⟨last.1, rowOf current last.1 last, pairs, rfl, hforall, ?_⟩
  have hrows : historyRows current entries = entries.map (rowOf current last.1) := by
    rw [historyRows, hlast]
    rfl
  have hhead : (entries.map (rowOf current last.1)).head? = some (rowOf current last.1 oldest) := by
    rw [head?_map, holdest]
    rfl
  have hend : (entries.map (rowOf current last.1)).getLast? = some (rowOf current last.1 last) := by
    rw [getLast?_map, hlast]
    rfl
  rw [hrows, stateAt, hhead, hend]
  show (checkRows last.1 none (entries.map (rowOf current last.1)) >>= fun kinds => _) = _
  rw [hpairs]
  show (if last.1 ≠ last.1 then _ else _) = _
  rw [if_neg (by simp)]
  rfl

/-- The fold of a chain finds the state between the entries up to the position and the others. -/
theorem stateAt_of_chain {older newer : List (ℤ × Entry κ)} (holder : older ≠ [])
    (hsorted : (older ++ newer).Pairwise fun a b => a.1 < b.1)
    (hchain : Chain before older between) (hchain' : Chain between newer after)
    (hcurrent : ∀ state, after = some state → image current = some state)
    (hle : ∀ entry ∈ older, entry.1 ≤ position) (hlt : ∀ entry ∈ newer, position < entry.1) :
    stateAt (historyRows current (older ++ newer)) position =
      .ok (between.elim .absent .present) := by
  obtain ⟨oldest, rest, rfl⟩ := exists_cons_of_ne_nil holder
  obtain ⟨head, newest, pairs, hnewest, hforall, hstate⟩ :=
    stateAt_historyRows current position (hchain.append hchain') hsorted rfl
  have hle' := hle oldest mem_cons_self
  rw [hstate, if_neg (Int.not_lt.2 hle')]
  have hlast := kind_of_last hforall (hchain.append hchain') (by simp)
  -- The fold starts from the last state of the chain.
  have hstart : lastState newest pairs = .ok after := by
    cases after with
    | none =>
      rw [lastState, if_pos (hlast.2 rfl)]
      rfl
    | some state =>
      rw [lastState, if_neg fun h => by cases hlast.1 h]
      refine bind_eq_ok.2 ⟨state, ?_, rfl⟩
      rw [imageAt, hnewest, hcurrent state rfl]
      rfl
  have holderPairs := forall₂_take (oldest :: rest).length hforall
  have hnewerPairs := forall₂_drop (oldest :: rest).length hforall
  rw [take_left] at holderPairs
  rw [drop_left] at hnewerPairs
  have hunwind : unwind position pairs.reverse after = .ok between := by
    rw [← take_append_drop (oldest :: rest).length pairs, reverse_append,
      unwind_of_chain hnewerPairs hchain' hlt]
    exact unwind_of_older holderPairs hle between
  unfold foldBack
  exact bind_eq_ok.2 ⟨after, hstart, bind_eq_ok.2 ⟨between, hunwind, rfl⟩⟩

end Fold

end Wamn.History
