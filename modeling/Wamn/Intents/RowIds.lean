import Wamn.Intents.AtMostOnce

/-!
# Row ids of the SQLite intent store

The `id` of an intent is an `INTEGER PRIMARY KEY` without `AUTOINCREMENT`: a new row gets the
greatest id plus one, so that the id of a deleted greatest row comes back, and a client that still
holds it acts on another intent. An id stays unreused along every run that never deletes the
greatest row.
-/

namespace Wamn.Intents

open List Lib Lib.Decimal Lib.Json

/-! ## What a request does to the ids -/

namespace Effect

variable {moment : Moment} {request : Request} {s s' : Table}

lemma mem_or_inserted (h : Effect moment request s s') {row : IntentRow}
    (hrow : row ∈ s'.rows) :
    (∃ old ∈ s.rows, old.begun = row.begun) ∨ row.id = moment.rowid := by
  cases h with
  | kept heq => exact .inl ⟨row, heq ▸ hrow, rfl⟩
  | begun intent now hfresh hrows =>
    rw [hrows] at hrow
    rcases mem_cons.1 hrow with rfl | hrow
    · exact .inr rfl
    · exact .inl ⟨row, hrow, rfl⟩
  | settled id settle hbegun hreadable hrows =>
    rw [hrows] at hrow
    obtain ⟨old, hold, rfl⟩ := mem_map.1 hrow
    refine .inl ⟨old, hold, ?_⟩
    split
    · exact (hbegun old).symm
    · rfl
  | released text id hrequest hid hrows =>
    rw [hrows] at hrow
    exact .inl ⟨row, mem_of_mem_filter hrow, rfl⟩

end Effect

/-! ## Calls under SQLite's row ids -/

namespace Table

/-- SQLite assigns the greatest id plus one, and 1 in an empty table. -/
def nextRowid (s : Table) : ℤ :=
  match (s.rows.map IntentRow.id).max? with
  | some greatest => greatest + 1
  | none => 1

lemma id_lt_nextRowid {s : Table} {row : IntentRow} (hrow : row ∈ s.rows) :
    row.id < s.nextRowid := by
  have hmem : row.id ∈ s.rows.map IntentRow.id := mem_map_of_mem hrow
  unfold nextRowid
  split
  · rename_i greatest hmax
    have hle := (max?_eq_some_iff.1 hmax).2 row.id hmem
    omega
  · rename_i hnone
    rw [max?_eq_none_iff.1 hnone] at hmem
    cases hmem

lemma nextRowid_eq (s : Table) :
    s.rows = [] ∧ s.nextRowid = 1 ∨
      ∃ row ∈ s.rows, s.nextRowid = row.id + 1 ∧ ∀ other ∈ s.rows, other.id ≤ row.id := by
  unfold nextRowid
  split
  · rename_i greatest hmax
    obtain ⟨hmem, hle⟩ := max?_eq_some_iff.1 hmax
    obtain ⟨row, hrow, rfl⟩ := mem_map.1 hmem
    exact .inr ⟨row, hrow, rfl, fun other hother => hle other.id (mem_map_of_mem hother)⟩
  · rename_i hnone
    exact .inl ⟨map_eq_nil_iff.1 (max?_eq_none_iff.1 hnone), rfl⟩

end Table

/-- The call, with the row id that SQLite assigns in the table. -/
def Call.assigned (call : Call) (s : Table) : Call :=
  { call with moment := { call.moment with rowid := s.nextRowid } }

namespace Table

variable {lib : Library} {s : Table}

section

variable (lib : Library) (s : Table) (call : Call)

def assignedStep : Table := s.step lib (call.assigned s)

def assignedRun (calls : List Call) : Table :=
  calls.foldl (assignedStep lib) s

/-- The call deletes the open row with the greatest id. -/
def ReleasesGreatest : Prop :=
  (∀ error, call.fate ≠ .failed error) ∧ ∃ text row, call.request = .release text ∧
    parseI64 text = some row.id ∧ row ∈ s.rows ∧ row.isOpen = true ∧
      ∀ other ∈ s.rows, other.id ≤ row.id

lemma step_eq_or_fate : s.step lib call = s ∨ ∀ error, call.fate ≠ .failed error := by
  unfold step
  split
  · exact .inl rfl
  · rename_i hfate
    exact .inr hfate

end

lemma nextRowid_le_step {call : Call} (hkept : ¬ s.ReleasesGreatest call) :
    s.nextRowid ≤ (s.assignedStep lib call).nextRowid := by
  have heffect : Effect (call.assigned s).moment call.request s (s.assignedStep lib call) :=
    effect_step s (call.assigned s)
  rcases step_eq_or_fate lib s (call.assigned s) with hsame | hfate
  · exact Int.le_of_eq (congrArg nextRowid hsame).symm
  · rcases s.nextRowid_eq with ⟨hempty, hone⟩ | ⟨row, hrow, hnext, hgreatest⟩
    · -- The table was empty, so a row of the new one was inserted under the id 1.
      rcases (s.assignedStep lib call).nextRowid_eq with ⟨-, hone'⟩ | ⟨row, hrow, hnext, -⟩
      · exact Int.le_of_eq (hone.trans hone'.symm)
      · rcases heffect.mem_or_inserted hrow with ⟨old, hold, -⟩ | hid
        · rw [hempty] at hold
          cases hold
        · have hrowid : row.id = s.nextRowid := hid
          omega
    · rcases heffect.kept_or_released IntentRow.id (fun _ => rfl) hrow with ⟨row', hrow', hid⟩ |
        ⟨text, hrequest, hid, hopen⟩
      · have hlt := id_lt_nextRowid hrow'
        omega
      · exact absurd ⟨hfate, text, row, hrequest, hid, hrow, hopen, hgreatest⟩ hkept

/-- The table holds under the id at most the row that was inserted. -/
structure GivenOut (id : ℤ) (new : IntentRow) (t : Table) : Prop where
  below : id < t.nextRowid
  one : ∀ row ∈ t.rows, row.id = id → row.begun = new

/-- The id has been given out, and its row is gone. -/
structure Gone (id : ℤ) (t : Table) : Prop where
  below : id < t.nextRowid
  none : ∀ row ∈ t.rows, row.id ≠ id

variable {t : Table} {id : ℤ} {call : Call}

lemma mem_of_below (hbelow : id < t.nextRowid) {row : IntentRow}
    (hrow : row ∈ (t.assignedStep lib call).rows) (hid : row.id = id) :
    ∃ old ∈ t.rows, old.id = id ∧ old.begun = row.begun := by
  rcases (effect_step t (call.assigned t)).mem_or_inserted hrow with ⟨old, hold, heq⟩ | hnew
  · refine ⟨old, hold, ?_, heq⟩
    rw [← hid]
    show old.begun.id = row.begun.id
    rw [heq]
  · have hnext : row.id = t.nextRowid := hnew
    omega

lemma GivenOut.step {new : IntentRow} (h : GivenOut id new t)
    (hkept : ¬ t.ReleasesGreatest call) : GivenOut id new (t.assignedStep lib call) where
  below := Int.lt_of_lt_of_le h.below (nextRowid_le_step hkept)
  one := by
    intro row hrow hid
    obtain ⟨old, hold, holdId, heq⟩ := mem_of_below h.below hrow hid
    exact heq.symm.trans (h.one old hold holdId)

lemma Gone.step (h : Gone id t) (hkept : ¬ t.ReleasesGreatest call) :
    Gone id (t.assignedStep lib call) where
  below := Int.lt_of_lt_of_le h.below (nextRowid_le_step hkept)
  none := by
    intro row hrow hid
    obtain ⟨old, hold, holdId, -⟩ := mem_of_below h.below hrow hid
    exact h.none old hold holdId

lemma Gone.hasOpen_eq_false (h : Gone id t) : t.hasOpen id = false := by
  rw [← Bool.not_eq_true, hasOpen_iff]
  rintro ⟨row, hrow, hid, -⟩
  exact h.none row hrow hid

end Table

/-! ## Ids that are never reused -/

/-- An id names the row of its `begin` or nothing. `begun` is the table after it, and `t` a later
one. -/
structure Unreused (lib : Library) (ok : Table → Call → Prop) (intent : Intent) (id : String)
    (begun t : Table) : Prop where
  /-- A row under the id is the one that the `begin` inserted. -/
  names : ∀ row ∈ t.rows, parseI64 id = some row.id →
    row.key = (intent.tenant, intent.idempotencyKey) ∧ row.begun ∈ begun.rows
  /-- No other `begin` answers the id. -/
  fresh : ∀ (call : Call) intent', ¬ t.AnswersNewId lib (call.assigned t) intent' id
  /-- Once the row is gone, every request with the id is refused. -/
  refused : (∀ row ∈ t.rows, parseI64 id ≠ some row.id) → ∀ u,
    Steps (Table.assignedStep lib) ok t u → ∀ (call : Call) n, parseI64 id = some n →
      call.request.Targets n → u.assignedStep lib call = u ∧
        ∀ answer, u.answer lib (call.assigned u) ≠ some (.ok answer)

/-- Along every run of calls that `ok` admits, no answered id is reused. -/
def IdsNeverReused (lib : Library) (ok : Table → Call → Prop) : Prop :=
  ∀ s first intent id, Steps (Table.assignedStep lib) ok Table.empty s → ok s first →
    s.AnswersNewId lib (first.assigned s) intent id → ∀ t,
      Steps (Table.assignedStep lib) ok (s.assignedStep lib first) t →
        Unreused lib ok intent id (s.assignedStep lib first) t

lemma rows_of_answersNewId {lib : Library} {s : Table} {call : Call} {intent : Intent}
    {id : String} (h : s.AnswersNewId lib (call.assigned s) intent id) :
    id = toString s.nextRowid ∧ ∃ new, (s.assignedStep lib call).rows = new :: s.rows ∧
      new.id = s.nextRowid ∧ new.begun = new ∧
        new.key = (intent.tenant, intent.idempotencyKey) := by
  obtain ⟨owned, howned, hbegin⟩ := begin_of_answer h
  rcases begin_eq_ok hbegin with ⟨row, -, hanswer, -⟩ | ⟨now, -, hnew, hrows⟩
  · exact absurd hanswer answerStored_ne_new
  · injection hnew with hid
    exact ⟨hid, _, hrows, rfl, rfl, key_of_owned howned⟩

/-- Along every run that never releases the open row with the greatest id, no id is reused: it names
the row of the `begin` that answered it or nothing, no later `begin` answers it, and a late call
with the id of a released intent is refused. -/
theorem ids_never_reused (lib : Library) :
    IdsNeverReused lib fun s call => ¬ s.ReleasesGreatest call := by
  intro s first intent text _ hfirst hanswer t ht
  obtain ⟨rfl, new, hrows, hid, hbegun, hkey⟩ := rows_of_answersNewId hanswer
  have hgiven : (s.assignedStep lib first).GivenOut s.nextRowid new := by
    refine ⟨?_, fun row hrow hrowId => ?_⟩
    · have hlt : new.id < (s.assignedStep lib first).nextRowid :=
        Table.id_lt_nextRowid (hrows ▸ mem_cons_self)
      omega
    · rw [hrows] at hrow
      rcases mem_cons.1 hrow with rfl | hrow
      · exact hbegun
      · have hlt := Table.id_lt_nextRowid hrow
        omega
  have hlater : t.GivenOut s.nextRowid new :=
    ht.invariant (fun _ _ h hkept => h.step hkept) hgiven
  refine ⟨fun row hrow hparse => ?_, fun call intent' hagain => ?_, fun hgone u hu call n hn => ?_⟩
  · have hrowNew := hlater.one row hrow (eq_of_parseI64_toString hparse)
    have hrowKey : row.begun.key = row.key := rfl
    rw [← hrowKey, hrowNew, hrows]
    exact ⟨hkey, mem_cons_self⟩
  · obtain ⟨htext, -⟩ := rows_of_answersNewId hagain
    have hlt := hlater.below
    have heq : s.nextRowid = t.nextRowid := intRepr_injective htext
    omega
  · obtain rfl := eq_of_parseI64_toString hn
    intro htargets
    have hnone : t.Gone s.nextRowid :=
      ⟨hlater.below, fun row hrow hrowId => hgone row hrow (by rw [hn, hrowId])⟩
    have hlast : u.Gone s.nextRowid := hu.invariant (fun _ _ h hkept => h.step hkept) hnone
    exact refused_of_closed hlast.hasOpen_eq_false htargets

namespace Sample

/-- Libraries that a run of these calls uses only for the texts of refusals. -/
def library : Library := ⟨id, fun _ => .ok "null", fun _ => .ok .null⟩

def intent (tenant key : String) : Intent := ⟨tenant, "r1", "shop", "ship", key, "h", 1000⟩

def heard (request : Request) : Call := ⟨request, ⟨.ok 0, 0⟩, .heard⟩

def first : Call := heard (.beginText (intent "acme" "a"))

/-- Its intent is released, and another tenant begins one. -/
def others : List Call := [heard (.release "1"), heard (.beginText (intent "globex" "b"))]

/-- The first tenant is answered the id 1. After its release another tenant is answered the id 1 as
well, and a late `finish` of the first completes the intent of the other. -/
theorem released_id_is_reused :
    ¬ IdsNeverReused library (fun _ _ => True) ∧
      let s := (Table.empty.assignedStep library first).assignedRun library others
      s.rows.map (fun row => (row.id, row.tenant, row.outcome)) = [(1, "globex", none)] ∧
        (s.assignedStep library (heard (.finishText "1" "\"late\""))).rows.map
          (fun row => (row.id, row.tenant, row.outcome)) = [(1, "globex", some "\"late\"")] := by
  refine ⟨fun h => ?_, by decide, by decide⟩
  have hunreused := h Table.empty first (intent "acme" "a") "1" (.refl _) trivial
    (.inl ⟨rfl, by rfl⟩) _ (Steps.foldl _ [heard (.release "1")] fun _ _ _ => trivial)
  exact hunreused.fresh (heard (.beginText (intent "globex" "b"))) (intent "globex" "b")
    (.inl ⟨rfl, by rfl⟩)

/-- Another tenant begins an intent, and then the first one is released. -/
def orderly : List Call := [heard (.beginText (intent "globex" "b")), heard (.release "1")]

/-- The id 1 is not given out again, and a late `finish` with it is refused. -/
theorem released_id_stays_free :
    let begun := Table.empty.assignedStep library first
    Unreused library (fun s call => ¬ s.ReleasesGreatest call) (intent "acme" "a") "1" begun
        (begun.assignedRun library orderly) ∧
      (begun.assignedRun library orderly).rows.map (·.id) = [2] := by
  have hbegin : ∀ (s : Table) i, ¬ s.ReleasesGreatest (heard (.beginText i)) := by
    rintro s i ⟨-, text, row, hrequest, -⟩
    cases hrequest
  refine ⟨ids_never_reused library .empty first _ "1" (.refl _) (hbegin _ _) (.inl ⟨rfl, by rfl⟩) _
    (Steps.of_admitted ⟨hbegin _ _, ?_, trivial⟩), by decide⟩
  -- The row that is released is the first, and the second has a greater id.
  rintro ⟨-, text, row, hrequest, hparse, -, -, hgreatest⟩
  cases hrequest
  have hid : row.id = 1 := Option.some.inj (hparse.symm.trans (by decide))
  have hsecond : 2 ∈ ((Table.empty.assignedStep library first).assignedStep library
      (heard (.beginText (intent "globex" "b")))).rows.map (·.id) := by decide
  obtain ⟨other, hother, hotherId⟩ := mem_map.1 hsecond
  have := hgreatest other hother
  omega

end Sample

end Wamn.Intents
