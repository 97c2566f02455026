import Wamn.Lib.JsonText

/-!
# Canonical JSON

The bytes of a value with the members of every object by name: one text for all spellings of a
value.
-/

namespace Wamn.Contract

open List Lib Lib.Json

def sortByName (members : Members) : Members := members.insertionSort fun a b => a.1 ≤ b.1

/-- The value with its members in sorted order at every depth. -/
def sortedKeys (value : Value) : Value := value.mapObjects sortByName

/-- The one text of a value. -/
def canonicalJsonBytes (serde : SerdeJson) (value : Value) : List UInt8 :=
  serde.toVec (sortedKeys value)

lemma sortByName_perm (members : Members) : (sortByName members).Perm members :=
  perm_insertionSort _ members

lemma sortByName_sorted {members : Members} (hnodup : (members.map Prod.fst).Nodup) :
    (sortByName members).Pairwise fun a b => a.1 < b.1 := by
  have : Std.Total fun a b : String × Value => a.1 ≤ b.1 := ⟨fun a b => le_total a.1 b.1⟩
  have : IsTrans (String × Value) fun a b => a.1 ≤ b.1 := ⟨fun _ _ _ => le_trans⟩
  have hle := pairwise_insertionSort (fun a b : String × Value => a.1 ≤ b.1) members
  have hne : (sortByName members).Pairwise fun a b => a.1 ≠ b.1 :=
    pairwise_map.1 (((sortByName_perm members).map Prod.fst).nodup_iff.2 hnodup)
  exact hle.imp₂ (fun _ _ hle hne => lt_of_le_of_ne hle hne) hne

lemma sortByName_of_sorted {members : Members} (h : members.Pairwise fun a b => a.1 < b.1) :
    sortByName members = members :=
  (h.imp fun h => le_of_lt h).insertionSort_eq

variable {v w : Value}

lemma sortedKeys_eq_collect (hv : v.Distinct) : sortedKeys v = MapOrder.byName.collect v :=
  hv.mapObjects_eq_collect sortByName_perm fun _ => sortByName_sorted

/-- The canonical bytes are read as the sorted value, if that is not nested too deeply. -/
theorem read_canonicalJsonBytes {serde : SerdeJson} (hserde : serde.ReadsOwn) (hv : v.Held) :
    serde.read (canonicalJsonBytes serde v) =
      if v.depth ≤ SerdeJson.recursionLimit then some (sortedKeys v) else none := by
  have hheld : (sortedKeys v).Held :=
    hv.mapObjects fun members _ => (sortByName_perm members).mem_iff.1
  have hdepth : (sortedKeys v).depth = v.depth := Value.depth_mapObjects sortByName_perm v
  rw [canonicalJsonBytes, hserde _ hheld, hdepth]

lemma fromSlice_canonicalJsonBytes {serde : SerdeJson} (hserde : serde.ReadsOwn) (hv : v.Distinct)
    (hheld : v.Held) (hdepth : v.depth ≤ SerdeJson.recursionLimit) :
    ∃ read, serde.fromSlice (canonicalJsonBytes serde v) = some read ∧ read.value.Same v := by
  rw [SerdeJson.fromSlice, read_canonicalJsonBytes hserde hheld, if_pos hdepth]
  refine ⟨_, rfl, ?_⟩
  show MapOrder.byName.collect (serde.order.collect (sortedKeys v)) = _
  rw [sortedKeys_eq_collect hv, MapOrder.collect_collect_byName, MapOrder.collect_collect_byName]

namespace Sample

def point (members : Members) (h : members.Perm [("x", .number (.negInt (-3))), ("y", .null)]) :
    SerdeValue where
  value := .object members
  distinct := .object ((h.map Prod.fst).nodup_iff.2 (by decide)) fun m hm => by
    rcases mem_pair.1 (h.mem_iff.1 hm) with rfl | rfl
    · exact .number _
    · exact .null

/-- Arrays in each other around a null. -/
def nested : ℕ → Value
  | 0 => .null
  | n + 1 => .array [nested n]

end Sample

end Wamn.Contract
