import Mathlib.Data.List.Nodup
import Mathlib.Order.Lattice
import Wamn.Lib.Keyed

/-!
# Maps that list their entries by key

A map over an ordered type of keys, as a list of its entries in the order of their keys. Two maps
with the same entries are equal, and going through a map meets its keys in order. A set of keys is a
map to `Unit`.
-/

namespace Wamn.Lib

open List

/-- A map with its entries in the order of their keys. -/
structure OrdMap (κ α : Type*) [LinearOrder κ] where
  entries : List (κ × α)
  sorted : entries.Pairwise fun a b => a.1 < b.1
  deriving DecidableEq

namespace OrdMap

variable {κ α : Type*} [LinearOrder κ]

/-- No entries. -/
def empty : OrdMap κ α := ⟨[], List.Pairwise.nil⟩

/-- The keys in order. -/
def keys (m : OrdMap κ α) : List κ := m.entries.map Prod.fst

/-- The value of a key. -/
def get (m : OrdMap κ α) (key : κ) : Option α :=
  (m.entries.find? fun entry => entry.1 = key).map Prod.snd

/-- Put an entry into a list by key, replacing the entry of that key. -/
def insertEntry (key : κ) (value : α) : List (κ × α) → List (κ × α)
  | [] => [(key, value)]
  | entry :: rest =>
    if key < entry.1 then (key, value) :: entry :: rest
    else if key = entry.1 then (key, value) :: rest
    else entry :: insertEntry key value rest

variable {entries : List (κ × α)}

lemma mem_insertEntry {key : κ} {value : α} {entry : κ × α}
    (h : entry ∈ insertEntry key value entries) : entry = (key, value) ∨ entry ∈ entries := by
  induction entries with
  | nil => exact .inl (mem_singleton.1 h)
  | cons head rest ih =>
    unfold insertEntry at h
    split at h
    · exact mem_cons.1 h
    · split at h
      · rcases mem_cons.1 h with rfl | h
        · exact .inl rfl
        · exact .inr (mem_cons_of_mem _ h)
      · rcases mem_cons.1 h with rfl | h
        · exact .inr mem_cons_self
        · exact (ih h).imp_right (mem_cons_of_mem _)

lemma pairwise_insertEntry {key : κ} {value : α} (h : entries.Pairwise fun a b => a.1 < b.1) :
    (insertEntry key value entries).Pairwise fun a b => a.1 < b.1 := by
  induction entries with
  | nil => exact pairwise_singleton _ _
  | cons head rest ih =>
    obtain ⟨hhead, hrest⟩ := pairwise_cons.1 h
    unfold insertEntry
    split
    · rename_i hlt
      refine pairwise_cons.2 ⟨fun entry hentry => ?_, h⟩
      rcases mem_cons.1 hentry with rfl | hentry
      · exact hlt
      · exact lt_trans hlt (hhead entry hentry)
    · rename_i hge
      split
      · rename_i heq
        exact pairwise_cons.2 ⟨fun entry hentry => heq ▸ hhead entry hentry, hrest⟩
      · rename_i hne
        refine pairwise_cons.2 ⟨fun entry hentry => ?_, ih hrest⟩
        rcases mem_insertEntry hentry with rfl | hentry
        · exact lt_of_le_of_ne (not_lt.1 hge) (Ne.symm hne)
        · exact hhead entry hentry

/-- Put an entry into the map. -/
def insert (m : OrdMap κ α) (key : κ) (value : α) : OrdMap κ α :=
  ⟨insertEntry key value m.entries, pairwise_insertEntry m.sorted⟩

/-- The map of the given entries. The last entry of a repeated key stays. -/
def ofList (entries : List (κ × α)) : OrdMap κ α :=
  entries.foldl (fun m entry => m.insert entry.1 entry.2) empty

/-- Change the value of a key. -/
def modify (m : OrdMap κ α) (key : κ) (f : α → α) : OrdMap κ α where
  entries := m.entries.map fun entry => (entry.1, if entry.1 = key then f entry.2 else entry.2)
  sorted := pairwise_map.2 m.sorted

/-- The entries whose value passes. -/
def filter (m : OrdMap κ α) (p : α → Bool) : OrdMap κ α where
  entries := m.entries.filter fun entry => p entry.2
  sorted := m.sorted.filter _

/-- The number of entries. -/
def size (m : OrdMap κ α) : ℕ := m.entries.length

variable {m : OrdMap κ α} {key : κ} {value : α}

lemma nodup_keys (m : OrdMap κ α) : m.keys.Nodup :=
  pairwise_map.2 (m.sorted.imp fun h => ne_of_lt h)

lemma find?_eq_some (hnodup : (entries.map Prod.fst).Nodup) :
    (entries.find? fun entry => entry.1 = key).map Prod.snd = some value ↔
      (key, value) ∈ entries := by
  rw [Option.map_eq_some_iff]
  constructor
  · rintro ⟨entry, hfind, rfl⟩
    obtain ⟨hentry, rfl⟩ := (Keyed.find?_eq_some hnodup).1 hfind
    exact hentry
  · intro hentry
    exact ⟨(key, value), (Keyed.find?_eq_some hnodup).2 ⟨hentry, rfl⟩, rfl⟩

lemma get_eq_some : m.get key = some value ↔ (key, value) ∈ m.entries :=
  find?_eq_some m.nodup_keys

lemma find?_entries : m.entries.find? (fun entry => entry.1 = key) =
    (m.get key).map fun value => (key, value) := by
  unfold get
  cases hfind : m.entries.find? (fun entry => entry.1 = key) with
  | none => rfl
  | some entry =>
    have hkey : entry.1 = key := by simpa using find?_some hfind
    rw [← hkey]
    rfl

lemma isSome_get : (m.get key).isSome = true ↔ key ∈ m.keys := by
  rw [Option.isSome_iff_exists]
  constructor
  · rintro ⟨value, h⟩
    exact mem_map.2 ⟨_, get_eq_some.1 h, rfl⟩
  · intro h
    obtain ⟨⟨_, value⟩, hentry, rfl⟩ := mem_map.1 h
    exact ⟨value, get_eq_some.2 hentry⟩

lemma keys_modify (f : α → α) : (m.modify key f).keys = m.keys := by
  unfold keys modify
  rw [map_map]
  rfl

lemma get_modify (f : α → α) (key' : κ) :
    (m.modify key f).get key' = (m.get key').map fun value =>
      if key' = key then f value else value := by
  ext value
  rw [get_eq_some, Option.map_eq_some_iff]
  unfold modify
  rw [mem_map]
  constructor
  · rintro ⟨⟨k, v⟩, hentry, heq⟩
    obtain ⟨rfl, rfl⟩ := Prod.mk.inj heq
    exact ⟨v, get_eq_some.2 hentry, rfl⟩
  · rintro ⟨v, hget, rfl⟩
    exact ⟨(key', v), get_eq_some.1 hget, rfl⟩

lemma get_filter (p : α → Bool) (key : κ) : (m.filter p).get key = (m.get key).filter p := by
  ext value
  rw [get_eq_some, Option.filter_eq_some_iff, get_eq_some]
  exact mem_filter

@[simp] lemma get_empty (key : κ) : (empty : OrdMap κ α).get key = none := rfl

lemma mem_keys_insert {key' : κ} :
    key' ∈ (m.insert key value).keys ↔ key' = key ∨ key' ∈ m.keys := by
  show key' ∈ (insertEntry key value m.entries).map Prod.fst ↔ _ ∨ key' ∈ m.entries.map Prod.fst
  induction m.entries with
  | nil => simp [insertEntry]
  | cons head rest ih =>
    unfold insertEntry
    split
    · simp
    · split
      · rename_i heq
        simp [heq]
      · rw [map_cons, mem_cons, ih, map_cons, mem_cons]
        tauto

lemma get_insert (key' : κ) :
    (m.insert key value).get key' = if key' = key then some value else m.get key' := by
  show ((insertEntry key value m.entries).find? fun entry => entry.1 = key').map Prod.snd =
    if key' = key then some value else (m.entries.find? fun entry => entry.1 = key').map Prod.snd
  induction m.entries with
  | nil =>
    by_cases hkey : key' = key
    · simp [insertEntry, hkey]
    · simp [insertEntry, hkey, Ne.symm hkey]
  | cons head rest ih =>
    by_cases hkey : key' = key
    · subst hkey
      rw [if_pos rfl] at ih ⊢
      unfold insertEntry
      split
      · simp
      · split
        · simp
        · rename_i hne
          rwa [find?_cons_of_neg (by simpa using Ne.symm hne)]
    · rw [if_neg hkey] at ih ⊢
      unfold insertEntry
      split
      · rw [find?_cons_of_neg (by simpa using Ne.symm hkey)]
      · split
        · rename_i heq
          rw [find?_cons_of_neg (by simpa using Ne.symm hkey),
            find?_cons_of_neg (by simpa [← heq] using Ne.symm hkey)]
        · rw [find?_cons, find?_cons]
          split
          · rfl
          · exact ih

lemma ext_get {m' : OrdMap κ α} (h : ∀ key, m.get key = m'.get key) : m = m' := by
  have hmem : ∀ entry, entry ∈ m.entries ↔ entry ∈ m'.entries := by
    intro entry
    show (entry.1, entry.2) ∈ m.entries ↔ _
    rw [← get_eq_some, h, get_eq_some]
  have hnodup : ∀ m : OrdMap κ α, m.entries.Nodup :=
    fun m => m.sorted.imp fun hlt heq => absurd (heq ▸ hlt) (lt_irrefl _)
  have hperm : m.entries.Perm m'.entries :=
    (perm_ext_iff_of_nodup (hnodup m) (hnodup m')).2 hmem
  have hentries := hperm.eq_of_pairwise
    (fun a b _ _ hlt hgt => absurd (lt_trans hlt hgt) (lt_irrefl _)) m.sorted m'.sorted
  cases m
  cases m'
  cases hentries
  rfl

section

variable (hnodup : (entries.map Prod.fst).Nodup)

include hnodup

lemma get_foldl_insert :
    (entries.foldl (fun m entry => m.insert entry.1 entry.2) m).get key =
      ((entries.find? fun entry => entry.1 = key).map Prod.snd).or (m.get key) := by
  induction entries generalizing m with
  | nil => rfl
  | cons entry rest ih =>
    obtain ⟨hfresh, hrest⟩ := nodup_cons.1 hnodup
    rw [foldl_cons, ih hrest, get_insert]
    by_cases hkey : entry.1 = key
    · -- The key of the entry does not come again.
      have hnone : rest.find? (fun entry => entry.1 = key) = none := by
        rw [find?_eq_none]
        intro other hother heq
        exact hfresh (mem_map.2 ⟨other, hother, by simpa [hkey] using heq⟩)
      simp [hnone, hkey]
    · simp [hkey, Ne.symm hkey]

lemma get_ofList :
    (ofList entries).get key = (entries.find? fun entry => entry.1 = key).map Prod.snd := by
  rw [ofList, get_foldl_insert hnodup]
  simp [get, empty]

lemma ofList_perm {entries' : List (κ × α)} (hperm : entries.Perm entries') :
    ofList entries = ofList entries' := by
  refine ext_get fun key => ?_
  ext value
  have hnodup' := (hperm.map Prod.fst).nodup_iff.1 hnodup
  rw [get_ofList hnodup, get_ofList hnodup', find?_eq_some hnodup, find?_eq_some hnodup',
    hperm.mem_iff]

lemma perm_entries_ofList : (ofList entries).entries.Perm entries := by
  have hleft : (ofList entries).entries.Nodup := (ofList entries).nodup_keys.of_map
  refine (perm_ext_iff_of_nodup hleft hnodup.of_map).2 fun entry => ?_
  show (entry.1, entry.2) ∈ _ ↔ (entry.1, entry.2) ∈ _
  rw [← get_eq_some, get_ofList hnodup, find?_eq_some hnodup]

end

lemma entries_ofList (hsorted : entries.Pairwise fun a b => a.1 < b.1) :
    (ofList entries).entries = entries := by
  have hnodup : (entries.map Prod.fst).Nodup :=
    pairwise_map.2 (hsorted.imp fun h => ne_of_lt h)
  have heq : ofList entries = ⟨entries, hsorted⟩ := by
    refine ext_get fun key => ?_
    ext value
    rw [get_ofList hnodup, find?_eq_some hnodup, get_eq_some]
  rw [heq]

/-- The entries of the second map, over those of the first. -/
def extend (m m' : OrdMap κ α) : OrdMap κ α :=
  m'.entries.foldl (fun m entry => m.insert entry.1 entry.2) m

lemma get_extend (m' : OrdMap κ α) : (m.extend m').get key = (m'.get key).or (m.get key) :=
  get_foldl_insert m'.nodup_keys

lemma mem_keys_ofList : key ∈ (ofList entries).keys ↔ key ∈ entries.map Prod.fst := by
  have hfold : ∀ m : OrdMap κ α,
      key ∈ (entries.foldl (fun m entry => m.insert entry.1 entry.2) m).keys ↔
        key ∈ m.keys ∨ key ∈ entries.map Prod.fst := by
    induction entries with
    | nil => simp
    | cons entry rest ih =>
      intro m
      rw [foldl_cons, ih, mem_keys_insert, map_cons, mem_cons]
      tauto
  rw [ofList, hfold]
  simp [keys, empty]

end OrdMap

end Wamn.Lib
