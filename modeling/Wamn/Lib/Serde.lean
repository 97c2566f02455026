import Mathlib.Data.List.Sort
import Mathlib.Data.String.Basic
import Wamn.Lib.Json
import Wamn.Lib.OrdMap

/-!
# Documents and the maps a JSON library reads them into

A document is a JSON value as a text spells it: the members of an object stand in the order of the
text, and a name may repeat. A library reads a document into values whose objects are maps, with
each name once, by name or in the order of insertion. Values are equal to the library if they agree
up to the order of members.
-/

namespace Wamn.Lib.Json

open List

/-- The members of an object. -/
abbrev Members := List (String × Value)

namespace Value

/-! ## Values as trees -/

/-- A property that goes over from items and members to their value holds of every value. -/
@[elab_as_elim]
theorem treeInduction {P : Value → Prop} (null : P .null) (bool : ∀ b, P (.bool b))
    (number : ∀ n, P (.number n)) (string : ∀ s, P (.string s))
    (array : ∀ items : List Value, (∀ v ∈ items, P v) → P (.array items))
    (object : ∀ members : Members, (∀ m ∈ members, P m.2) → P (.object members))
    (v : Value) : P v := by
  refine @Value.rec P (fun items => ∀ v ∈ items, P v) (fun members => ∀ m ∈ members, P m.2)
    (fun m => P m.2) null bool number string array object ?_ ?_ ?_ ?_ ?_ v
  · exact fun _ h => nomatch h
  · exact fun _ _ hhead htail => forall_mem_cons.2 ⟨hhead, htail⟩
  · exact fun _ h => nomatch h
  · exact fun _ _ hhead htail => forall_mem_cons.2 ⟨hhead, htail⟩
  · exact fun _ _ h => h

mutual

/-- The value with the members of every object rearranged, from the innermost object on. -/
def mapObjects (f : Members → Members) : Value → Value
  | .null => .null
  | .bool b => .bool b
  | .number n => .number n
  | .string s => .string s
  | .array items => .array (mapItems f items)
  | .object members => .object (f (mapMembers f members))

/-- `mapObjects` for the items of an array. -/
def mapItems (f : Members → Members) : List Value → List Value
  | [] => []
  | v :: items => mapObjects f v :: mapItems f items

/-- `mapObjects` for the members of an object. -/
def mapMembers (f : Members → Members) : Members → Members
  | [] => []
  | (name, v) :: members => (name, mapObjects f v) :: mapMembers f members

end

mutual

/-- How many arrays and objects stand inside each other. -/
def depth : Value → ℕ
  | .null => 0
  | .bool _ => 0
  | .number _ => 0
  | .string _ => 0
  | .array items => depthItems items + 1
  | .object members => depthMembers members + 1

/-- The depth of the deepest item. -/
def depthItems : List Value → ℕ
  | [] => 0
  | v :: items => max (depth v) (depthItems items)

/-- The depth of the deepest member. -/
def depthMembers : Members → ℕ
  | [] => 0
  | (_, v) :: members => max (depth v) (depthMembers members)

end

variable {f g : Members → Members} {v w : Value}

lemma mapItems_eq (f : Members → Members) (items : List Value) :
    mapItems f items = items.map (mapObjects f) := by
  induction items with
  | nil => rfl
  | cons v items ih => rw [mapItems, ih, map_cons]

lemma mapMembers_eq (f : Members → Members) (members : Members) :
    mapMembers f members = members.map fun m => (m.1, mapObjects f m.2) := by
  induction members with
  | nil => rfl
  | cons m members ih => rw [mapMembers, ih, map_cons]

lemma names_mapMembers (f : Members → Members) (members : Members) :
    (mapMembers f members).map Prod.fst = members.map Prod.fst := by
  rw [mapMembers_eq, map_map]
  rfl

/-! ## Values with distinct names -/

/-- No object in the value has a name twice. -/
inductive Distinct : Value → Prop where
  | null : Distinct .null
  | bool (b : Bool) : Distinct (.bool b)
  | number (n : Number) : Distinct (.number n)
  | string (s : String) : Distinct (.string s)
  | array {items : List Value} (h : ∀ v ∈ items, Distinct v) : Distinct (.array items)
  | object {members : Members} (hnames : (members.map Prod.fst).Nodup)
      (h : ∀ m ∈ members, Distinct m.2) : Distinct (.object members)

lemma Distinct.mapObjects_congr (hv : v.Distinct)
    (h : ∀ members : Members, (members.map Prod.fst).Nodup → f members = g members) :
    v.mapObjects f = v.mapObjects g := by
  induction hv with
  | null | bool b | number n | string s => rfl
  | array hitems ih =>
    rw [mapObjects, mapObjects, mapItems_eq, mapItems_eq, map_congr_left ih]
  | @object members hnames hmembers ih =>
    have hbelow : mapMembers f members = mapMembers g members := by
      rw [mapMembers_eq, mapMembers_eq]
      exact map_congr_left fun m hm => by rw [ih m hm]
    rw [mapObjects, mapObjects, hbelow, h _ (by rwa [names_mapMembers])]

lemma distinct_mapObjects (hnames : ∀ members, ((f members).map Prod.fst).Nodup)
    (hmem : ∀ members, ∀ m ∈ f members, m ∈ members) (v : Value) : (v.mapObjects f).Distinct := by
  induction v using treeInduction with
  | null => exact .null
  | bool b => exact .bool b
  | number n => exact .number n
  | string s => exact .string s
  | array items ih =>
    rw [mapObjects, mapItems_eq]
    refine .array fun v hv => ?_
    obtain ⟨item, hitem, rfl⟩ := mem_map.1 hv
    exact ih item hitem
  | object members ih =>
    rw [mapObjects, mapMembers_eq]
    refine .object (hnames _) fun m hm => ?_
    obtain ⟨member, hmember, rfl⟩ := mem_map.1 (hmem _ _ hm)
    exact ih member hmember

lemma mapObjects_mapObjects (hmem : ∀ members, ∀ m ∈ g members, m ∈ members)
    (hfix : ∀ members, f (g members) = g members) (v : Value) :
    (v.mapObjects g).mapObjects f = v.mapObjects g := by
  induction v using treeInduction with
  | null | bool b | number n | string s => rfl
  | array items ih =>
    rw [mapObjects, mapItems_eq, mapObjects, mapItems_eq, map_map]
    exact congrArg Value.array (map_congr_left ih)
  | object members ih =>
    have hbelow : mapMembers f (g (mapMembers g members)) = g (mapMembers g members) := by
      rw [mapMembers_eq f, map_congr_left (g := id) _, map_id]
      intro m hm
      have hm' := hmem _ m hm
      rw [mapMembers_eq] at hm'
      obtain ⟨member, hmember, rfl⟩ := mem_map.1 hm'
      exact Prod.ext rfl (ih member hmember)
    rw [mapObjects, mapObjects, hbelow, hfix]

/-! ## Numbers and depth -/

/-- Every number in the value is one that the library holds. -/
inductive Held : Value → Prop where
  | null : Held .null
  | bool (b : Bool) : Held (.bool b)
  | number {n : Number} (h : n.Held) : Held (.number n)
  | string (s : String) : Held (.string s)
  | array {items : List Value} (h : ∀ v ∈ items, Held v) : Held (.array items)
  | object {members : Members} (h : ∀ m ∈ members, Held m.2) : Held (.object members)

lemma Held.mapObjects (hv : v.Held) (hmem : ∀ members, ∀ m ∈ f members, m ∈ members) :
    (v.mapObjects f).Held := by
  induction hv with
  | null => exact .null
  | bool b => exact .bool b
  | number h => exact .number h
  | string s => exact .string s
  | array _ ih =>
    rw [Value.mapObjects, mapItems_eq]
    refine .array fun v hv => ?_
    obtain ⟨item, hitem, rfl⟩ := mem_map.1 hv
    exact ih item hitem
  | object _ ih =>
    rw [Value.mapObjects, mapMembers_eq]
    refine .object fun m hm => ?_
    obtain ⟨member, hmember, rfl⟩ := mem_map.1 (hmem _ _ hm)
    exact ih member hmember

lemma depthMembers_perm {members members' : Members} (h : members.Perm members') :
    depthMembers members = depthMembers members' := by
  induction h with
  | nil => rfl
  | cons m _ ih => rw [depthMembers, depthMembers, ih]
  | swap m m' members => exact max_left_comm _ _ _
  | trans _ _ ih ih' => exact ih.trans ih'

lemma depth_mapObjects (hperm : ∀ members, (f members).Perm members) (v : Value) :
    (v.mapObjects f).depth = v.depth := by
  induction v using treeInduction with
  | null | bool | number | string => rfl
  | array items ih =>
    have hitems : depthItems (mapItems f items) = depthItems items := by
      induction items with
      | nil => rfl
      | cons v items ih' =>
        obtain ⟨hv, hitems⟩ := forall_mem_cons.1 ih
        rw [mapItems, depthItems, depthItems, hv, ih' hitems]
    rw [mapObjects, depth, depth, hitems]
  | object members ih =>
    have hmembers : depthMembers (mapMembers f members) = depthMembers members := by
      induction members with
      | nil => rfl
      | cons m members ih' =>
        obtain ⟨hm, hmembers⟩ := forall_mem_cons.1 ih
        rw [mapMembers, depthMembers, depthMembers, hm, ih' hmembers]
    rw [mapObjects, depth, depth, depthMembers_perm (hperm _), hmembers]

end Value

/-! ## Maps -/

/-- The order in which a map lists its members. -/
inductive MapOrder where
  | byName
  | byInsertion
  deriving DecidableEq

namespace MapOrder

/-- Put a member in the place of its name, or behind all others. -/
def putMember (name : String) (value : Value) (members : Members) : Members :=
  if name ∈ members.map Prod.fst then
    members.map fun m => if m.1 = name then (name, value) else m
  else members ++ [(name, value)]

/-- Put a member into a map, for the one of the same name. -/
def insert : MapOrder → String → Value → Members → Members
  | .byName => OrdMap.insertEntry
  | .byInsertion => putMember

/-- How a map lists its members: in order, or at least each name once. -/
def Lists : MapOrder → Members → Prop
  | .byName, members => members.Pairwise fun a b => a.1 < b.1
  | .byInsertion, members => (members.map Prod.fst).Nodup

variable {o : MapOrder} {members : Members} {name : String} {value : Value}

lemma Lists.nodup (h : o.Lists members) : (members.map Prod.fst).Nodup :=
  match o with
  | .byName => pairwise_map.2 (List.Pairwise.imp (fun h => ne_of_lt h) h)
  | .byInsertion => h

lemma lists_of_sorted (h : members.Pairwise fun a b => a.1 < b.1) : o.Lists members :=
  match o with
  | .byName => h
  | .byInsertion => pairwise_map.2 (h.imp fun h => ne_of_lt h)

lemma Lists.insert (h : o.Lists members) : o.Lists (o.insert name value members) := by
  cases o with
  | byName => exact OrdMap.pairwise_insertEntry h
  | byInsertion =>
    show ((putMember name value members).map Prod.fst).Nodup
    unfold putMember
    split
    · have hnames : (members.map fun m => if m.1 = name then (name, value) else m).map Prod.fst =
          members.map Prod.fst := by
        rw [map_map]
        refine map_congr_left fun m _ => ?_
        by_cases hm : m.1 = name
        · simp [hm]
        · simp [hm]
      rw [hnames]
      exact h
    · rename_i hfresh
      rw [map_append]
      exact nodup_append.2 ⟨h, nodup_singleton _, by
        rintro a ha b hb rfl
        obtain rfl : a = name := mem_singleton.1 hb
        exact hfresh ha⟩

lemma mem_insert {m : String × Value} (h : m ∈ o.insert name value members) :
    m = (name, value) ∨ m ∈ members := by
  cases o with
  | byName => exact OrdMap.mem_insertEntry h
  | byInsertion =>
    change m ∈ putMember name value members at h
    unfold putMember at h
    split at h
    · obtain ⟨old, hold, rfl⟩ := mem_map.1 h
      by_cases hname : old.1 = name
      · exact .inl (if_pos hname)
      · exact .inr ((if_neg hname).symm ▸ hold)
    · rcases mem_append.1 h with h | h
      · exact .inr h
      · exact .inl (mem_singleton.1 h)

lemma insert_of_last (h : ∀ m ∈ members, m.1 < name) :
    o.insert name value members = members ++ [(name, value)] := by
  cases o with
  | byName =>
    show OrdMap.insertEntry name value members = _
    induction members with
    | nil => rfl
    | cons m members ih =>
      have hm := h m mem_cons_self
      rw [OrdMap.insertEntry, if_neg (lt_asymm hm), if_neg (ne_of_gt hm),
        ih fun m hmem => h m (mem_cons_of_mem _ hmem), cons_append]
  | byInsertion =>
    refine if_neg fun hmem => ?_
    obtain ⟨m, hm, rfl⟩ := mem_map.1 hmem
    exact lt_irrefl _ (h m hm)

/-- The map that the members of a document are read into. -/
def collectMembers (o : MapOrder) (members : Members) : Members :=
  members.foldl (fun read m => o.insert m.1 m.2 read) []

/-- The value that a document is read into. -/
def collect (o : MapOrder) (document : Value) : Value := document.mapObjects o.collectMembers

lemma lists_collectMembers (o : MapOrder) (members : Members) :
    o.Lists (o.collectMembers members) := by
  have hfold : ∀ read, o.Lists read →
      o.Lists (members.foldl (fun read m => o.insert m.1 m.2 read) read) := by
    induction members with
    | nil => exact fun read h => h
    | cons m members ih => exact fun read h => ih _ h.insert
  exact hfold [] (lists_of_sorted List.Pairwise.nil)

lemma mem_collectMembers {m : String × Value} (h : m ∈ o.collectMembers members) :
    m ∈ members := by
  have hfold : ∀ read, m ∈ members.foldl (fun read m => o.insert m.1 m.2 read) read →
      m ∈ read ∨ m ∈ members := by
    clear h
    induction members with
    | nil => exact fun read h => .inl h
    | cons first members ih =>
      intro read h
      rcases ih _ h with h | h
      · rcases mem_insert h with rfl | h
        · exact .inr mem_cons_self
        · exact .inl h
      · exact .inr (mem_cons_of_mem _ h)
  exact (hfold [] h).resolve_left (by simp)

lemma collectMembers_of_sorted (h : members.Pairwise fun a b => a.1 < b.1) :
    o.collectMembers members = members := by
  have hfold : ∀ read, (read ++ members).Pairwise (fun a b => a.1 < b.1) →
      members.foldl (fun read m => o.insert m.1 m.2 read) read = read ++ members := by
    clear h
    induction members with
    | nil => simp
    | cons m members ih =>
      intro read h
      have hlast : ∀ before ∈ read, before.1 < m.1 :=
        fun before hbefore => (pairwise_append.1 h).2.2 before hbefore m mem_cons_self
      rw [foldl_cons, insert_of_last hlast, ih _ (by simpa using h)]
      simp
  exact hfold [] h

lemma collectMembers_of_lists (h : o.Lists members) : o.collectMembers members = members := by
  cases o with
  | byName => exact collectMembers_of_sorted h
  | byInsertion =>
    have hfold : ∀ read : Members, ((read ++ members).map Prod.fst).Nodup →
        members.foldl (fun read m => putMember m.1 m.2 read) read = read ++ members := by
      clear h
      induction members with
      | nil => simp
      | cons m members ih =>
        intro read h
        have hfresh : m.1 ∉ read.map Prod.fst := by
          rw [map_append, map_cons] at h
          exact fun hmem => (nodup_append.1 h).2.2 m.1 hmem m.1 mem_cons_self rfl
        rw [foldl_cons, putMember, if_neg hfresh, ih _ (by simpa using h)]
        simp
    exact hfold [] h

variable (o : MapOrder) (document : Value)

/-- A document is read into a value with distinct names. -/
theorem distinct_collect : (o.collect document).Distinct :=
  Value.distinct_mapObjects (fun members => (lists_collectMembers o members).nodup)
    (fun _ _ => mem_collectMembers) document

lemma collect_collect_byName : o.collect (byName.collect document) = byName.collect document :=
  Value.mapObjects_mapObjects (fun _ _ => mem_collectMembers)
    (fun members => collectMembers_of_sorted (lists_collectMembers .byName members)) document

lemma collect_collect : o.collect (o.collect document) = o.collect document :=
  Value.mapObjects_mapObjects (fun _ _ => mem_collectMembers)
    (fun members => collectMembers_of_lists (lists_collectMembers o members)) document

end MapOrder

namespace Value

/-- Equality as the library compares values, which ignores the order of members. -/
def Same (v w : Value) : Prop := MapOrder.byName.collect v = MapOrder.byName.collect w

lemma collectMembers_byName (members : Members) :
    MapOrder.byName.collectMembers members = (OrdMap.ofList members).entries := by
  have hfold : ∀ (members : Members) (m : OrdMap String Value),
      members.foldl (fun read m => MapOrder.byName.insert m.1 m.2 read) m.entries =
        (members.foldl (fun m entry => m.insert entry.1 entry.2) m).entries := by
    intro members
    induction members with
    | nil => exact fun _ => rfl
    | cons m members ih => exact fun read => ih (read.insert m.1 m.2)
  exact hfold members OrdMap.empty

section

variable {members : Members} (hnodup : (members.map Prod.fst).Nodup)

include hnodup

lemma perm_collectMembers (o : MapOrder) : (o.collectMembers members).Perm members := by
  cases o with
  | byName =>
    rw [collectMembers_byName]
    exact OrdMap.perm_entries_ofList hnodup
  | byInsertion => rw [MapOrder.collectMembers_of_lists (o := .byInsertion) hnodup]

lemma lookup_eq_some {name : String} {value : Value} :
    members.lookup name = some value ↔ (name, value) ∈ members := by
  induction members with
  | nil => simp
  | cons m members ih =>
    obtain ⟨hfresh, hnodup⟩ := nodup_cons.1 hnodup
    rw [lookup_cons]
    by_cases hname : name = m.1
    · subst hname
      have hmem : ∀ value, (m.1, value) ∉ members :=
        fun value hmem => hfresh (mem_map.2 ⟨_, hmem, rfl⟩)
      simp [hmem, Prod.ext_iff, eq_comm]
    · have hbeq : (name == m.1) = false := by simpa using hname
      rw [hbeq]
      simp [ih hnodup, Prod.ext_iff, hname]

lemma lookup_collect (o : MapOrder) (name : String) :
    (o.collectMembers (mapMembers o.collectMembers members)).lookup name =
      (members.lookup name).map o.collect := by
  have hbelow : ((mapMembers o.collectMembers members).map Prod.fst).Nodup := by
    rwa [names_mapMembers]
  ext value
  rw [lookup_eq_some (MapOrder.lists_collectMembers o _).nodup,
    (perm_collectMembers hbelow o).mem_iff, mapMembers_eq, mem_map, Option.map_eq_some_iff]
  constructor
  · rintro ⟨⟨name', v⟩, hmem, heq⟩
    obtain ⟨rfl, rfl⟩ := Prod.mk.inj heq
    exact ⟨v, (lookup_eq_some hnodup).2 hmem, rfl⟩
  · rintro ⟨v, hlookup, rfl⟩
    exact ⟨(name, v), (lookup_eq_some hnodup).1 hlookup, rfl⟩

end

lemma Distinct.mapObjects_eq_collect {v : Value} (hv : v.Distinct) {f : Members → Members}
    (hperm : ∀ members, (f members).Perm members)
    (hsorted : ∀ members, (members.map Prod.fst).Nodup →
      (f members).Pairwise fun a b => a.1 < b.1) :
    v.mapObjects f = MapOrder.byName.collect v := by
  refine hv.mapObjects_congr fun members hnodup => ?_
  rw [collectMembers_byName, ← OrdMap.entries_ofList (hsorted members hnodup),
    OrdMap.ofList_perm hnodup (hperm members).symm]

lemma same_object {members members' others : Members} (hnodup : (members'.map Prod.fst).Nodup)
    (hperm : members.Perm members')
    (h : List.Forall₂ (fun m n => m.1 = n.1 ∧ m.2.Same n.2) others members) :
    (Value.object others).Same (.object members') := by
  have hothers : mapMembers MapOrder.byName.collectMembers others =
      mapMembers MapOrder.byName.collectMembers members := by
    clear hperm
    induction h with
    | nil => rfl
    | cons hhead _ ih =>
      rw [mapMembers_eq, map_cons, ← mapMembers_eq, ih, mapMembers_eq, mapMembers_eq,
        map_cons]
      exact congrArg (· :: _) (Prod.ext hhead.1 hhead.2)
  have hmembers : (mapMembers MapOrder.byName.collectMembers members).Perm
      (mapMembers MapOrder.byName.collectMembers members') := by
    rw [mapMembers_eq, mapMembers_eq]
    exact hperm.map _
  show Value.object _ = Value.object _
  rw [hothers, collectMembers_byName, collectMembers_byName,
    OrdMap.ofList_perm (by rwa [names_mapMembers, (hperm.map Prod.fst).nodup_iff]) hmembers]

/-- Two values agree up to the order of members, at every depth. -/
inductive Reordered : Value → Value → Prop where
  | refl (v : Value) : Reordered v v
  | trans {u v w : Value} : Reordered u v → Reordered v w → Reordered u w
  | members {members members' : Members} :
    members.Perm members' → Reordered (.object members) (.object members')
  | item {v w : Value} (before after : List Value) :
    Reordered v w → Reordered (.array (before ++ v :: after)) (.array (before ++ w :: after))
  | member {v w : Value} (before after : Members) (name : String) : Reordered v w →
    Reordered (.object (before ++ (name, v) :: after)) (.object (before ++ (name, w) :: after))

lemma Reordered.symm {v w : Value} (h : v.Reordered w) : w.Reordered v := by
  induction h with
  | refl v => exact .refl v
  | trans _ _ ih ih' => exact ih'.trans ih
  | members hperm => exact .members hperm.symm
  | item before after _ ih => exact .item before after ih
  | member before after name _ ih => exact .member before after name ih

lemma Reordered.same {v w : Value} (h : v.Reordered w) (hv : v.Distinct) :
    w.Distinct ∧ v.Same w := by
  induction h with
  | refl v => exact ⟨hv, rfl⟩
  | trans _ _ ih ih' =>
    obtain ⟨hmiddle, hsame⟩ := ih hv
    obtain ⟨hw, hsame'⟩ := ih' hmiddle
    exact ⟨hw, hsame.trans hsame'⟩
  | members hperm =>
    cases hv with | object hnames hmembers
    have hnames' := (hperm.map Prod.fst).nodup_iff.1 hnames
    exact ⟨.object hnames' fun m hm => hmembers m (hperm.mem_iff.2 hm),
      same_object hnames' hperm (forall₂_same.2 fun _ _ => ⟨rfl, rfl⟩)⟩
  | item before after _ ih =>
    cases hv with | array hitems
    rw [forall_mem_append, forall_mem_cons] at hitems
    obtain ⟨hbefore, hv, hafter⟩ := hitems
    obtain ⟨hw, hsame⟩ := ih hv
    refine ⟨.array ?_, ?_⟩
    · rw [forall_mem_append, forall_mem_cons]
      exact ⟨hbefore, hw, hafter⟩
    · show Value.array _ = Value.array _
      rw [mapItems_eq, mapItems_eq, map_append, map_append, map_cons, map_cons]
      exact congrArg (fun v => Value.array (_ ++ v :: _)) hsame
  | member before after name _ ih =>
    cases hv with | object hnames hmembers
    rw [forall_mem_append, forall_mem_cons] at hmembers
    obtain ⟨hbefore, hv, hafter⟩ := hmembers
    obtain ⟨hw, hsame⟩ := ih hv
    rw [map_append, map_cons] at hnames
    refine ⟨.object (by rwa [map_append, map_cons]) ?_, ?_⟩
    · rw [forall_mem_append, forall_mem_cons]
      exact ⟨hbefore, hw, hafter⟩
    · show Value.object _ = Value.object _
      rw [mapMembers_eq, mapMembers_eq, map_append, map_append, map_cons, map_cons]
      exact congrArg (fun v => Value.object (MapOrder.collectMembers _ (_ ++ (name, v) :: _))) hsame

end Value

/-! ## The library -/

/-- A value of the library, whose objects are maps. -/
structure SerdeValue where
  value : Value
  distinct : value.Distinct

/-- An object of the library. -/
structure Map (o : MapOrder) where
  members : Members
  lists : o.Lists members
  distinct : ∀ m ∈ members, m.2.Distinct

namespace Map

variable {o : MapOrder}

/-- The map without members. -/
def empty : Map o := ⟨[], MapOrder.lists_of_sorted List.Pairwise.nil, fun _ h => nomatch h⟩

/-- Put a member into a map. -/
def insert (m : Map o) (name : String) (v : SerdeValue) : Map o where
  members := o.insert name v.value m.members
  lists := m.lists.insert
  distinct := fun member h => by
    rcases MapOrder.mem_insert h with rfl | h
    · exact v.distinct
    · exact m.distinct member h

/-- Equality as the library compares maps. -/
def Same (m m' : Map o) : Prop := (Value.object m.members).Same (.object m'.members)

end Map

/-- A JSON library: the order of its maps, its writer and its reader. -/
structure SerdeJson where
  order : MapOrder
  toVec : Value → List UInt8
  read : List UInt8 → Option Value

namespace SerdeJson

/-- The value that the library reads from bytes. -/
def fromSlice (serde : SerdeJson) (bytes : List UInt8) : Option SerdeValue :=
  (serde.read bytes).map fun document =>
    ⟨serde.order.collect document, MapOrder.distinct_collect serde.order document⟩

/-- How deep the library reads. -/
def recursionLimit : ℕ := 127

/-- What is documented: a document of numbers that the library holds is read as it was written, up
to the recursion limit. -/
def ReadsOwn (serde : SerdeJson) : Prop :=
  ∀ document : Value, document.Held → serde.read (serde.toVec document) =
    if document.depth ≤ recursionLimit then some document else none

end SerdeJson

end Wamn.Lib.Json
