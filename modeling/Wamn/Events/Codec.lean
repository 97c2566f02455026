import Wamn.Events.Decide
import Wamn.Lib.JsonText
import Wamn.Lib.Rfc3339
import Wamn.Lib.SerdeStruct

/-!
# The wire formats of events

Row events and derived events travel as JSON objects with fixed fields. Both decoders deny unknown
fields and fail closed on names that are empty or padded or have a NUL. Only a derived record
carries a format version. It is decoded by hand: its members go into a map first, where a repeated
name is refused.
-/

namespace Wamn.Events

open Lib Lib.Json Lib.Text

/-! ## Libraries -/

/-- What the codecs use of other libraries: the JSON library, and the texts of instants. -/
structure WireLibrary where
  serde : SerdeJson
  timestampText : ℤ → String
  parseTimestamp : String → Option ℤ

/-- What is documented: the libraries take their own texts back, JSON with numbers that it holds and
up to its recursion limit. -/
structure WireLibrary.Lawful (lib : WireLibrary) : Prop where
  serde : lib.serde.ReadsOwn
  parse_text : ∀ instant, lib.parseTimestamp (lib.timestampText instant) = some instant

/-- A value of the JSON library, with members in map order and numbers that it holds. -/
def WireLibrary.Holds (lib : WireLibrary) (v : Value) : Prop :=
  lib.serde.order.collect v = v ∧ v.Held

/-! ## Operations and causations -/

def Op.ofStr (name : String) : Option Op :=
  if name = "insert" then some .insert
  else if name = "update" then some .update
  else if name = "delete" then some .delete
  else none

/-- An operation is its name, or an object with its name and nothing inside. -/
def Op.fromJson : Value → Except DecodeError Op
  | .string name => valid (Op.ofStr name)
  | .object [(name, .null)] => valid (Op.ofStr name)
  | _ => .error .invalid

namespace Causation

/-- The members of a causation in the order in which they are written. -/
def members (causation : Causation) : Members :=
  [("run", .string causation.run), ("root", .string causation.root),
    ("depth", .number (.posInt causation.depth))]

def toJson (causation : Causation) : Value := .object causation.members

def fields : Fields :=
  [("run", checks readText), ("root", checks readText), ("depth", checks (readUnsigned 32))]

def ofMembers (members : Members) : Except DecodeError Causation := do
  visitMap fields [] members
  let run ← required (members.lookup "run") "run" readText
  let root ← required (members.lookup "root") "root" readText
  let depth ← required (members.lookup "depth") "depth" (readUnsigned 32)
  pure { run, root, depth }

/-- A causation is an object of its fields or an array of their values. -/
def fromJson : Value → Except DecodeError Causation
  | .object members => ofMembers members
  | .array [run, root, depth] => do
    let run ← readText run
    let root ← readText root
    let depth ← readUnsigned 32 depth
    pure { run, root, depth }
  | _ => .error .invalid

def Typed (causation : Causation) : Prop := causation.depth < 2 ^ 32

end Causation

/-! ## Names that fail closed -/

/-- A text that is not empty, has no white space at its ends and no NUL. -/
def isCanonical (value : String) : Bool :=
  value ≠ "" && trim value = value && !value.toList.contains '\x00'

def checkCanonical (label : String → String) (texts : List (String × String)) :
    Except DecodeError Unit :=
  texts.forM fun text => ensure (isCanonical text.2) (.custom (label text.1))

lemma checkCanonical_eq_ok {label : String → String} {texts : List (String × String)} {u : Unit} :
    checkCanonical label texts = .ok u ↔ ∀ text ∈ texts, isCanonical text.2 = true := by
  rw [checkCanonical, forM_eq_ok]
  simp only [ensure_eq_ok]

/-! ## Row events -/

namespace Envelope

variable (lib : WireLibrary)

def optionalMember (name : String) (v : Option Value) : Members := v.toList.map fun v => (name, v)

variable (e : Envelope) (v : Value)

/-- The members of a row event in the order in which they are written. -/
def members : Members :=
  [("op", .string e.op.asStr)] ++ optionalMember "old" (e.old.map .object) ++
    optionalMember "new" (e.new.map .object) ++
    [("package_id", .string e.packageId), ("entity", .string e.entity), ("table", .string e.table),
      ("lsn", .number (.posInt e.lsn)), ("txid", .number (.posInt e.txid)),
      ("commit_ts", .string (lib.timestampText e.commitTs))] ++
    optionalMember "causation" (e.causation.map Causation.toJson)

def toJson : Value := .object (e.members lib)

def toVec : List UInt8 := lib.serde.toVec (e.toJson lib)

def readImage : Except DecodeError Image := valid (lib.serde.order.collect v).asObject

def readTimestamp : Except DecodeError ℤ := valid (v.asString.bind lib.parseTimestamp)

def fields : Fields :=
  [("op", checks Op.fromJson), ("old", checks (nullable (readImage lib))),
    ("new", checks (nullable (readImage lib))), ("package_id", checks readText),
    ("entity", checks readText), ("table", checks readText), ("lsn", checks (readUnsigned 64)),
    ("txid", checks (readUnsigned 32)), ("commit_ts", checks (readTimestamp lib)),
    ("causation", checks (nullable Causation.fromJson))]

def ofMembers (members : Members) : Except DecodeError Envelope := do
  visitMap (fields lib) [] members
  let op ← required (members.lookup "op") "op" Op.fromJson
  let old ← defaulted (members.lookup "old") none (nullable (readImage lib))
  let new ← defaulted (members.lookup "new") none (nullable (readImage lib))
  let packageId ← required (members.lookup "package_id") "package_id" readText
  let entity ← required (members.lookup "entity") "entity" readText
  let table ← required (members.lookup "table") "table" readText
  let lsn ← required (members.lookup "lsn") "lsn" (readUnsigned 64)
  let txid ← required (members.lookup "txid") "txid" (readUnsigned 32)
  let commitTs ← required (members.lookup "commit_ts") "commit_ts" (readTimestamp lib)
  let causation ← defaulted (members.lookup "causation") none (nullable Causation.fromJson)
  pure { op, old, new, packageId, entity, table, lsn, txid, commitTs, causation }

/-- `EnvelopeWire` from an array, where only the last field has a default. -/
def ofItems : List Value → Except DecodeError Envelope
  | op :: old :: new :: packageId :: entity :: table :: lsn :: txid :: commitTs :: rest => do
    let op ← Op.fromJson op
    let old ← nullable (readImage lib) old
    let new ← nullable (readImage lib) new
    let packageId ← readText packageId
    let entity ← readText entity
    let table ← readText table
    let lsn ← readUnsigned 64 lsn
    let txid ← readUnsigned 32 txid
    let commitTs ← readTimestamp lib commitTs
    let causation ← defaulted rest.head? none (nullable Causation.fromJson)
    ensure (rest.length ≤ 1) .invalid
    pure { op, old, new, packageId, entity, table, lsn, txid, commitTs, causation }
  | _ => .error .invalid

def readWire : Value → Except DecodeError Envelope
  | .object members => ofMembers lib members
  | .array items => ofItems lib items
  | _ => .error .invalid

/-- The texts that must be canonical, under the names they are reported by. -/
def names : List (String × String) :=
  [("package_id", e.packageId), ("entity", e.entity)]

/-- Every name that the event is selected by is canonical. -/
def Canonical : Prop := ∀ text ∈ e.names, isCanonical text.2 = true

instance (e : Envelope) : Decidable e.Canonical := inferInstanceAs (Decidable (∀ _ ∈ _, _))

/-- `Envelope::deserialize`. -/
def fromJson : Except DecodeError Envelope := do
  let e ← readWire lib v
  checkCanonical (fun field => "event envelope " ++ field ++ " is empty or noncanonical") e.names
  pure e

def fromSlice (bytes : List UInt8) : Except DecodeError Envelope := do
  let document ← valid (lib.serde.read bytes)
  fromJson lib document

/-- The numbers fit their types and the images are maps of the library. -/
structure Typed : Prop where
  lsn : e.lsn < 2 ^ 64
  txid : e.txid < 2 ^ 32
  old : ∀ image ∈ e.old, lib.Holds (.object image)
  new : ∀ image ∈ e.new, lib.Holds (.object image)
  causation : ∀ causation ∈ e.causation, causation.Typed

end Envelope

/-! ## Derived events -/

def derivedEventFormatVersion : String := "0.1"

structure DerivedRecord where
  formatVersion : String
  event : DerivedEvent
  deriving DecidableEq

namespace DerivedRecord

variable (lib : WireLibrary)

/-- The names of the fields in the order in which they are written and taken. -/
def fieldNames : List String :=
  ["format-version", "env_key", "project", "environment", "package-id", "entity", "op", "payload",
    "dedup-id", "causation"]

variable (r : DerivedRecord)

/-- The members of a record in the order in which they are written. -/
def members : Members :=
  [("format-version", .string r.formatVersion), ("env_key", .string r.event.envKey),
    ("project", .string r.event.project), ("environment", .string r.event.environment),
    ("package-id", .string r.event.packageId), ("entity", .string r.event.entity),
    ("op", .string r.event.op.asStr), ("payload", r.event.payload),
    ("dedup-id", .string r.event.dedupId), ("causation", r.event.causation.toJson)]

def toJson : Value := .object r.members

/-- `to_vec` of a record. -/
def toVec : List UInt8 := lib.serde.toVec r.toJson

/-- `visit_map`: the members of an object as library values by name. -/
def visitFields (o : MapOrder) : OrdMap String Value → Members →
    Except DecodeError (OrdMap String Value)
  | taken, [] => .ok taken
  | taken, (name, v) :: members => do
    ensure (name ∉ taken.keys) (.custom ("duplicate field `" ++ name ++ "`"))
    visitFields o (taken.insert name (o.collect v)) members

/-- Refuse the first member that is left when the fields are taken. -/
def refuseUnknown (taken : OrdMap String Value) : Except DecodeError Unit :=
  match taken.keys.find? (· ∉ fieldNames) with
  | some name => .error (.unknownField name fieldNames)
  | none => .ok ()

def ofFields (taken : OrdMap String Value) : Except DecodeError DerivedRecord := do
  let formatVersion ← required (taken.get "format-version") "format-version" readText
  let envKey ← required (taken.get "env_key") "env_key" readText
  let project ← required (taken.get "project") "project" readText
  let environment ← required (taken.get "environment") "environment" readText
  let packageId ← required (taken.get "package-id") "package-id" readText
  let entity ← required (taken.get "entity") "entity" readText
  let op ← required (taken.get "op") "op" Op.fromJson
  let payload ← required (taken.get "payload") "payload" .ok
  let dedupId ← required (taken.get "dedup-id") "dedup-id" readText
  let causation ← required (taken.get "causation") "causation" Causation.fromJson
  refuseUnknown taken
  pure
    { formatVersion
      event :=
        { envKey, project, environment, packageId, entity, op, payload, dedupId, causation } }

/-- `DerivedEvent::deserialize`. -/
def fromJson : Value → Except DecodeError DerivedRecord
  | .object members => do
    let taken ← visitFields lib.serde.order .empty members
    ofFields taken
  | _ => .error .invalid

/-- The texts that must be canonical, under the names they are reported by. -/
def names : List (String × String) :=
  [("env_key", r.event.envKey), ("project", r.event.project), ("environment", r.event.environment),
    ("package-id", r.event.packageId), ("entity", r.event.entity),
    ("causation.run", r.event.causation.run), ("causation.root", r.event.causation.root)]

/-- Decode a record and fail closed on another version. -/
def fromSlice (bytes : List UInt8) : Except DecodeError DerivedRecord := do
  let document ← valid (lib.serde.read bytes)
  let r ← fromJson lib document
  ensure (r.formatVersion = derivedEventFormatVersion)
    (.custom ("unsupported derived-event format-version " ++ r.formatVersion))
  checkCanonical (fun field => "derived-event " ++ field ++ " is empty or noncanonical") r.names
  ensure (r.event.dedupId ≠ "") (.custom "derived-event dedup-id is empty")
  pure r

/-- The record has the version of this release, canonical names and an id. -/
structure Canonical : Prop where
  formatVersion : r.formatVersion = derivedEventFormatVersion
  names : ∀ text ∈ r.names, isCanonical text.2 = true
  dedupId : r.event.dedupId ≠ ""

/-- The payload is a value of the library and the depth fits its type. -/
structure Typed : Prop where
  payload : lib.Holds r.event.payload
  causation : r.event.causation.Typed

end DerivedRecord

end Wamn.Events

namespace Wamn.Materializer.SourceEvent

open Lib Lib.Json Events

/-- `decode`: a body with a format version is a derived event, any other a row event, read from the
library value. -/
def decode (lib : WireLibrary) (body : List UInt8) : Except DecodeError SourceEvent := do
  let document ← valid (lib.serde.read body)
  let v := lib.serde.order.collect document
  if (v.get "format-version").isSome then
    let r ← DerivedRecord.fromSlice lib body
    pure (.derived r.event)
  else
    let e ← Envelope.fromJson lib v
    pure (.cdc e)

end Wamn.Materializer.SourceEvent

namespace Wamn.Events

open Lib Lib.Json Lib.Text

variable {lib : WireLibrary} {o : MapOrder} {f : Value → Value}

/-! ## Written events are read again -/

lemma Op.fromJson_asStr (op : Op) : Op.fromJson (.string op.asStr) = .ok op := by
  cases op with
  | insert | update | delete => rfl

lemma Causation.fromJson_toJson (hf : Rereads o f) {c : Causation} (hc : c.Typed) :
    fromJson (f c.toJson) = .ok c := by
  have hnames : (c.members.map Prod.fst).Nodup := by simp [members]
  have hdepth := readUnsigned_posInt hc
  obtain ⟨members', heq, hnodup, hlookup⟩ := hf.object c.members hnames
  have hvisit : visitMap fields [] members' = .ok () := by
    refine visitMap_reread hnodup hlookup hnames ?_
    simp [members, fields, List.lookup_cons, hf.string, hf.number, checks, hdepth, Except.map]
  rw [toJson, heq]
  show ofMembers members' = .ok c
  simp [ofMembers, hvisit, hlookup, members, List.lookup_cons, hf.string, hf.number, hdepth, bind,
    Except.bind, pure, Except.pure]

lemma Causation.held_toJson {c : Causation} (hc : c.Typed) : c.toJson.Held := by
  have hdepth : c.depth < 2 ^ 64 := Nat.lt_trans hc (by decide)
  refine .object ?_
  simp only [members, List.forall_mem_cons]
  exact ⟨.string _, .string _, .number hdepth, List.forall_mem_nil _⟩

namespace Envelope

lemma lookup_optionalMember (name name' : String) (v : Option Value) :
    (optionalMember name v).lookup name' = if name' = name then v else none := by
  cases v with
  | none => simp [optionalMember]
  | some v =>
    by_cases h : name' = name
    · simp [optionalMember, h]
    · have hbeq : (name' == name) = false := by simpa using h
      simp [optionalMember, List.lookup_cons, hbeq, h]

lemma nodup_members (e : Envelope) : ((e.members lib).map Prod.fst).Nodup := by
  rcases e with ⟨_, _ | _, _ | _, _, _, _, _, _, _, _ | _⟩
  all_goals simp [members, optionalMember]

lemma nullable_readImage (hf : Rereads lib.serde.order f) {image : Image}
    (h : lib.Holds (.object image)) :
    nullable (readImage lib) (f (.object image)) = .ok (some image) := by
  obtain ⟨h, -⟩ := h
  have hnames : (image.map Prod.fst).Nodup := by
    rw [← Value.object.inj h]
    exact (MapOrder.lists_collectMembers _ _).nodup
  obtain ⟨members', heq, -⟩ := hf.object image hnames
  have hcollect := hf.collect (.object image)
  rw [heq, h] at hcollect
  rw [heq, nullable_object, readImage, hcollect]
  rfl

lemma nullable_causation (hf : Rereads o f) {c : Causation} (hc : c.Typed) :
    nullable Causation.fromJson (f c.toJson) = .ok (some c) := by
  obtain ⟨members', heq, -⟩ := hf.object c.members (by simp [Causation.members])
  have hread := Causation.fromJson_toJson hf hc
  rw [Causation.toJson, heq] at hread ⊢
  rw [nullable_object, hread]
  rfl

lemma readTimestamp_text (hlib : lib.Lawful) (instant : ℤ) :
    readTimestamp lib (.string (lib.timestampText instant)) = .ok instant := by
  rw [readTimestamp, Value.asString, Option.bind_some, hlib.parse_text]
  rfl

lemma checks_members (hlib : lib.Lawful) (hf : Rereads lib.serde.order f) {e : Envelope}
    (he : e.Typed lib) : ∀ m ∈ e.members lib,
      ∃ check, (fields lib).lookup m.1 = some check ∧ check (f m.2) = .ok () := by
  have hlsn := readUnsigned_posInt he.lsn
  have htxid := readUnsigned_posInt he.txid
  have hcommit := readTimestamp_text hlib e.commitTs
  have hop := Op.fromJson_asStr e.op
  intro m hm
  simp only [members, optionalMember, List.mem_append, List.mem_map, Option.mem_toList,
    Option.map_eq_some_iff] at hm
  rcases hm with (((hm | ⟨_, ⟨image, himage, rfl⟩, rfl⟩) | ⟨_, ⟨image, himage, rfl⟩, rfl⟩) | hm) |
    ⟨_, ⟨c, hc, rfl⟩, rfl⟩
  · obtain rfl := List.mem_singleton.1 hm
    exact ⟨_, rfl, by rw [hf.string]; exact checks_of_eq_ok hop⟩
  · exact ⟨_, rfl, checks_of_eq_ok (nullable_readImage hf (he.old image himage))⟩
  · exact ⟨_, rfl, checks_of_eq_ok (nullable_readImage hf (he.new image himage))⟩
  · simp only [List.mem_cons, List.not_mem_nil, or_false] at hm
    rcases hm with rfl | rfl | rfl | rfl | rfl | rfl
    · exact ⟨_, rfl, by rw [hf.string]; rfl⟩
    · exact ⟨_, rfl, by rw [hf.string]; rfl⟩
    · exact ⟨_, rfl, by rw [hf.string]; rfl⟩
    · exact ⟨_, rfl, by rw [hf.number]; exact checks_of_eq_ok hlsn⟩
    · exact ⟨_, rfl, by rw [hf.number]; exact checks_of_eq_ok htxid⟩
    · exact ⟨_, rfl, by rw [hf.string]; exact checks_of_eq_ok hcommit⟩
  · exact ⟨_, rfl, checks_of_eq_ok (nullable_causation hf (he.causation c hc))⟩

lemma held_toJson {e : Envelope} (he : e.Typed lib) : (e.toJson lib).Held := by
  have htxid : e.txid < 2 ^ 64 := Nat.lt_trans he.txid (by decide)
  have hoptional : ∀ {α : Type} {name : String} {a : Option α} {g : α → Value},
      (∀ x ∈ a, (g x).Held) → ∀ m ∈ optionalMember name (a.map g), m.2.Held := by
    rintro α name (- | a) g h m hm
    · cases hm
    · obtain rfl := List.mem_singleton.1 hm
      exact h a rfl
  refine .object ?_
  simp only [members, List.forall_mem_append, List.forall_mem_cons]
  exact ⟨⟨⟨⟨⟨.string _, List.forall_mem_nil _⟩, hoptional fun image h => (he.old image h).2⟩,
      hoptional fun image h => (he.new image h).2⟩,
    .string _, .string _, .string _, .number he.lsn, .number htxid, .string _,
    List.forall_mem_nil _⟩,
    hoptional fun c h => Causation.held_toJson (he.causation c h)⟩

lemma readWire_toJson (hlib : lib.Lawful) (hf : Rereads lib.serde.order f) {e : Envelope}
    (he : e.Typed lib) : readWire lib (f (e.toJson lib)) = .ok e := by
  obtain ⟨members', heq, hnodup, hlookup⟩ := hf.object (e.members lib) (nodup_members e)
  have hvisit := visitMap_reread hnodup hlookup (nodup_members e) (checks_members hlib hf he)
  have hlsn := readUnsigned_posInt he.lsn
  have htxid := readUnsigned_posInt he.txid
  have hold := defaulted_reread fun image himage => nullable_readImage hf (he.old image himage)
  have hnew := defaulted_reread fun image himage => nullable_readImage hf (he.new image himage)
  have hcausation := defaulted_reread fun c hc => nullable_causation hf (he.causation c hc)
  rw [toJson, heq]
  show ofMembers lib members' = .ok e
  rw [ofMembers, hvisit]
  simp [hlookup, members, List.lookup_append, lookup_optionalMember, List.lookup_cons, hf.string,
    hf.number, Op.fromJson_asStr, hlsn, htxid, readTimestamp_text hlib, hold, hnew,
    hcausation, bind, Except.bind, pure, Except.pure]

lemma fromJson_toJson (hlib : lib.Lawful) (hf : Rereads lib.serde.order f) {e e' : Envelope}
    (he : e.Typed lib) :
    fromJson lib (f (e.toJson lib)) = .ok e' ↔ e' = e ∧ e.Canonical := by
  rw [fromJson, readWire_toJson hlib hf he]
  show (checkCanonical _ e.names >>= fun _ => pure e) = .ok e' ↔ _
  simp only [bind_eq_ok, checkCanonical_eq_ok, pure_eq_ok]
  constructor
  · rintro ⟨-, hnames, rfl⟩
    exact ⟨rfl, hnames⟩
  · rintro ⟨rfl, hnames⟩
    exact ⟨⟨⟩, hnames, rfl⟩

end Envelope

namespace DerivedRecord

variable {r r' : DerivedRecord} {members : Members} {taken result : OrdMap String Value}

lemma visitFields_eq_ok :
    visitFields o taken members = .ok result ↔
      ((members.map Prod.fst).Nodup ∧ ∀ m ∈ members, m.1 ∉ taken.keys) ∧
        members.foldl (fun taken m => taken.insert m.1 (o.collect m.2)) taken = result := by
  induction members generalizing taken with
  | nil => simp [visitFields]
  | cons m members ih =>
    -- A later member is new once this one is taken if it was new before and has another name.
    have hfresh : (∀ n ∈ members, n.1 ∉ (taken.insert m.1 (o.collect m.2)).keys) ↔
        m.1 ∉ members.map Prod.fst ∧ ∀ n ∈ members, n.1 ∉ taken.keys := by
      simp only [OrdMap.mem_keys_insert, not_or, List.mem_map, not_exists, not_and]
      exact ⟨fun h => ⟨fun n hn => (h n hn).1, fun n hn => (h n hn).2⟩,
        fun h n hn => ⟨h.1 n hn, h.2 n hn⟩⟩
    obtain ⟨name, v⟩ := m
    rw [visitFields, List.map_cons, List.nodup_cons, List.forall_mem_cons, List.foldl_cons]
    simp only [bind_eq_ok, ensure_eq_ok, decide_eq_true_eq, ih, hfresh]
    constructor
    · rintro ⟨-, hnew, ⟨hnodup, hname, htaken⟩, heq⟩
      exact ⟨⟨⟨hname, hnodup⟩, hnew, htaken⟩, heq⟩
    · rintro ⟨⟨⟨hname, hnodup⟩, hnew, htaken⟩, heq⟩
      exact ⟨⟨⟩, hnew, ⟨hnodup, hname, htaken⟩, heq⟩

lemma visitFields_empty :
    visitFields o .empty members = .ok result ↔ (members.map Prod.fst).Nodup ∧
      OrdMap.ofList (members.map fun m => (m.1, o.collect m.2)) = result := by
  rw [visitFields_eq_ok, OrdMap.ofList, List.foldl_map]
  simp [OrdMap.empty, OrdMap.keys]

lemma get_taken (hnodup : (members.map Prod.fst).Nodup) (name : String) :
    (OrdMap.ofList (members.map fun m => (m.1, o.collect m.2))).get name =
      (members.lookup name).map o.collect := by
  have hnames : ((members.map fun m => (m.1, o.collect m.2)).map Prod.fst).Nodup := by
    rw [List.map_map]
    exact hnodup
  ext v
  rw [OrdMap.get_eq_some, (OrdMap.perm_entries_ofList hnames).mem_iff, List.mem_map,
    Option.map_eq_some_iff]
  constructor
  · rintro ⟨⟨name', w⟩, hmem, heq⟩
    obtain ⟨rfl, rfl⟩ := Prod.mk.inj heq
    exact ⟨w, (Value.lookup_eq_some hnodup).2 hmem, rfl⟩
  · rintro ⟨w, hlookup, rfl⟩
    exact ⟨(name, w), (Value.lookup_eq_some hnodup).1 hlookup, rfl⟩

lemma refuseUnknown_eq_ok {u : Unit} :
    refuseUnknown taken = .ok u ↔ ∀ name ∈ taken.keys, name ∈ fieldNames := by
  unfold refuseUnknown
  cases hfind : taken.keys.find? (· ∉ fieldNames) with
  | none =>
    rw [List.find?_eq_none] at hfind
    simpa using hfind
  | some name =>
    have hname : name ∉ fieldNames := by simpa using List.find?_some hfind
    have hmem := List.mem_of_find?_eq_some hfind
    simp only [reduceCtorEq, false_iff, not_forall]
    exact ⟨name, hmem, hname⟩

lemma names_members (r : DerivedRecord) : r.members.map Prod.fst = fieldNames := rfl

lemma nodup_members (r : DerivedRecord) : (r.members.map Prod.fst).Nodup := by
  rw [names_members]
  decide

lemma held_toJson (hr : r.Typed lib) : r.toJson.Held := by
  refine .object ?_
  simp only [members, List.forall_mem_cons]
  exact ⟨.string _, .string _, .string _, .string _, .string _, .string _, .string _, hr.payload.2,
    .string _, Causation.held_toJson hr.causation, List.forall_mem_nil _⟩

lemma fromJson_toJson (hr : r.Typed lib) : fromJson lib r.toJson = .ok r := by
  have hget := get_taken (o := lib.serde.order) r.nodup_members
  have hunknown : refuseUnknown (OrdMap.ofList
      (r.members.map fun m => (m.1, lib.serde.order.collect m.2))) = .ok () := by
    refine refuseUnknown_eq_ok.2 fun name hname => ?_
    rw [OrdMap.mem_keys_ofList, List.map_map] at hname
    exact hname
  have hcausation := Causation.fromJson_toJson (rereads_collect lib.serde.order) hr.causation
  refine bind_eq_ok.2 ⟨_, visitFields_empty.2 ⟨r.nodup_members, rfl⟩, ?_⟩
  have hf := rereads_collect lib.serde.order
  -- Only what the fields give and that nothing is left matters from here on.
  generalize OrdMap.ofList (_ : Members) = taken at hget hunknown ⊢
  simp [ofFields, hget, hunknown, members, List.lookup_cons, hf.string, Op.fromJson_asStr,
    hr.payload.1, hcausation, bind, Except.bind, pure, Except.pure]

end DerivedRecord

/-! ## The two formats -/

end Wamn.Events

namespace Wamn.Materializer.SourceEvent

open Lib Lib.Json Events

variable {lib : WireLibrary} {s : SourceEvent}

end Wamn.Materializer.SourceEvent

namespace Wamn.Events

open Lib Lib.Json Lib.Text

namespace Sample

/-- Libraries that take their own texts back, with instants in whole seconds. -/
def library : WireLibrary where
  serde := JsonText.serde .byName
  timestampText instant := String.ofList (Rfc3339.secondsText instant)
  parseTimestamp text := (some (Rfc3339.readSeconds text.toList)).filter fun instant =>
    String.ofList (Rfc3339.secondsText instant) = text

lemma library_lawful : library.Lawful where
  serde := JsonText.readsOwn_serde _
  parse_text instant := by
    simp only [library, String.toList_ofList, Rfc3339.readSeconds_secondsText, Option.filter_some,
      decide_true, if_true]

end Sample

end Wamn.Events
