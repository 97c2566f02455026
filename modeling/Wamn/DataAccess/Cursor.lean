import Wamn.Contract.CanonicalJson
import Wamn.Contract.CanonicalScalar
import Wamn.Lib.Base64

/-!
# Keyset cursors

A cursor is the canonical JSON of a sort field, its direction, a key and a record id, in unpadded
base64url. The decoder takes only what the encoder writes for what it has read. A time key is
respelled in UTC, and its cursor is refused if that leads out of the years of four digits.
-/

namespace Wamn.DataAccess

open Option Contract Lib Lib.Decimal Lib.Json Lib.Rfc3339

/-! ## Keys and ids -/

inductive Direction where
  | ascending
  | descending
  deriving DecidableEq

def Direction.asStr : Direction → String
  | .ascending => "ascending"
  | .descending => "descending"

abbrev I64 := { n : ℤ // -9223372036854775808 ≤ n ∧ n ≤ 9223372036854775807 }

abbrev I32 := { n : ℤ // -2147483648 ≤ n ∧ n ≤ 2147483647 }

/-- The types with an implementation of `Key`. -/
inductive KeyType where
  | string
  | uuid
  | timestampTz
  | numeric
  | i64
  | i32
  | bool
  deriving DecidableEq

/-- The keys of a type. A UUID, a time and a decimal are held as text. -/
def KeyType.Key : KeyType → Type
  | .string | .uuid | .timestampTz | .numeric => String
  | .i64 => I64
  | .i32 => I32
  | .bool => Bool

/-- The types with an implementation of `Id`. -/
inductive IdType where
  | i32
  | i64
  | uuid
  deriving DecidableEq

def IdType.Id : IdType → Type
  | .i32 => I32
  | .i64 => I64
  | .uuid => String

/-- The libraries of cursors: JSON, times, unpadded base64url and the one spelling of a UUID. -/
structure Library where
  serde : SerdeJson
  chrono : DateTimeLibrary
  /-- `URL_SAFE_NO_PAD.encode` -/
  encodeBase64 : List UInt8 → String
  /-- `URL_SAFE_NO_PAD.decode` -/
  decodeBase64 : String → Option (List UInt8)
  /-- `scalar::uuid` -/
  uuid : String → Option String

/-- What a key or an id is written as: no array or object, and numbers that JSON can hold. -/
def IsScalar : Value → Prop
  | .array _ | .object _ => False
  | .number n => n.Held
  | _ => True

/-- What is documented: JSON (up to its recursion limit) and base64 are read as they were written,
and the spelling of a UUID is that of the same UUID. -/
structure Library.Lawful (lib : Library) : Prop where
  serde : lib.serde.ReadsOwn
  chrono : lib.chrono.Lawful
  decode_encode : ∀ bytes, lib.decodeBase64 (lib.encodeBase64 bytes) = some bytes
  uuid_uuid : ∀ text spelled, lib.uuid text = some spelled → lib.uuid spelled = some spelled

/-- `Value::from` of an integer. -/
def ofInt (n : ℤ) : Value := .number (if n < 0 then .negInt n else .posInt n.toNat)

def asI64 : Value → Option I64
  | .number (.posInt n) =>
    if h : (n : ℤ) ≤ 9223372036854775807 then some ⟨n, by omega, h⟩ else none
  | .number (.negInt n) => if h : _ then some ⟨n, h⟩ else none
  | _ => none

/-- `i32::try_from` -/
def toI32 (n : I64) : Option I32 := if h : _ then some ⟨n.1, h⟩ else none

def asBool : Value → Option Bool
  | .bool b => some b
  | _ => none

/-- A text of a JSON value that is its own canonical spelling. -/
def readCanonical (canonical : String → Option String) (value : Value) : Option String :=
  value.asString.bind fun text => (canonical text).filter fun spelled => spelled = text

section Codec

variable (lib : Library)

def KeyType.toJson : (K : KeyType) → K.Key → Option Value
  | .string, key => some (.string key)
  | .uuid, key => (lib.uuid key).map .string
  | .timestampTz, key => (canonicalTimestamptz lib.chrono key).map .string
  | .numeric, key => (canonicalNumeric key).map .string
  | .i64, key => some (ofInt key.1)
  | .i32, key => some (ofInt key.1)
  | .bool, key => some (.bool key)

def KeyType.fromJson : (K : KeyType) → Value → Option K.Key
  | .string, value => value.asString
  | .uuid, value => readCanonical lib.uuid value
  | .timestampTz, value => readCanonical (canonicalTimestamptz lib.chrono) value
  | .numeric, value => readCanonical canonicalNumeric value
  | .i64, value => asI64 value
  | .i32, value => (asI64 value).bind toI32
  | .bool, value => asBool value

def IdType.toJson : (I : IdType) → I.Id → Option Value
  | .i32, id => KeyType.i32.toJson lib id
  | .i64, id => some (.string (toString id.1))
  | .uuid, id => KeyType.uuid.toJson lib id

def IdType.fromJson : (I : IdType) → Value → Option I.Id
  | .i32, value => KeyType.i32.fromJson lib value
  | .i64, value => value.asString.bind fun text =>
    (parseI64 text).bind fun n => if h : _ then some ⟨n, h⟩ else none
  | .uuid, value => KeyType.uuid.fromJson lib value

/-! ## Cursors -/

def wireMembers (field : String) (direction : Direction) (idJson keyJson : Value) : Members :=
  [("direction", .string direction.asStr), ("field", .string field), ("id", idJson),
    ("key", keyJson), ("v", .number (.posInt 1))]

variable (K : KeyType) (I : IdType)

def encodeWithId (field : String) (direction : Direction) (key : K.Key) (id : I.Id) :
    Option String := do
  let idJson ← I.toJson lib id
  let keyJson ← K.toJson lib key
  return lib.encodeBase64 (canonicalJsonBytes lib.serde
    (.object (wireMembers field direction idJson keyJson)))

def decodeWithId (encoded field : String) (direction : Direction) : Option (K.Key × I.Id) := do
  let bytes ← lib.decodeBase64 encoded
  let wire ← lib.serde.fromSlice bytes
  let key ← (wire.value.get "key").bind (K.fromJson lib)
  let id ← (wire.value.get "id").bind (I.fromJson lib)
  let again ← encodeWithId lib K I field direction key id
  if again = encoded then some (key, id) else none

end Codec

/-- The year of a time key has four digits in UTC. Other keys have no year. -/
def KeyType.InYears (lib : Library) : (K : KeyType) → K.Key → Prop
  | .timestampTz, key => Contract.InYears lib.chrono key
  | _, _ => True

/-! ## What a type reads back -/

section Types

variable {lib : Library}

lemma asI64_ofInt {n : ℤ} (h : -9223372036854775808 ≤ n ∧ n ≤ 9223372036854775807) :
    asI64 (ofInt n) = some ⟨n, h⟩ := by
  unfold ofInt
  split
  · exact dif_pos h
  · have hcast : (n.toNat : ℤ) = n := by omega
    simp [asI64, hcast, h.2]

lemma isScalar_ofInt {n : ℤ} (h : -9223372036854775808 ≤ n ∧ n ≤ 9223372036854775807) :
    IsScalar (ofInt n) := by
  unfold ofInt
  split
  · show -2 ^ 63 ≤ n ∧ n < 0
    omega
  · show n.toNat < 2 ^ 64
    omega

lemma readCanonical_string {canonical : String → Option String} {text : String}
    (h : canonical text = some text) : readCanonical canonical (.string text) = some text := by
  simp [readCanonical, Value.asString, h]

/-- The key of a type is read back in the same spelling if its year has four digits, and refused
otherwise. -/
theorem KeyType.fromJson_toJson (hlib : lib.Lawful) {K : KeyType} {key : K.Key} {value : Value}
    (h : K.toJson lib key = some value) :
    IsScalar value ∧
      (K.InYears lib key → ∃ read, K.fromJson lib value = some read ∧
        K.toJson lib read = some value) ∧
      (¬ K.InYears lib key → K.fromJson lib value = none) := by
  cases K with
  | string =>
    cases h
    exact ⟨trivial, fun _ => ⟨key, rfl, rfl⟩, fun hyears => absurd trivial hyears⟩
  | uuid =>
    obtain ⟨spelled, hspelled, rfl⟩ := map_eq_some_iff.1 h
    have hagain := hlib.uuid_uuid _ _ hspelled
    refine ⟨trivial, fun _ => ⟨spelled, readCanonical_string hagain, ?_⟩,
      fun hyears => absurd trivial hyears⟩
    simp [toJson, hagain]
  | timestampTz =>
    obtain ⟨spelled, hspelled, rfl⟩ := map_eq_some_iff.1 h
    obtain ⟨hin, hout⟩ := canonicalTimestamptz_canonical hlib.chrono hspelled
    refine ⟨trivial, fun hyears => ⟨spelled, readCanonical_string (hin hyears), ?_⟩,
      fun hyears => ?_⟩
    · simp [toJson, hin hyears]
    · show ((canonicalTimestamptz lib.chrono spelled).filter fun read => read = spelled) = none
      rw [hout hyears]
      rfl
  | numeric =>
    obtain ⟨spelled, hspelled, rfl⟩ := map_eq_some_iff.1 h
    have hagain := canonicalNumeric_canonical hspelled
    refine ⟨trivial, fun _ => ⟨spelled, readCanonical_string hagain, ?_⟩,
      fun hyears => absurd trivial hyears⟩
    simp [toJson, hagain]
  | i64 =>
    cases h
    exact ⟨isScalar_ofInt key.2, fun _ => ⟨key, asI64_ofInt key.2, rfl⟩,
      fun hyears => absurd trivial hyears⟩
  | i32 =>
    cases h
    have hrange : -2147483648 ≤ key.1 ∧ key.1 ≤ 2147483647 := key.2
    have hread : (asI64 (ofInt key.1)).bind toI32 = some key := by
      rw [asI64_ofInt (n := key.1) (by omega)]
      exact dif_pos key.2
    exact ⟨isScalar_ofInt (n := key.1) (by omega), fun _ => ⟨key, hread, rfl⟩,
      fun hyears => absurd trivial hyears⟩
  | bool =>
    cases h
    exact ⟨trivial, fun _ => ⟨key, rfl, rfl⟩, fun hyears => absurd trivial hyears⟩

lemma IdType.fromJson_toJson (hlib : lib.Lawful) {I : IdType} {id : I.Id} {value : Value}
    (h : I.toJson lib id = some value) :
    IsScalar value ∧ ∃ read, I.fromJson lib value = some read ∧ I.toJson lib read = some value := by
  cases I with
  | i32 =>
    obtain ⟨hscalar, hread, -⟩ := KeyType.fromJson_toJson hlib (K := .i32) h
    exact ⟨hscalar, hread trivial⟩
  | i64 =>
    cases h
    refine ⟨trivial, id, ?_, rfl⟩
    have hparse : parseI64 (toString id.1) = some id.1 := by
      rw [parseI64_toString, filter_eq_some_iff]
      exact ⟨rfl, by simpa using id.2⟩
    show ((parseI64 (toString id.1)).bind fun n => if h : _ then some ⟨n, h⟩ else none) = some id
    rw [hparse]
    exact dif_pos id.2
  | uuid =>
    obtain ⟨hscalar, hread, -⟩ := KeyType.fromJson_toJson hlib (K := .uuid) h
    exact ⟨hscalar, hread trivial⟩

end Types

/-! ## The wire -/

section Wire

variable {lib : Library} {field : String} {direction : Direction} {idJson keyJson : Value}

lemma wireMembers_sorted :
    (wireMembers field direction idJson keyJson).Pairwise fun a b => a.1 < b.1 := by
  have hnames : ((wireMembers field direction idJson keyJson).map Prod.fst).Pairwise (· < ·) := by
    show ["direction", "field", "id", "key", "v"].Pairwise (· < ·)
    decide
  exact List.pairwise_map.1 hnames

lemma mapObjects_of_isScalar {f : Members → Members} {v : Value} (h : IsScalar v) :
    v.mapObjects f = v := by
  cases v with
  | null | bool b | number n | string s => rfl
  | array items | object members => cases h

variable (hid : IsScalar idJson) (hkey : IsScalar keyJson)

include hid hkey

lemma wireMembers_scalar : ∀ m ∈ wireMembers field direction idJson keyJson, IsScalar m.2 := by
  simp only [wireMembers, List.forall_mem_cons]
  exact ⟨trivial, trivial, hid, hkey, show 1 < 2 ^ 64 by decide, fun _ h => nomatch h⟩

lemma mapObjects_wire (f : Members → Members) :
    (Value.object (wireMembers field direction idJson keyJson)).mapObjects f =
      .object (f (wireMembers field direction idJson keyJson)) := by
  have hbelow : Value.mapMembers f (wireMembers field direction idJson keyJson) =
      wireMembers field direction idJson keyJson := by
    rw [Value.mapMembers_eq, List.map_congr_left (g := id) _, List.map_id]
    intro m hm
    exact Prod.ext rfl (mapObjects_of_isScalar (wireMembers_scalar hid hkey m hm))
  rw [Value.mapObjects, hbelow]

lemma canonicalJsonBytes_wire :
    canonicalJsonBytes lib.serde (.object (wireMembers field direction idJson keyJson)) =
      lib.serde.toVec (.object (wireMembers field direction idJson keyJson)) := by
  rw [canonicalJsonBytes, sortedKeys, mapObjects_wire hid hkey,
    sortByName_of_sorted wireMembers_sorted]

/-- The object of a cursor holds scalars only, so the library follows it. -/
theorem read_wire (hlib : lib.Lawful) :
    lib.serde.read (canonicalJsonBytes lib.serde
      (.object (wireMembers field direction idJson keyJson))) =
      some (.object (wireMembers field direction idJson keyJson)) := by
  have hscalar : ∀ {v : Value}, IsScalar v → v.Held ∧ v.depth = 0 := by
    intro v hv
    cases v with
    | null => exact ⟨.null, rfl⟩
    | bool b => exact ⟨.bool b, rfl⟩
    | number n => exact ⟨.number hv, rfl⟩
    | string s => exact ⟨.string s, rfl⟩
    | array items | object members => cases hv
  have hdepth : (Value.object (wireMembers field direction idJson keyJson)).depth = 1 := by
    simp [wireMembers, Value.depth, Value.depthMembers, (hscalar hid).2, (hscalar hkey).2]
  rw [canonicalJsonBytes_wire hid hkey, hlib.serde, hdepth, if_pos (by decide)]
  exact .object fun m hm => (hscalar (wireMembers_scalar hid hkey m hm)).1

lemma fromSlice_wire (hlib : lib.Lawful) (field : String) (direction : Direction) :
    ∃ wire, lib.serde.fromSlice (canonicalJsonBytes lib.serde
        (.object (wireMembers field direction idJson keyJson))) = some wire ∧
      wire.value = .object (wireMembers field direction idJson keyJson) := by
  rw [SerdeJson.fromSlice, read_wire hid hkey hlib]
  refine ⟨_, rfl, ?_⟩
  show MapOrder.collect _ _ = _
  rw [MapOrder.collect, mapObjects_wire hid hkey,
    MapOrder.collectMembers_of_sorted wireMembers_sorted]

end Wire

section Codec

variable {lib : Library} {K : KeyType} {I : IdType} {field : String} {direction : Direction}

variable {key : K.Key} {id : I.Id} {encoded : String} {direction' : Direction}

/-- A cursor is the wire of a key and an id that their types can write. -/
theorem encodeWithId_eq_some : encodeWithId lib K I field direction key id = some encoded ↔
      ∃ idJson keyJson, I.toJson lib id = some idJson ∧ K.toJson lib key = some keyJson ∧
        lib.encodeBase64 (canonicalJsonBytes lib.serde
          (.object (wireMembers field direction idJson keyJson))) = encoded := by
  simp [encodeWithId, bind_eq_some_iff]

lemma encodeWithId_of_decode (h : decodeWithId lib K I encoded field direction = some (key, id)) :
    encodeWithId lib K I field direction key id = some encoded := by
  simp only [decodeWithId, bind_eq_bind, bind_eq_some_iff] at h
  obtain ⟨_, -, _, -, key', -, id', -, again, hagain, h⟩ := h
  split at h
  · rename_i heq
    cases h
    rw [hagain, heq]
  · cases h

lemma decodeWithId_encodeWithId (hlib : lib.Lawful)
    (h : encodeWithId lib K I field direction key id = some encoded) :
    (∃ position, decodeWithId lib K I encoded field direction = some position) ↔
      K.InYears lib key := by
  obtain ⟨idJson, keyJson, hidJson, hkeyJson, rfl⟩ := encodeWithId_eq_some.1 h
  obtain ⟨hid, id', hreadId, hagainId⟩ := IdType.fromJson_toJson hlib hidJson
  obtain ⟨hkey, hin, hout⟩ := KeyType.fromJson_toJson hlib hkeyJson
  obtain ⟨wire, hwire, hvalue⟩ := fromSlice_wire hid hkey hlib field direction
  have hgetKey : wire.value.get "key" = some keyJson := by rw [hvalue]; rfl
  have hgetId : wire.value.get "id" = some idJson := by rw [hvalue]; rfl
  have hdecode : decodeWithId lib K I (lib.encodeBase64 (canonicalJsonBytes lib.serde
      (.object (wireMembers field direction idJson keyJson)))) field direction =
      (K.fromJson lib keyJson).bind fun key =>
        (encodeWithId lib K I field direction key id').bind fun again =>
          if again = lib.encodeBase64 (canonicalJsonBytes lib.serde
            (.object (wireMembers field direction idJson keyJson))) then some (key, id')
            else none := by
    simp only [decodeWithId, hlib.decode_encode, hwire, hgetKey, hgetId, hreadId,
      bind_eq_bind, bind_some]
  constructor
  · intro haccepted
    by_contra hyears
    obtain ⟨position, hposition⟩ := haccepted
    rw [hdecode, hout hyears] at hposition
    cases hposition
  · intro hyears
    obtain ⟨key', hreadKey, hagainKey⟩ := hin hyears
    refine ⟨(key', id'), ?_⟩
    rw [hdecode, hreadKey, bind_some,
      encodeWithId_eq_some.2 ⟨idJson, keyJson, hagainId, hagainKey, rfl⟩, bind_some, if_pos rfl]

/-- A cursor determines its field, its direction and what the key and the id are written as. -/
theorem wire_inj (hlib : lib.Lawful) {field' : String} {idJson keyJson idJson' keyJson' : Value}
    (hid : IsScalar idJson) (hkey : IsScalar keyJson) (hid' : IsScalar idJson')
    (hkey' : IsScalar keyJson') (h : lib.encodeBase64 (canonicalJsonBytes lib.serde
        (.object (wireMembers field direction idJson keyJson))) =
      lib.encodeBase64 (canonicalJsonBytes lib.serde
        (.object (wireMembers field' direction' idJson' keyJson')))) :
    direction.asStr = direction'.asStr ∧ field = field' ∧ idJson = idJson' ∧
      keyJson = keyJson' := by
  have hbytes :
      canonicalJsonBytes lib.serde (.object (wireMembers field direction idJson keyJson)) =
      canonicalJsonBytes lib.serde (.object (wireMembers field' direction' idJson' keyJson')) := by
    have hdecode := congrArg lib.decodeBase64 h
    rwa [hlib.decode_encode, hlib.decode_encode, Option.some.injEq] at hdecode
  have hread := congrArg lib.serde.read hbytes
  rw [read_wire hid hkey hlib, read_wire hid' hkey' hlib] at hread
  simpa [wireMembers] using hread

/-- A cursor is decoded only for its own field and direction, as values that are written as its
own. -/
theorem eq_of_decodeWithId (hlib : lib.Lawful) {K' : KeyType} {I' : IdType} {field' : String}
    {key' : K'.Key} {id' : I'.Id}
    (hencode : encodeWithId lib K' I' field' direction' key' id' = some encoded)
    (hdecode : decodeWithId lib K I encoded field direction = some (key, id)) :
    field' = field ∧ direction' = direction ∧ K'.toJson lib key' = K.toJson lib key ∧
      I'.toJson lib id' = I.toJson lib id := by
  obtain ⟨idJson', keyJson', hidJson', hkeyJson', rfl⟩ := encodeWithId_eq_some.1 hencode
  obtain ⟨idJson, keyJson, hidJson, hkeyJson, hagain⟩ :=
    encodeWithId_eq_some.1 (encodeWithId_of_decode hdecode)
  obtain ⟨hdirection, hfield, hid, hkey⟩ := wire_inj hlib (IdType.fromJson_toJson hlib hidJson).1
    (KeyType.fromJson_toJson hlib hkeyJson).1 (IdType.fromJson_toJson hlib hidJson').1
    (KeyType.fromJson_toJson hlib hkeyJson').1 hagain
  refine ⟨hfield.symm, ?_, by rw [hkeyJson', hkeyJson, hkey], by rw [hidJson', hidJson, hid]⟩
  cases direction <;> cases direction' <;> simp [Direction.asStr] at hdirection <;> rfl

end Codec

/-- Cursors are canonical as far as years have four digits. For every sort, the decoder accepts
exactly the cursors of the keys whose year in UTC has four digits, the encoder writes a decoded
cursor again, no two strings are decoded to one position, and a cursor of another sort is decoded
only if that has the same field and direction and its values are written like those that are
read. -/
theorem cursor_canonical (lib : Library) (hlib : lib.Lawful) (K : KeyType) (I : IdType)
    (field : String) (direction : Direction) :
    (∀ encoded, (∃ position, decodeWithId lib K I encoded field direction = some position) ↔
      ∃ key id, K.InYears lib key ∧ encodeWithId lib K I field direction key id = some encoded) ∧
    (∀ key id encoded, encodeWithId lib K I field direction key id = some encoded →
      ((∃ position, decodeWithId lib K I encoded field direction = some position) ↔
        K.InYears lib key)) ∧
    (∀ encoded key id, decodeWithId lib K I encoded field direction = some (key, id) →
      encodeWithId lib K I field direction key id = some encoded) ∧
    (∀ encoded encoded' position, decodeWithId lib K I encoded field direction = some position →
      decodeWithId lib K I encoded' field direction = some position → encoded = encoded') ∧
    (∀ (K' : KeyType) (I' : IdType) field' direction' (key' : K'.Key) (id' : I'.Id) encoded,
      encodeWithId lib K' I' field' direction' key' id' = some encoded → ∀ key id,
        decodeWithId lib K I encoded field direction = some (key, id) →
          field' = field ∧ direction' = direction ∧ K'.toJson lib key' = K.toJson lib key ∧
            I'.toJson lib id' = I.toJson lib id) := by
  have hback : ∀ key id encoded, encodeWithId lib K I field direction key id = some encoded →
      ((∃ position, decodeWithId lib K I encoded field direction = some position) ↔
        K.InYears lib key) :=
    fun _ _ _ h => decodeWithId_encodeWithId hlib h
  refine ⟨fun encoded => ⟨?_, ?_⟩, hback, fun encoded key id h => encodeWithId_of_decode h,
    fun encoded encoded' position h h' => ?_,
    fun K' I' field' direction' key' id' encoded hencode key id hdecode =>
      eq_of_decodeWithId hlib hencode hdecode⟩
  · rintro ⟨⟨key, id⟩, h⟩
    have hencode := encodeWithId_of_decode h
    exact ⟨key, id, (hback key id encoded hencode).1 ⟨_, h⟩, hencode⟩
  · rintro ⟨key, id, hyears, hencode⟩
    exact (hback key id encoded hencode).2 hyears
  · have hencode := encodeWithId_of_decode h
    rw [encodeWithId_of_decode h'] at hencode
    exact (Option.some.inj hencode).symm

namespace Sample

/-- JSON texts with the members of a map by name, the calendar, and no UUIDs. -/
def library : Library where
  serde := JsonText.serde .byName
  chrono := calendar
  encodeBase64 := Base64.encode
  decodeBase64 := Base64.decode
  uuid := fun _ => none

lemma library_lawful : library.Lawful where
  serde := JsonText.readsOwn_serde _
  chrono := calendar_lawful
  decode_encode := Base64.decode_encode
  uuid_uuid := fun _ _ h => nomatch h

def afternoon : KeyType.timestampTz.Key := "2026-08-29T14:34:56+02:00"

/-- The last half hour of the year 9999, in a time zone west of UTC. -/
def newYear : KeyType.timestampTz.Key := "9999-12-31T23:30:00-01:00"

/-- The cursor of the afternoon is decoded. -/
theorem afternoon_is_taken_back : KeyType.timestampTz.InYears library afternoon ∧
    ∃ encoded position,
      encodeWithId library .timestampTz .i32 "created_at" .ascending afternoon ⟨7, by decide⟩ =
        some encoded ∧
      decodeWithId library .timestampTz .i32 encoded "created_at" .ascending = some position := by
  have hyears : KeyType.timestampTz.InYears library afternoon := by
    have hyear : (calendar.parse afternoon).map (fun t => t.date.year) = some 2026 := by
      decide +kernel
    intro t ht
    have ht : calendar.parse afternoon = some t := ht
    rw [ht] at hyear
    have hyear : t.date.year = 2026 := Option.some.inj hyear
    show 0 ≤ t.date.year ∧ t.date.year ≤ 9999
    omega
  have hsome : (encodeWithId library .timestampTz .i32 "created_at" .ascending afternoon
      ⟨7, by decide⟩).isSome = true := by
    decide +kernel
  obtain ⟨encoded, hencoded⟩ := isSome_iff_exists.1 hsome
  obtain ⟨position, hposition⟩ := ((cursor_canonical library library_lawful .timestampTz .i32
    "created_at" .ascending).2.1 afternoon ⟨7, by decide⟩ encoded hencoded).2 hyears
  exact ⟨hyears, encoded, position, hencoded, hposition⟩

/-- In UTC the new year has begun: the cursor is written with five digits and refused. -/
theorem new_year_is_refused :
    ∃ encoded,
      encodeWithId library .timestampTz .i32 "created_at" .ascending newYear ⟨7, by decide⟩ =
        some encoded ∧
      canonicalTimestamptz calendar newYear = some "+10000-01-01T00:30:00.000000Z" ∧
      decodeWithId library .timestampTz .i32 encoded "created_at" .ascending = none ∧
      ¬ ∀ encoded, (∃ position, decodeWithId library .timestampTz .i32 encoded "created_at"
          .ascending = some position) ↔
        ∃ key id, encodeWithId library .timestampTz .i32 "created_at" .ascending key id =
          some encoded := by
  have hyears : ¬ KeyType.timestampTz.InYears library newYear := by
    have hyear : (calendar.parse newYear).map (fun t => t.date.year) = some 10000 := by
      decide +kernel
    obtain ⟨t, ht, hyear⟩ := map_eq_some_iff.1 hyear
    intro hyears
    have hbound := (hyears t ht).2
    omega
  have hsome : (encodeWithId library .timestampTz .i32 "created_at" .ascending newYear
      ⟨7, by decide⟩).isSome = true := by
    decide +kernel
  obtain ⟨encoded, hencoded⟩ := isSome_iff_exists.1 hsome
  have hrefused : ¬ ∃ position, decodeWithId library .timestampTz .i32 encoded "created_at"
      .ascending = some position :=
    fun haccepted => hyears ((decodeWithId_encodeWithId library_lawful hencoded).1 haccepted)
  refine ⟨encoded, hencoded, by decide +kernel, ?_, fun hclaim => ?_⟩
  · exact not_isSome_iff_eq_none.1 fun hsome =>
      hrefused (isSome_iff_exists.1 hsome)
  · exact hrefused ((hclaim encoded).2 ⟨newYear, _, hencoded⟩)

end Sample

end Wamn.DataAccess
