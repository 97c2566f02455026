import Mathlib.Algebra.Group.Nat.Defs
import Wamn.Lib.Serde
import Wamn.Lib.Transaction

/-!
# Structs read from JSON objects

A derived decoder of a struct that denies unknown fields walks through the members of an object in
the order of the document. It refuses a name it does not know, a name it has seen and a value of the
wrong type, and only afterwards asks for the fields that are missing.
-/

namespace Wamn.Lib.Json

open List

/-- Why a document is refused as a value of a type. What the library itself says about a text or a
type is not told apart. -/
inductive DecodeError where
  | invalid
  | unknownField (name : String) (expected : List String)
  | duplicateField (name : String)
  | missingField (name : String)
  | custom (message : String)
  deriving DecidableEq

section Values

variable {α : Type}

/-- A value that may not be of the type. -/
def valid : Option α → Except DecodeError α
  | none => .error .invalid
  | some a => .ok a

/-- A string. -/
def readText (v : Value) : Except DecodeError String := valid v.asString

/-- An integer of so many bits. -/
def readUnsigned (bits : ℕ) (v : Value) : Except DecodeError ℕ :=
  valid (v.asU64.filter (· < 2 ^ bits))

/-- An optional value: `null` stands for none. -/
def nullable (decode : Value → Except DecodeError α) : Value → Except DecodeError (Option α)
  | .null => .ok none
  | v => (decode v).map some

/-- The value of a field that must be there. -/
def required (found : Option Value) (name : String) (decode : Value → Except DecodeError α) :
    Except DecodeError α :=
  match found with
  | none => .error (.missingField name)
  | some v => decode v

/-- The value of a field with a default. -/
def defaulted (found : Option Value) (default : α) (decode : Value → Except DecodeError α) :
    Except DecodeError α :=
  match found with
  | none => .ok default
  | some v => decode v

@[simp] lemma readText_string (s : String) : readText (.string s) = .ok s := rfl

lemma readUnsigned_posInt {bits n : ℕ} (h : n < 2 ^ bits) :
    readUnsigned bits (.number (.posInt n)) = .ok n := by
  simp [readUnsigned, Value.asU64, valid, Option.filter, h]

@[simp] lemma nullable_object {decode : Value → Except DecodeError α} (members : Members) :
    nullable decode (.object members) = (decode (.object members)).map some := rfl

@[simp] lemma required_some (v : Value) (name : String) (decode : Value → Except DecodeError α) :
    required (some v) name decode = decode v := rfl

end Values

/-- The fields of a struct as declared, each with the check of its type. -/
abbrev Fields := List (String × (Value → Except DecodeError Unit))

/-- A decoder as a check. -/
def checks {α : Type} (decode : Value → Except DecodeError α) (v : Value) :
    Except DecodeError Unit :=
  (decode v).map fun _ => ()

/-- The walk of a derived decoder through members, after the names it has seen. -/
def visitMap (fields : Fields) : List String → Members → Except DecodeError Unit
  | _, [] => .ok ()
  | seen, (name, v) :: members =>
    match fields.lookup name with
    | none => .error (.unknownField name (fields.map Prod.fst))
    | some check => do
      ensure (name ∉ seen) (.duplicateField name)
      check v
      visitMap fields (name :: seen) members

/-- The walk succeeds exactly if the names are known, new and distinct and every value is of the
type of its field. -/
theorem visitMap_eq_ok {fields : Fields} {seen : List String} {members : Members} {u : Unit} :
    visitMap fields seen members = .ok u ↔
      (members.map Prod.fst).Nodup ∧ (∀ m ∈ members, m.1 ∉ seen) ∧
        ∀ m ∈ members, ∃ check, fields.lookup m.1 = some check ∧ check m.2 = .ok () := by
  induction members generalizing seen with
  | nil => simp [visitMap]
  | cons m members ih =>
    obtain ⟨name, v⟩ := m
    rw [visitMap, map_cons, nodup_cons]
    simp only [forall_mem_cons]
    cases hcheck : fields.lookup name with
    | none => simp
    | some check =>
      -- A later member is new to the rest of the walk if it is new now and not of this name.
      have hfresh : (∀ m ∈ members, m.1 ∉ name :: seen) ↔
          name ∉ members.map Prod.fst ∧ ∀ m ∈ members, m.1 ∉ seen := by
        simp only [mem_cons, not_or, mem_map, not_exists, not_and]
        exact ⟨fun h => ⟨fun m hm => (h m hm).1, fun m hm => (h m hm).2⟩,
          fun h m hm => ⟨h.1 m hm, h.2 m hm⟩⟩
      simp only [bind_eq_ok, ensure_eq_ok, decide_eq_true_eq, ih, hfresh, Option.some.injEq,
        exists_eq_left']
      constructor
      · rintro ⟨_, hnew, _, hv, hnodup, ⟨hname, hseen⟩, htyped⟩
        exact ⟨⟨hname, hnodup⟩, ⟨hnew, hseen⟩, hv, htyped⟩
      · rintro ⟨⟨hname, hnodup⟩, ⟨hnew, hseen⟩, hv, htyped⟩
        exact ⟨⟨⟩, hnew, ⟨⟩, hv, hnodup, ⟨hname, hseen⟩, htyped⟩

lemma checks_of_eq_ok {α : Type} {decode : Value → Except DecodeError α} {v : Value} {a : α}
    (h : decode v = .ok a) : checks decode v = .ok () := by
  rw [checks, h]
  rfl

/-! ## Written objects that are read again -/

/-- A way to see a written document again that keeps scalars and the members of objects under their
names: as it stands, or as a value of the library. -/
structure Rereads (o : MapOrder) (f : Value → Value) : Prop where
  string : ∀ s, f (.string s) = .string s
  number : ∀ n, f (.number n) = .number n
  collect : ∀ v, o.collect (f v) = o.collect v
  object : ∀ members : Members, (members.map Prod.fst).Nodup →
    ∃ members' : Members, f (.object members) = .object members' ∧ (members'.map Prod.fst).Nodup ∧
      ∀ name, members'.lookup name = (members.lookup name).map f

lemma rereads_collect (o : MapOrder) : Rereads o o.collect where
  string _ := rfl
  number _ := rfl
  collect v := MapOrder.collect_collect o v
  object _ h := ⟨_, rfl, (MapOrder.lists_collectMembers o _).nodup, Value.lookup_collect h o⟩

lemma defaulted_reread {α : Type} {f : Value → Value} {encode : α → Value}
    {decode : Value → Except DecodeError α} {a? : Option α}
    (h : ∀ a ∈ a?, nullable decode (f (encode a)) = .ok (some a)) :
    defaulted (a?.map (f ∘ encode)) none (nullable decode) = .ok a? := by
  cases a? with
  | none => rfl
  | some a => exact h a rfl

/-- The walk through members that are read again succeeds if each is of the type of its field. -/
theorem visitMap_reread {fields : Fields} {f : Value → Value} {members members' : Members}
    (hnodup : (members'.map Prod.fst).Nodup)
    (hlookup : ∀ name, members'.lookup name = (members.lookup name).map f)
    (hmembers : (members.map Prod.fst).Nodup)
    (htyped : ∀ m ∈ members, ∃ check, fields.lookup m.1 = some check ∧ check (f m.2) = .ok ()) :
    visitMap fields [] members' = .ok () := by
  refine visitMap_eq_ok.2 ⟨hnodup, fun _ _ => not_mem_nil, fun m hm => ?_⟩
  have hfound : (members.lookup m.1).map f = some m.2 := by
    rw [← hlookup]
    exact (Value.lookup_eq_some hnodup).2 hm
  obtain ⟨v, hv, hvalue⟩ := Option.map_eq_some_iff.1 hfound
  rw [← hvalue]
  exact htyped (m.1, v) ((Value.lookup_eq_some hmembers).1 hv)

end Wamn.Lib.Json
