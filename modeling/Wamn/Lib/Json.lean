import Mathlib.Algebra.Group.Int.Defs
import Mathlib.Algebra.Group.Nat.Defs
import Mathlib.Data.Rat.Defs

/-!
# JSON values

The value type of a JSON library: numbers in the three classes an integer-preserving parser keeps
apart, arrays, and objects as association lists. `Value.object` built by `ofMembers` lists its
members by name, each name once: the iteration order of a sorted map.
-/

namespace Wamn.Lib.Json

/-- A JSON number as an integer-preserving parser stores it: a non-negative integer, a negative one,
or a finite binary fraction, where the negative zero has a text of its own. -/
inductive Number where
  | posInt (n : ℕ)
  | negInt (n : ℤ)
  | float (x : ℚ)
  | negZero
  deriving DecidableEq

/-- What fits in a library with 64-bit integers and finite doubles. -/
def Number.Held : Number → Prop
  | .posInt n => n < 2 ^ 64
  | .negInt n => -2 ^ 63 ≤ n ∧ n < 0
  | .float x => ∃ (m : ℤ) (e : ℕ), m.natAbs < 2 ^ 53 ∧
      (e ≤ 971 ∧ x = (m * 2 ^ e : ℤ) ∨ e ≤ 1074 ∧ x = mkRat m (2 ^ e))
  | .negZero => True

/-- A JSON value, or a document with repeated names. -/
inductive Value where
  | null
  | bool (b : Bool)
  | number (n : Number)
  | string (s : String)
  | array (items : List Value)
  | object (members : List (String × Value))

namespace Value

mutual

/-- Equality of values is decided along their structure. -/
def decEq : (a b : Value) → Decidable (a = b)
  | .null, .null => isTrue rfl
  | .bool a, .bool b => decidable_of_iff (a = b) (by simp)
  | .number a, .number b => decidable_of_iff (a = b) (by simp)
  | .string a, .string b => decidable_of_iff (a = b) (by simp)
  | .array a, .array b =>
    match decEqItems a b with
    | isTrue h => isTrue (by rw [h])
    | isFalse h => isFalse (by simpa using h)
  | .object a, .object b =>
    match decEqMembers a b with
    | isTrue h => isTrue (by rw [h])
    | isFalse h => isFalse (by simpa using h)
  -- Values of different kinds differ.
  | .null, .bool _ | .null, .number _ | .null, .string _ | .null, .array _ | .null, .object _
  | .bool _, .null | .bool _, .number _ | .bool _, .string _ | .bool _, .array _
  | .bool _, .object _
  | .number _, .null | .number _, .bool _ | .number _, .string _ | .number _, .array _
  | .number _, .object _
  | .string _, .null | .string _, .bool _ | .string _, .number _ | .string _, .array _
  | .string _, .object _
  | .array _, .null | .array _, .bool _ | .array _, .number _ | .array _, .string _
  | .array _, .object _
  | .object _, .null | .object _, .bool _ | .object _, .number _ | .object _, .string _
  | .object _, .array _ => isFalse (by intro h; cases h)

/-- The same for the items of arrays. -/
def decEqItems : (a b : List Value) → Decidable (a = b)
  | [], [] => isTrue rfl
  | [], _ :: _ => isFalse (by simp)
  | _ :: _, [] => isFalse (by simp)
  | a :: as, b :: bs =>
    match decEq a b, decEqItems as bs with
    | isTrue h, isTrue h' => isTrue (by rw [h, h'])
    | isFalse h, _ => isFalse (by simp [h])
    | _, isFalse h => isFalse (by simp [h])

/-- The same for the members of objects. -/
def decEqMembers : (a b : List (String × Value)) → Decidable (a = b)
  | [], [] => isTrue rfl
  | [], _ :: _ => isFalse (by simp)
  | _ :: _, [] => isFalse (by simp)
  | (k, a) :: as, (l, b) :: bs =>
    match decEq a b, decEqMembers as bs with
    | isTrue h, isTrue h' => decidable_of_iff (k = l) (by simp [h, h'])
    | isFalse h, _ => isFalse (by simp [h])
    | _, isFalse h => isFalse (by simp [h])

end

instance : DecidableEq Value := decEq

/-- Put a member into a list sorted by name, replacing one of that name. -/
def insertMember {α : Type} (name : String) (value : α) : List (String × α) → List (String × α)
  | [] => [(name, value)]
  | (k, v) :: rest =>
    if name < k then (name, value) :: (k, v) :: rest
    else if name = k then (name, value) :: rest
    else (k, v) :: insertMember name value rest

/-- The object with these members, by name. A later member of a repeated name wins. -/
def ofMembers (members : List (String × Value)) : Value :=
  .object (members.foldl (fun sorted m => insertMember m.1 m.2 sorted) [])

/-- The members of an object. -/
def asObject : Value → Option (List (String × Value))
  | .object members => some members
  | _ => none

/-- The text of a string. -/
def asString : Value → Option String
  | .string s => some s
  | _ => none

lemma asString_eq_some {v : Value} {s : String} : v.asString = some s ↔ v = .string s := by
  cases v <;> simp [asString]

/-- The value of a non-negative integer. -/
def asU64 : Value → Option ℕ
  | .number (.posInt n) => some n
  | _ => none

/-- The value of any number. -/
def asF64 : Value → Option ℚ
  | .number (.posInt n) => some n
  | .number (.negInt n) => some n
  | .number (.float x) => some x
  | .number .negZero => some 0
  | _ => none

/-- The member of a name. -/
def get (name : String) : Value → Option Value
  | .object members => members.lookup name
  | _ => none

end Value

end Wamn.Lib.Json
