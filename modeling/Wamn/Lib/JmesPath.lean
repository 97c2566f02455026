import Wamn.Lib.Json

/-!
# JMESPath expressions

The syntax tree of JMESPath, its values, and its evaluation against a current value. A runtime
supplies the comparison of values and the functions, which see their evaluated arguments only.
`Ast.closedOver` says which members of the current value an evaluation can see.
-/

namespace Wamn.Lib.JmesPath

open Lib.Json

/-! ## Syntax and values -/

/-- The comparison operators. -/
inductive Comparator where
  | equal
  | notEqual
  | lessThan
  | lessThanEqual
  | greaterThan
  | greaterThanEqual
  deriving DecidableEq

/-- The abstract syntax tree, over the values its literals hold. -/
inductive Ast (V : Type) where
  | comparison (comparator : Comparator) (lhs rhs : Ast V)
  | condition (predicate result : Ast V)
  | identity
  | expref (ast : Ast V)
  | flatten (node : Ast V)
  | function (name : String) (args : List (Ast V))
  | field (name : String)
  | index (idx : ℤ)
  | literal (value : V)
  | multiList (elements : List (Ast V))
  | multiHash (elements : List (String × Ast V))
  | not (node : Ast V)
  | projection (lhs rhs : Ast V)
  | objectValues (node : Ast V)
  | and (lhs rhs : Ast V)
  | or (lhs rhs : Ast V)
  | slice (start stop : Option ℤ) (step : ℤ)
  | subexpr (lhs rhs : Ast V)

/-- The values of an evaluation: JSON values and expression references. -/
inductive Variable where
  | null
  | bool (b : Bool)
  | number (n : Number)
  | string (s : String)
  | array (items : List Variable)
  | object (members : List (String × Variable))
  | expref (ast : Ast Variable)

namespace Variable

mutual

/-- A JSON value as the current value of an evaluation. -/
def ofJson : Value → Variable
  | .null => null
  | .bool b => bool b
  | .number n => number n
  | .string s => string s
  | .array items => array (ofJsonItems items)
  | .object members => object (ofJsonMembers members)

/-- The items of an array as values. -/
def ofJsonItems : List Value → List Variable
  | [] => []
  | item :: items => ofJson item :: ofJsonItems items

/-- The members of an object as values. -/
def ofJsonMembers : List (String × Value) → List (String × Variable)
  | [] => []
  | (name, value) :: members => (name, ofJson value) :: ofJsonMembers members

end

/-- The value is `null`. -/
def isNull : Variable → Bool
  | null => true
  | _ => false

/-- What a condition takes for true: `true`, any number, and any nonempty text or container. -/
def isTruthy : Variable → Bool
  | bool b => b
  | number _ => true
  | string s => s ≠ ""
  | array items => !items.isEmpty
  | object members => !members.isEmpty
  | null => false
  | expref _ => false

/-- The items of an array. -/
def asArray : Variable → Option (List Variable)
  | array items => some items
  | _ => none

/-- A member of an object, `null` where there is none. -/
def getField (name : String) : Variable → Variable
  | object members => (members.lookup name).getD null
  | _ => null

/-- An item of an array, from its end for a negative index, `null` where there is none. -/
def getIndex (idx : ℤ) : Variable → Variable
  | array items =>
    -- The last item has the index `-1`.
    let position := if 0 ≤ idx then idx else items.length + idx
    if 0 ≤ position then items[position.toNat]?.getD null else null
  | _ => null

/-- The values of an object in the order of their names, `null` for any other value. -/
def values : Variable → Variable
  | object members => array (members.map Prod.snd)
  | _ => null

/-- An array with its array items spliced in, `null` for any other value. -/
def flatten : Variable → Variable
  | array items => array (items.flatMap fun item => item.asArray.getD [item])
  | _ => null

/-- A slice bound of an array of `len` items. -/
def sliceEndpoint (len endpoint step : ℤ) : ℤ :=
  if endpoint < 0 then
    if 0 ≤ endpoint + len then endpoint + len else if step < 0 then -1 else 0
  else if endpoint < len then endpoint
  else if step < 0 then len - 1 else len

/-- The items at `i`, `i + step` and so on, before `stop` is passed. -/
def sliceFrom (items : List Variable) (stop step : ℤ) : ℕ → ℤ → List Variable
  | 0, _ => []
  | fuel + 1, i =>
    if (0 < step ∧ i < stop) ∨ (step < 0 ∧ stop < i) then
      items[i.toNat]?.toList ++ sliceFrom items stop step fuel (i + step)
    else []

/-- The items of a slice. It has no more items than the array. -/
def sliceItems (items : List Variable) (start stop : Option ℤ) (step : ℤ) : List Variable :=
  let len : ℤ := items.length
  let first := start.elim (if step < 0 then len - 1 else 0) (sliceEndpoint len · step)
  let last := stop.elim (if step < 0 then -1 else len) (sliceEndpoint len · step)
  -- Every step passes at least one item, so the length is fuel enough.
  sliceFrom items last step items.length first

end Variable

/-! ## Evaluation -/

/-- What an evaluation takes from its surroundings: comparisons, functions by name, and the error of
a slice without a step. -/
structure Runtime (ε : Type) where
  compare : Comparator → Variable → Variable → Option Bool
  call : String → List Variable → Except ε Variable
  invalidSlice : ε

variable {ε : Type}

mutual

/-- The value of an expression. -/
def interpret (rt : Runtime ε) : Ast Variable → Variable → Except ε Variable
  | .field name, data => pure (data.getField name)
  | .subexpr lhs rhs, data => do interpret rt rhs (← interpret rt lhs data)
  | .identity, data => pure data
  | .literal value, _ => pure value
  | .index idx, data => pure (data.getIndex idx)
  | .or lhs rhs, data => do
    let left ← interpret rt lhs data
    if left.isTruthy then pure left else interpret rt rhs data
  | .and lhs rhs, data => do
    let left ← interpret rt lhs data
    if left.isTruthy then interpret rt rhs data else pure left
  | .not node, data => do pure (.bool !(← interpret rt node data).isTruthy)
  | .condition predicate result, data => do
    if (← interpret rt predicate data).isTruthy then interpret rt result data else pure .null
  | .comparison comparator lhs rhs, data => do
    let left ← interpret rt lhs data
    let right ← interpret rt rhs data
    pure ((rt.compare comparator left right).elim .null .bool)
  | .objectValues node, data => do pure (← interpret rt node data).values
  | .projection lhs rhs, data => do
    match (← interpret rt lhs data).asArray with
    | none => pure .null
    | some items => do
      -- A projection drops what comes out as `null`.
      let collected ← items.mapM (interpret rt rhs)
      pure (.array (collected.filter fun item => !item.isNull))
  | .flatten node, data => do pure (← interpret rt node data).flatten
  | .multiList elements, data =>
    if data.isNull then pure .null else do pure (.array (← interpretAll rt elements data))
  | .multiHash elements, data =>
    if data.isNull then pure .null else do
      let members ← interpretMembers rt elements data
      pure (.object (members.foldl (fun sorted m => Value.insertMember m.1 m.2 sorted) []))
  | .function name args, data => do rt.call name (← interpretAll rt args data)
  -- A reference is not evaluated here; the function that takes it does that.
  | .expref ast, _ => pure (.expref ast)
  | .slice start stop step, data =>
    if step = 0 then throw rt.invalidSlice
    else pure (data.asArray.elim .null fun items =>
      .array (Variable.sliceItems items start stop step))

/-- The values of a multi-select list. -/
def interpretAll (rt : Runtime ε) : List (Ast Variable) → Variable → Except ε (List Variable)
  | [], _ => pure []
  | ast :: rest, data => do
    let value ← interpret rt ast data
    pure (value :: (← interpretAll rt rest data))

/-- The members of a multi-select hash. -/
def interpretMembers (rt : Runtime ε) :
    List (String × Ast Variable) → Variable → Except ε (List (String × Variable))
  | [], _ => pure []
  | (name, ast) :: rest, data => do
    let value ← interpret rt ast data
    pure ((name, value) :: (← interpretMembers rt rest data))

end

/-! ## What an evaluation sees of its current value -/

mutual

/-- The evaluation sees only fields in `visible` of its current value, never the value as a whole.
The right-hand side of a subexpression or projection has a current value of its own. -/
def Ast.closedOver {V : Type} (visible : String → Bool) : Ast V → Bool
  | .field name => visible name
  | .identity => false
  | .subexpr lhs _ | .projection lhs _ => lhs.closedOver visible
  | .comparison _ lhs rhs | .and lhs rhs | .or lhs rhs | .condition lhs rhs =>
    lhs.closedOver visible && rhs.closedOver visible
  | .not node | .flatten node | .objectValues node => node.closedOver visible
  | .function _ args => closedOverAll visible args
  | .multiList elements => closedOverAll visible elements
  | .multiHash elements => closedOverMembers visible elements
  | .expref _ | .index _ | .literal _ | .slice _ _ _ => true

/-- All expressions are closed over the visible fields. -/
def closedOverAll {V : Type} (visible : String → Bool) : List (Ast V) → Bool
  | [] => true
  | ast :: rest => ast.closedOver visible && closedOverAll visible rest

/-- All expressions of the hash are closed over the visible fields. -/
def closedOverMembers {V : Type} (visible : String → Bool) : List (String × Ast V) → Bool
  | [] => true
  | (_, ast) :: rest => ast.closedOver visible && closedOverMembers visible rest

end

section Congruence

variable (rt : Runtime ε) {visible : String → Bool} {members members' : List (String × Variable)}

/-- Two objects have the same visible fields. -/
def AgreeOn (visible : String → Bool) (members members' : List (String × Variable)) : Prop :=
  ∀ name, visible name = true →
    (Variable.object members).getField name = (Variable.object members').getField name

mutual

/-- Objects that agree on the visible fields give an expression closed over them the same result. -/
theorem interpret_congr (hfields : AgreeOn visible members members') :
    ∀ ast : Ast Variable, ast.closedOver visible = true →
      interpret rt ast (.object members) = interpret rt ast (.object members')
  | .field name, h => by rw [interpret, interpret, hfields name h]
  | .identity, h => by cases h
  | .subexpr node _, h | .projection node _, h | .not node, h | .flatten node, h
  | .objectValues node, h => by rw [interpret, interpret, interpret_congr hfields node h]
  | .comparison _ lhs rhs, h | .and lhs rhs, h | .or lhs rhs, h | .condition lhs rhs, h => by
    obtain ⟨hlhs, hrhs⟩ := Bool.and_eq_true_iff.1 h
    rw [interpret, interpret, interpret_congr hfields lhs hlhs, interpret_congr hfields rhs hrhs]
  | .function _ args, h => by rw [interpret, interpret, interpretAll_congr hfields args h]
  | .multiList elements, h => by
    -- Both current values are objects, so neither is `null`.
    rw [interpret, interpret, interpretAll_congr hfields elements h]
    rfl
  | .multiHash elements, h => by
    rw [interpret, interpret, interpretMembers_congr hfields elements h]
    rfl
  | .expref _, _ | .literal _, _ => by rw [interpret, interpret]
  | .index _, _ | .slice _ _ _, _ => by
    rw [interpret, interpret]
    rfl

lemma interpretAll_congr (hfields : AgreeOn visible members members') :
    ∀ asts : List (Ast Variable), closedOverAll visible asts = true →
      interpretAll rt asts (.object members) = interpretAll rt asts (.object members')
  | [], _ => rfl
  | ast :: rest, h => by
    obtain ⟨hast, hrest⟩ := Bool.and_eq_true_iff.1 h
    rw [interpretAll, interpretAll, interpret_congr hfields ast hast,
      interpretAll_congr hfields rest hrest]

lemma interpretMembers_congr (hfields : AgreeOn visible members members') :
    ∀ asts : List (String × Ast Variable), closedOverMembers visible asts = true →
      interpretMembers rt asts (.object members) = interpretMembers rt asts (.object members')
  | [], _ => rfl
  | (name, ast) :: rest, h => by
    obtain ⟨hast, hrest⟩ := Bool.and_eq_true_iff.1 h
    rw [interpretMembers, interpretMembers, interpret_congr hfields ast hast,
      interpretMembers_congr hfields rest hrest]

end

end Congruence

end Wamn.Lib.JmesPath
