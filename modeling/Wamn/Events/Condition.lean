import Wamn.Events.Wire
import Wamn.Lib.JmesPath

/-!
# Conditions of event registrations

A condition is a JMESPath predicate over the event context `{op, old, new}`. One that reads the old
image must not be evaluated on an event without it. `referencesOld` finds such reads by a walk over
the syntax tree that knows the root of the context by its fields; it does not follow `@`, through
which the whole root flows on.
-/

namespace Wamn.Events

open Lib.Json Lib.JmesPath

/-! ## Detection of root reads -/

mutual

/-- `at_root`: the expression reads the field `old` of the root. `root`: it is evaluated against the
root. -/
def atRoot {V : Type} : Ast V → Bool → Bool
  | .field name, root => root && name == "old"
  | .subexpr lhs rhs, root | .projection lhs rhs, root => atRoot lhs root || atRoot rhs false
  | .comparison _ lhs rhs, root | .and lhs rhs, root | .or lhs rhs, root =>
    atRoot lhs root || atRoot rhs root
  | .condition predicate result, root => atRoot predicate root || atRoot result root
  | .not node, root | .flatten node, root | .objectValues node, root | .expref node, root =>
    atRoot node root
  | .function _ args, root => anyAtRoot args root
  | .multiList elements, root => anyAtRoot elements root
  | .multiHash elements, root => anyMemberAtRoot elements root
  -- The root itself counts as no read of a field of it.
  | .identity, _ | .index _, _ | .literal _, _ | .slice _ _ _, _ => false

/-- One of the expressions reads the field `old` of the root. -/
def anyAtRoot {V : Type} : List (Ast V) → Bool → Bool
  | [], _ => false
  | ast :: rest, root => atRoot ast root || anyAtRoot rest root

/-- One of the values of a multi-select hash reads the field `old` of the root. -/
def anyMemberAtRoot {V : Type} : List (String × Ast V) → Bool → Bool
  | [], _ => false
  | (_, ast) :: rest, root => atRoot ast root || anyMemberAtRoot rest root

end

/-- Whether the expression reads the root field `old` anywhere. -/
def referencesOld {V : Type} (ast : Ast V) : Bool := atRoot ast true

/-! ## Compiled conditions -/

/-- The JMESPath library: its parser, and the runtime its evaluation uses. -/
structure JmesPathLibrary where
  compile : String → Except String (Ast Variable)
  runtime : Runtime String

/-- Why a condition cannot be compiled into a serviceable form. -/
inductive ConditionOutcome where
  | invalid (error : String)
  deriving DecidableEq

structure CompiledCondition where
  expr : Ast Variable

/-- Only an expression that does not parse is unserviceable. -/
def compileCondition (jmes : JmesPathLibrary) (expr : String) :
    Except ConditionOutcome CompiledCondition :=
  match jmes.compile expr with
  | .ok ast => .ok ⟨ast⟩
  | .error e => .error (.invalid e)

namespace CompiledCondition

/-- Whether the condition is said to read the root `old` image. -/
def referencesOld (c : CompiledCondition) : Bool := Events.referencesOld c.expr

def isMatch (jmes : JmesPathLibrary) (c : CompiledCondition) (context : Value) :
    Except String Bool := do
  pure (← interpret jmes.runtime c.expr (Variable.ofJson context)).isTruthy

end CompiledCondition

/-- The context `{op, old, new}`, its members in sorted order. -/
def context (op : String) (old new : Value) : Value :=
  .object [("new", new), ("old", old), ("op", .string op)]

def imageValue (image : Option Image) : Value := image.elim .null .object

def eventContext (envelope : Envelope) : Value :=
  context envelope.op.asStr (imageValue envelope.old) (imageValue envelope.new)

def derivedEventContext (event : DerivedEvent) : Value :=
  context event.op.asStr .null event.payload

/-! ## Evaluation without the old image -/

/-- No part of the expression that is evaluated against the root takes the root as a whole. -/
def NeverTakesRoot (ast : Ast Variable) : Prop := ast.closedOver (fun _ => true) = true

/-- The fields of a context a condition may see if it is not to depend on the old image. -/
def otherThanOld (name : String) : Bool := name != "old"

mutual

/-- What the walk clears and never takes the root sees only the other fields of the root. -/
theorem closedOver_of_atRoot_eq_false : ∀ ast : Ast Variable, atRoot ast true = false →
    ast.closedOver (fun _ => true) = true → ast.closedOver otherThanOld = true
  | .field name, hold, _ => by simpa [atRoot, Ast.closedOver, otherThanOld] using hold
  -- The walk passes the root as a whole, so this case is left to the assumption.
  | .identity, _, hroot => by cases hroot
  | .subexpr lhs rhs, hold, hroot | .projection lhs rhs, hold, hroot => by
    -- The right-hand side has a current value of its own.
    obtain ⟨hlhs, -⟩ := Bool.or_eq_false_iff.1 hold
    exact closedOver_of_atRoot_eq_false lhs hlhs hroot
  | .comparison _ lhs rhs, hold, hroot | .and lhs rhs, hold, hroot | .or lhs rhs, hold, hroot
  | .condition lhs rhs, hold, hroot => by
    obtain ⟨hlhs, hrhs⟩ := Bool.or_eq_false_iff.1 hold
    obtain ⟨hlroot, hrroot⟩ := Bool.and_eq_true_iff.1 hroot
    exact Bool.and_eq_true_iff.2 ⟨closedOver_of_atRoot_eq_false lhs hlhs hlroot,
      closedOver_of_atRoot_eq_false rhs hrhs hrroot⟩
  | .not node, hold, hroot | .flatten node, hold, hroot | .objectValues node, hold, hroot =>
    closedOver_of_atRoot_eq_false node hold hroot
  | .function _ args, hold, hroot => closedOverAll_of_anyAtRoot_eq_false args hold hroot
  | .multiList elements, hold, hroot => closedOverAll_of_anyAtRoot_eq_false elements hold hroot
  | .multiHash elements, hold, hroot =>
    closedOverMembers_of_anyMemberAtRoot_eq_false elements hold hroot
  | .expref _, _, _ | .index _, _, _ | .literal _, _, _ | .slice _ _ _, _, _ => by
    rw [Ast.closedOver]

lemma closedOverAll_of_anyAtRoot_eq_false : ∀ asts : List (Ast Variable),
    anyAtRoot asts true = false → closedOverAll (fun _ => true) asts = true →
      closedOverAll otherThanOld asts = true
  | [], _, _ => rfl
  | ast :: rest, hold, hroot => by
    obtain ⟨hast, hrest⟩ := Bool.or_eq_false_iff.1 hold
    obtain ⟨hastRoot, hrestRoot⟩ := Bool.and_eq_true_iff.1 hroot
    exact Bool.and_eq_true_iff.2 ⟨closedOver_of_atRoot_eq_false ast hast hastRoot,
      closedOverAll_of_anyAtRoot_eq_false rest hrest hrestRoot⟩

lemma closedOverMembers_of_anyMemberAtRoot_eq_false : ∀ asts : List (String × Ast Variable),
    anyMemberAtRoot asts true = false → closedOverMembers (fun _ => true) asts = true →
      closedOverMembers otherThanOld asts = true
  | [], _, _ => rfl
  | (_, ast) :: rest, hold, hroot => by
    obtain ⟨hast, hrest⟩ := Bool.or_eq_false_iff.1 hold
    obtain ⟨hastRoot, hrestRoot⟩ := Bool.and_eq_true_iff.1 hroot
    exact Bool.and_eq_true_iff.2 ⟨closedOver_of_atRoot_eq_false ast hast hastRoot,
      closedOverMembers_of_anyMemberAtRoot_eq_false rest hrest hrestRoot⟩

end

lemma getField_context (op : String) (old old' new : Value) (name : String)
    (hname : otherThanOld name = true) :
    (Variable.ofJson (context op old new)).getField name =
      (Variable.ofJson (context op old' new)).getField name := by
  have hne : name ≠ "old" := by simpa [otherThanOld] using hname
  have hbeq : (name == "old") = false := by simpa using hne
  simp only [context, Variable.ofJson, Variable.ofJsonMembers, Variable.getField,
    List.lookup_cons, hbeq]

/-- The old image never decides: a condition that is not said to read `old`, and that never takes
the root as a whole, gives the same result on contexts that differ only in `old`. -/
theorem old_image_never_decides (jmes : JmesPathLibrary) (c : CompiledCondition)
    (hold : c.referencesOld = false) (hroot : NeverTakesRoot c.expr) :
    (∀ op old old' new,
      interpret jmes.runtime c.expr (Variable.ofJson (context op old new)) =
        interpret jmes.runtime c.expr (Variable.ofJson (context op old' new))) ∧
    ∀ (envelope : Envelope) (old' : Option Image),
      c.isMatch jmes (eventContext envelope) =
        c.isMatch jmes (eventContext { envelope with old := old' }) := by
  have hsame : ∀ op old old' new,
      interpret jmes.runtime c.expr (Variable.ofJson (context op old new)) =
        interpret jmes.runtime c.expr (Variable.ofJson (context op old' new)) := by
    intro op old old' new
    exact interpret_congr jmes.runtime (getField_context op old old' new) c.expr
      (closedOver_of_atRoot_eq_false c.expr hold hroot)
  refine ⟨hsame, fun envelope old' => ?_⟩
  unfold CompiledCondition.isMatch eventContext
  rw [hsame]

namespace Sample

/-- A library whose comparisons answer nothing and whose functions all fail. -/
def jmes : JmesPathLibrary where
  compile := fun _ => .error "unsupported"
  runtime := ⟨fun _ _ _ => none, fun name _ => .error ("unknown function " ++ name),
    "invalid slice"⟩

def opened : Envelope where
  op := .update
  old := none
  new := some [("status", .string "open")]
  packageId := "orders"
  entity := "order"
  table := "orders"
  lsn := 42
  txid := 7
  commitTs := 0
  causation := none

def newStatus : CompiledCondition := ⟨.subexpr (.field "new") (.field "status")⟩

/-- `new.status` holds of the update with whatever old image it comes. -/
theorem new_status_ignores_old :
    newStatus.referencesOld = false ∧ newStatus.isMatch jmes (eventContext opened) = .ok true ∧
      ∀ old', newStatus.isMatch jmes (eventContext { opened with old := old' }) = .ok true :=
  ⟨rfl, rfl, fun old' => ((old_image_never_decides jmes newStatus rfl rfl).2 opened old').symm⟩

def currentOld : CompiledCondition := ⟨.subexpr .identity (.field "old")⟩

/-- `@.old` is not said to read the old image, and holds only of an update that carries one. -/
theorem current_node_reads_old :
    currentOld.referencesOld = false ∧
      currentOld.isMatch jmes
        (eventContext { opened with old := some [("status", .string "draft")] }) = .ok true ∧
      currentOld.isMatch jmes (eventContext opened) = .ok false :=
  ⟨rfl, rfl, rfl⟩

end Sample

end Wamn.Events
