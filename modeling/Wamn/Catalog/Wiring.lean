import Mathlib.Data.String.Basic
import Wamn.Events.Wire
import Wamn.Lib.OrdMap
import Wamn.Lib.Transaction

/-!
# The wiring document

A wiring is the graph an author composes: nodes that name an operation of a component, edges between
their ports in the order in which branches are walked, the entry, terminals, test cases and the
contract of the response. Every stored and every built document has passed `validate`.
-/

namespace Wamn.Catalog

open Lib Lib.Json Lib.Text Events

/-- Why a document is refused. -/
inductive CatalogIdentityError where
  | emptyIdentity (field : String)
  | nonCanonicalIdentity (field : String)
  | zeroVersion (field : String)
  | invalidDefinition (message : String)
  | unresolvedWiringNode (nodeId : String)
  | unresolvedWiringEntry (nodeId : String)
  deriving DecidableEq

/-- What the checks take from libraries. -/
structure Library where
  /-- The quoted form of a text in messages. -/
  debugText : String → String
  /-- Compile a JSON schema, or say why it is none. -/
  compileSchema : Value → Except String Unit

/-- `WIRING_DOCUMENT_FORMAT_VERSION`. -/
def wiringDocumentFormatVersion : String := "0.1"

/-- `MAIN_PORT`. -/
def mainPort : String := "main"

/-! ## Documents -/

/-- An invocation through a dependency of the package. -/
structure WiringOperationDependency where
  aliasName : String
  operation : String
  deriving DecidableEq

/-- How a delivery ends at a node. -/
inductive WiringTerminal where
  | respond
  | emit (entity : String) (operation : Op)
  deriving DecidableEq

/-- An operation of a component. -/
structure WiringNode where
  component : String
  interfaceVersion : String
  operation : String
  operationDependency : Option WiringOperationDependency
  params : OrdMap String Value
  terminal : Option WiringTerminal
  deriving DecidableEq

/-- A wire from an output port to an input port. Without a port it goes to the only input of its
target. -/
structure WiringEdge where
  fromNode : String
  fromPort : String
  toNode : String
  toPort : Option String
  deriving DecidableEq

/-- The node that responds, and the schema of the response. -/
structure WiringResponse where
  node : String
  schema : Value
  committedResult : Option String
  deriving DecidableEq

/-- The terminal shapes that a test case distinguishes. -/
inductive ExpectedOutcome where
  | responded
  | failed
  deriving DecidableEq

/-- The kinds of failures. -/
inductive WiringFailureKind where
  | terminal
  | retryExhausted
  | invalidInput
  | runawayBudget
  | effectUncertain
  | depthBudget
  | dispatchBudget
  deriving DecidableEq

/-- What a test case expects. -/
structure Expect where
  outcome : ExpectedOutcome
  status : Option ℕ
  bodySubset : Option Value
  failureCode : Option WiringFailureKind
  deriving DecidableEq

/-- A test case. -/
structure TestSetCase where
  caseId : String
  input : Value
  expect : Expect
  deriving DecidableEq

/-- One version of a wiring. -/
structure WiringDocument where
  formatVersion : String
  wiringId : String
  version : ℕ
  entry : String
  nodes : OrdMap String WiringNode
  edges : List WiringEdge
  cases : List TestSetCase
  response : Option WiringResponse
  deriving DecidableEq

/-! ## The stored form -/

/-- A member that is left out where there is no value. -/
def optionalMember (name : String) (value : Option Value) : List (String × Value) :=
  value.toList.map fun value => (name, value)

/-- A terminal as JSON. -/
def WiringTerminal.asValue : WiringTerminal → Value
  | respond => .string "respond"
  | emit entity operation => .ofMembers [("emit",
      .ofMembers [("entity", .string entity), ("operation", .string operation.asStr)])]

/-- A dependency as JSON. -/
def WiringOperationDependency.asValue (d : WiringOperationDependency) : Value :=
  .ofMembers [("alias", .string d.aliasName), ("operation", .string d.operation)]

/-- A node as JSON. -/
def WiringNode.asValue (node : WiringNode) : Value :=
  .ofMembers <|
    [("component", .string node.component), ("interface-version", .string node.interfaceVersion),
      ("operation", .string node.operation)] ++
    optionalMember "operation-dependency"
      (node.operationDependency.map WiringOperationDependency.asValue) ++
    (if node.params.entries.isEmpty then [] else [("params", .object node.params.entries)]) ++
    optionalMember "terminal" (node.terminal.map WiringTerminal.asValue)

/-- An edge as JSON. -/
def WiringEdge.asValue (edge : WiringEdge) : Value :=
  .ofMembers <|
    [("from", .string edge.fromNode), ("to", .string edge.toNode)] ++
    (if edge.fromPort = mainPort then [] else [("from-port", .string edge.fromPort)]) ++
    optionalMember "to-port" (edge.toPort.map .string)

/-- A failure kind as JSON. -/
def WiringFailureKind.asValue : WiringFailureKind → Value
  | terminal => .string "terminal"
  | retryExhausted => .string "retry-exhausted"
  | invalidInput => .string "invalid-input"
  | runawayBudget => .string "runaway-budget"
  | effectUncertain => .string "effect-uncertain"
  | depthBudget => .string "depth-budget"
  | dispatchBudget => .string "dispatch-budget"

/-- An outcome as JSON. -/
def ExpectedOutcome.asValue : ExpectedOutcome → Value
  | responded => .string "responded"
  | failed => .string "failed"

/-- An expectation as JSON. -/
def Expect.asValue (expect : Expect) : Value :=
  .ofMembers <|
    [("outcome", expect.outcome.asValue)] ++
    optionalMember "status" (expect.status.map fun n => .number (.posInt n)) ++
    optionalMember "body-subset" expect.bodySubset ++
    optionalMember "failure-code" (expect.failureCode.map WiringFailureKind.asValue)

/-- A test case as JSON. -/
def TestSetCase.asValue (case : TestSetCase) : Value :=
  .ofMembers [("case-id", .string case.caseId), ("input", case.input),
    ("expect", case.expect.asValue)]

/-- A response as JSON. -/
def WiringResponse.asValue (response : WiringResponse) : Value :=
  .ofMembers <|
    [("node", .string response.node), ("schema", response.schema)] ++
    optionalMember "committed-result" (response.committedResult.map .string)

/-- The document as JSON. -/
def WiringDocument.asValue (doc : WiringDocument) : Value :=
  .ofMembers <|
    [("format-version", .string doc.formatVersion), ("wiring-id", .string doc.wiringId),
      ("version", .number (.posInt doc.version)), ("entry", .string doc.entry),
      ("nodes", .object (doc.nodes.entries.map fun node => (node.1, node.2.asValue)))] ++
    (if doc.edges.isEmpty then [] else [("edges", .array (doc.edges.map WiringEdge.asValue))]) ++
    (if doc.cases.isEmpty then [] else [("cases", .array (doc.cases.map TestSetCase.asValue))]) ++
    optionalMember "response" (doc.response.map WiringResponse.asValue)

/-! ## Validation -/

/-- A text that is not empty or padded and has no NUL. -/
def validateText (value field : String) : Except CatalogIdentityError Unit := do
  ensure (value ≠ "") (.emptyIdentity field)
  ensure (!(value.toList.head?.any isWhiteSpace) && !(value.toList.getLast?.any isWhiteSpace) &&
    !value.toList.contains '\x00') (.nonCanonicalIdentity field)

/-- An optional text. -/
def validateOptionalText (value : Option String) (field : String) :
    Except CatalogIdentityError Unit :=
  value.elim (pure ()) fun value => validateText value field

mutual

/-- A text of the value starts like a credential. -/
def containsSecretValue : Value → Bool
  | .string value => ["Bearer ", "-----BEGIN", "AKIA"].any fun start =>
      start.toList.isPrefixOf value.toList
  | .array values => containsSecretItem values
  | .object members => containsSecretMember members
  | .null | .bool _ | .number _ => false

/-- An item starts like a credential. -/
def containsSecretItem : List Value → Bool
  | [] => false
  | value :: rest => containsSecretValue value || containsSecretItem rest

/-- A member starts like a credential, whatever its name. -/
def containsSecretMember : List (String × Value) → Bool
  | [] => false
  | (_, value) :: rest => containsSecretValue value || containsSecretMember rest

end

mutual

/-- Some `$ref` of the schema leaves the document. -/
def hasRemoteRef : Value → Bool
  | .array values => itemHasRemoteRef values
  | .object members => memberHasRemoteRef members
  | .null | .bool _ | .number _ | .string _ => false

/-- A `$ref` of an item leaves the document. -/
def itemHasRemoteRef : List Value → Bool
  | [] => false
  | value :: rest => hasRemoteRef value || itemHasRemoteRef rest

/-- A `$ref` of a member leaves the document. -/
def memberHasRemoteRef : List (String × Value) → Bool
  | [] => false
  | (name, value) :: rest =>
    (name = "$ref" && value.asString.all fun reference => reference.toList.head? ≠ some '#') ||
      hasRemoteRef value || memberHasRemoteRef rest

end

/-- The supported draft. -/
def jsonSchema202012 : String := "https://json-schema.org/draft/2020-12/schema"

/-- A schema of the supported draft without references that leave it. -/
def normalizeSchema (lib : Library) (schema : Value) (field : String) : Except String Unit := do
  ensure ((schema.get "$schema").all fun declared => declared.asString = some jsonSchema202012)
    (field ++ " schema must use JSON Schema draft 2020-12")
  ensure (!hasRemoteRef schema) (field ++ " schema may only use document-local references")
  (lib.compileSchema schema).mapError fun error => field ++ " schema is invalid: " ++ error

/-- `MAX_TEST_SET_CASES`. -/
def maxTestSetCases : ℕ := 256

/-- The outcome and its fields go together. -/
def Expect.validate (expect : Expect) : Except String Unit := do
  ensure (expect.status.all fun status => 100 ≤ status && status ≤ 599)
    "expected status must be in 100..=599"
  match expect.outcome with
  | .responded =>
    ensure expect.failureCode.isNone "a responded outcome forbids failure-code"
  | .failed =>
    ensure (expect.status.isNone && expect.bodySubset.isNone)
      "a failed outcome forbids status and body-subset"

/-- The checks of the test cases. `seen` are the ids of those before. -/
def validateCase (lib : Library) : List TestSetCase → List String → Except String Unit
  | [], _ => pure ()
  | case :: rest, seen => do
    ensure (case.caseId ≠ "") "case-id must not be empty"
    ensure (!seen.contains case.caseId) ("duplicate case-id " ++ lib.debugText case.caseId)
    case.expect.validate.mapError fun error =>
      "case " ++ lib.debugText case.caseId ++ " expect is invalid: " ++ error
    validateCase lib rest (case.caseId :: seen)

/-- The checks of all test cases. -/
def validateCases (lib : Library) (cases : List TestSetCase) : Except String Unit := do
  ensure (!cases.isEmpty) "flow document cases must not be empty"
  ensure (cases.length ≤ maxTestSetCases) ("flow document has " ++ toString cases.length ++
    " cases; maximum is " ++ toString maxTestSetCases)
  validateCase lib cases []

namespace WiringDocument

/-- The checks of one node. -/
def validateNode (node : String × WiringNode) : Except CatalogIdentityError Unit := do
  validateText node.1 "node-id"
  validateText node.2.component "component"
  validateText node.2.interfaceVersion "interface-version"
  validateText node.2.operation "operation"
  match node.2.operationDependency with
  | some dependency => do
    validateText dependency.aliasName "operation-dependency alias"
    validateText dependency.operation "operation-dependency operation"
  | none => pure ()
  match node.2.terminal with
  | some (.emit entity _) => validateText entity "emit-entity"
  | _ => pure ()

/-- Both ends of an edge are nodes, and its ports are texts. -/
def validateEdge (doc : WiringDocument) (edge : WiringEdge) : Except CatalogIdentityError Unit := do
  ensure (doc.nodes.get edge.fromNode).isSome (.unresolvedWiringNode edge.fromNode)
  ensure (doc.nodes.get edge.toNode).isSome (.unresolvedWiringNode edge.toNode)
  validateText edge.fromPort "from-port"
  validateOptionalText edge.toPort "to-port"

/-- The checks of the response. -/
def validateResponse (lib : Library) (doc : WiringDocument) (response : WiringResponse) :
    Except CatalogIdentityError Unit := do
  validateText response.node "response node"
  match doc.nodes.get response.node with
  | none => throw (.unresolvedWiringNode response.node)
  | some node =>
    ensure (node.terminal = some .respond)
      (.invalidDefinition "response node must be a Respond terminal")
  (normalizeSchema lib response.schema "response").mapError fun error =>
    .invalidDefinition ("wiring response schema is invalid: " ++ error)
  match response.committedResult with
  | none => pure ()
  | some committed => do
    validateText committed "committed-result node"
    ensure (doc.nodes.get committed).isSome (.unresolvedWiringNode committed)

/-- The checks of a document. -/
def validate (lib : Library) (doc : WiringDocument) : Except CatalogIdentityError Unit := do
  ensure (!containsSecretValue doc.asValue) (.invalidDefinition
    ("wiring document contains a secret-shaped value; supply credentials through an " ++
      "environment-owned connection"))
  ensure (doc.formatVersion = wiringDocumentFormatVersion)
    (.invalidDefinition "wiring document format-version must be textual 0.1")
  validateText doc.wiringId "wiring-id"
  ensure (doc.version ≠ 0) (.zeroVersion "version")
  ensure (!doc.nodes.entries.isEmpty)
    (.invalidDefinition "a wiring with no nodes has nothing for the router to walk")
  validateText doc.entry "entry"
  ensure (doc.nodes.get doc.entry).isSome (.unresolvedWiringEntry doc.entry)
  doc.nodes.entries.forM validateNode
  doc.edges.forM doc.validateEdge
  match doc.response with
  | none => pure ()
  | some response => doc.validateResponse lib response
  if doc.cases.isEmpty then pure ()
  else (validateCases lib doc.cases).mapError fun error =>
    .invalidDefinition ("wiring document cases are invalid: " ++ error)

/-- The entry and both ends of every edge of a valid document are its nodes. -/
theorem validate_eq_ok {lib : Library} {doc : WiringDocument} {u : Unit}
    (h : doc.validate lib = .ok u) :
    doc.entry ∈ doc.nodes.keys ∧
      ∀ edge ∈ doc.edges, edge.fromNode ∈ doc.nodes.keys ∧ edge.toNode ∈ doc.nodes.keys := by
  -- Six checks come before that of the entry, and the nodes are checked before the edges.
  obtain ⟨_, -, h⟩ := bind_eq_ok.1 h
  obtain ⟨_, -, h⟩ := bind_eq_ok.1 h
  obtain ⟨_, -, h⟩ := bind_eq_ok.1 h
  obtain ⟨_, -, h⟩ := bind_eq_ok.1 h
  obtain ⟨_, -, h⟩ := bind_eq_ok.1 h
  obtain ⟨_, -, h⟩ := bind_eq_ok.1 h
  obtain ⟨_, hentry, h⟩ := bind_eq_ok.1 h
  obtain ⟨_, -, h⟩ := bind_eq_ok.1 h
  obtain ⟨_, hedges, -⟩ := bind_eq_ok.1 h
  refine ⟨OrdMap.isSome_get.1 (ensure_eq_ok.1 hentry), fun edge hedge => ?_⟩
  have hedge := forM_eq_ok.1 hedges edge hedge
  obtain ⟨_, hfrom, hedge⟩ := bind_eq_ok.1 hedge
  obtain ⟨_, hto, -⟩ := bind_eq_ok.1 hedge
  exact ⟨OrdMap.isSome_get.1 (ensure_eq_ok.1 hfrom), OrdMap.isSome_get.1 (ensure_eq_ok.1 hto)⟩

end WiringDocument

end Wamn.Catalog
