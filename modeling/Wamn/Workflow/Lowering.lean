import Wamn.Catalog.Wiring
import Wamn.Workflow.Router.Tokens

/-!
# Lowering a wiring to the router

Lowering builds the graph that the router walks from an active wiring and the operations that the
components of its release declare. It resolves the operation of every node, checks ports and
parameters, and finds the input port of every edge. The components of a resolved wiring are keyed by
the digest of their bytes, which replaces the component that a node names.
-/

namespace Wamn.Workflow.Lowering

open List Lib Lib.Json Catalog Workflow.Router

/-! ## What is resolved -/

structure AdmittedComponentParameter where
  name : String
  required : Bool
  deriving DecidableEq

/-- One operation of an admitted component, with the names of its ports. -/
structure AdmittedComponentOperation where
  inputPorts : List String
  outputPorts : List String
  parameters : List AdmittedComponentParameter
  deriving DecidableEq

/-- A component that was admitted with the digest of its bytes. -/
structure AdmittedComponent where
  component : String
  interfaceVersion : String
  operations : OrdMap String AdmittedComponentOperation
  componentDigest : String
  deriving DecidableEq

/-- The document of an active wiring and the components of its nodes. -/
structure ResolvedActiveWiring where
  packageVersion : String
  document : WiringDocument
  nodeComponents : OrdMap String AdmittedComponent

/-- The identity that a wiring and its facts share. -/
structure WiringScope where
  envKey : String
  packageId : String
  environment : String
  deriving DecidableEq

structure GatedActiveWiring where
  scope : WiringScope
  packageVersion : String
  document : WiringDocument

structure WiringOperationFact where
  component : String
  interfaceVersion : String
  operation : String
  componentDigest : String
  inputPorts : OrdMap String Unit
  outputPorts : OrdMap String Unit
  /-- Whether each declared parameter is required. -/
  parameters : OrdMap String Bool
  deriving DecidableEq

structure ScopedWiringOperationFacts where
  scope : WiringScope
  packageVersion : String
  operations : List WiringOperationFact

def nameSet (names : List String) : OrdMap String Unit :=
  .ofList (names.map fun name => (name, ()))

def projectComponentOperations (component : AdmittedComponent) : List WiringOperationFact :=
  component.operations.entries.map fun operation => {
    component := component.component
    interfaceVersion := component.interfaceVersion
    operation := operation.1
    componentDigest := component.componentDigest
    inputPorts := nameSet operation.2.inputPorts
    outputPorts := nameSet operation.2.outputPorts
    parameters := .ofList (operation.2.parameters.map fun p => (p.name, p.required)) }

/-! ## Errors -/

inductive WiringLoweringErrorType where
  | scopeMismatch
  | packageVersionMismatch
  | missingComponent
  | incompatibleInterfaceVersion
  | missingOperation
  | duplicateOperationFact
  | undeclaredParameter
  | missingRequiredParameter
  | unknownOutputPort
  | unknownInputPort
  | missingInputPort
  | ambiguousInputPort
  | routerRejected
  deriving DecidableEq

/-- A refusal, with the refusal of the router if it is one. -/
structure WiringLoweringError where
  type : WiringLoweringErrorType
  detail : String
  source : Option WiringError
  deriving DecidableEq

/-- How lowering fails: it refuses the wiring, or an expectation about it does not hold. -/
inductive LoweringFailure where
  | refused (error : WiringLoweringError)
  | panicked (message : String)
  deriving DecidableEq

def refuse (type : WiringLoweringErrorType) (detail : String) : LoweringFailure :=
  .refused ⟨type, detail, none⟩

section

-- The quoted form of a text in messages.
variable (debugText : String → String)

def displayWiringError : WiringError → String
  | .duplicateNode id => "duplicate node id " ++ debugText id
  | .unresolvedEntry id => "entry node " ++ debugText id ++ " is not in the wiring"
  | .unresolvedEndpoint fromNode endpoint =>
    "edge from " ++ debugText fromNode ++ " names unknown node " ++ debugText endpoint

def rejected (source : WiringError) : LoweringFailure :=
  .refused ⟨.routerRejected, "router refused lowered wiring: " ++
    displayWiringError debugText source, some source⟩

/-! ## Lowering -/

def validateScope (active : GatedActiveWiring) (facts : ScopedWiringOperationFacts) :
    Except LoweringFailure Unit := do
  let display (scope : WiringScope) := "(" ++ debugText scope.envKey ++ ", " ++
    debugText scope.packageId ++ ", " ++ debugText scope.environment ++ ")"
  ensure (active.scope = facts.scope) (refuse .scopeMismatch ("active wiring scope " ++
    display active.scope ++ " differs from operation-fact scope " ++ display facts.scope))
  ensure (active.packageVersion = facts.packageVersion) (refuse .packageVersionMismatch
    ("active wiring belongs to package version " ++ debugText active.packageVersion ++
      ", but operation facts are from " ++ debugText facts.packageVersion))

/-- The one fact about the operation that a node names. -/
def resolveOperation (nodeId : String) (node : Catalog.WiringNode)
    (facts : List WiringOperationFact) : Except LoweringFailure WiringOperationFact := do
  let componentMatches := facts.filter fun fact => fact.component = node.component
  ensure (!componentMatches.isEmpty) (refuse .missingComponent ("wiring node " ++
    debugText nodeId ++ " names missing component " ++ debugText node.component))
  let interfaceMatches :=
    componentMatches.filter fun fact => fact.interfaceVersion = node.interfaceVersion
  ensure (!interfaceMatches.isEmpty) (refuse .incompatibleInterfaceVersion ("wiring node " ++
    debugText nodeId ++ " component " ++ debugText node.component ++
    " has no interface version " ++ debugText node.interfaceVersion))
  match interfaceMatches.filter fun fact => fact.operation = node.operation with
  | [] => throw (refuse .missingOperation ("wiring node " ++ debugText nodeId ++ " component " ++
      debugText node.component ++ " interface " ++ debugText node.interfaceVersion ++
      " has no operation " ++ debugText node.operation))
  | [operation] => pure operation
  | _ :: _ :: _ => throw (refuse .duplicateOperationFact ("wiring node " ++ debugText nodeId ++
      " resolves more than one fact for " ++ debugText node.component ++ " " ++
      debugText node.interfaceVersion ++ " " ++ debugText node.operation))

/-- Every parameter is declared, and every required one is there. -/
def validateParameters (nodeId : String) (node : Catalog.WiringNode) (fact : WiringOperationFact) :
    Except LoweringFailure Unit :=
  match node.params.keys.find? fun parameter => (fact.parameters.get parameter).isNone with
  | some parameter => throw (refuse .undeclaredParameter ("wiring node " ++ debugText nodeId ++
      " supplies undeclared parameter " ++ debugText parameter))
  | none =>
    match fact.parameters.entries.find? fun parameter =>
        parameter.2 && (node.params.get parameter.1).isNone with
    | some parameter => throw (refuse .missingRequiredParameter ("wiring node " ++
        debugText nodeId ++ " omits required parameter " ++ debugText parameter.1))
    | none => pure ()

/-- The authored port, or the only input of the target. -/
def resolveTargetPort (nodeId : String) (authoredPort : Option String)
    (fact : WiringOperationFact) : Except LoweringFailure String :=
  let target := "wiring target " ++ debugText nodeId ++ " operation " ++ debugText fact.operation
  match authoredPort with
  | some port =>
    if (fact.inputPorts.get port).isSome then pure port
    else throw (refuse .unknownInputPort
      (target ++ " does not declare input port " ++ debugText port))
  | none =>
    match fact.inputPorts.keys with
    | [port] => pure port
    | [] => throw (refuse .missingInputPort (target ++ " declares no input port"))
    | ports => throw (refuse .ambiguousInputPort (target ++ " declares " ++
        toString ports.length ++ " input ports; to-port is required"))

def lowerTerminal : WiringTerminal → Terminal
  | .respond => .respond
  | .emit entity operation => .emit entity operation

/-- One node of the document, resolved and as the router takes it. -/
def lowerNode (facts : List WiringOperationFact) (node : String × Catalog.WiringNode) :
    Except LoweringFailure (Router.WiringNode × WiringOperationFact) := do
  let fact ← resolveOperation debugText node.1 node.2 facts
  validateParameters debugText node.1 node.2 fact
  pure ({
    id := node.1
    component := fact.componentDigest
    operation := fact.operation
    config := .object node.2.params.entries
    -- A binding is the host's to inject, not the wiring's.
    connection := none
    terminal := node.2.terminal.map lowerTerminal }, fact)

def resolvedFact (resolved : List (Router.WiringNode × WiringOperationFact)) (nodeId : String)
    (expected : String) : Except LoweringFailure WiringOperationFact :=
  match resolved.find? fun node => node.1.id = nodeId with
  | some node => pure node.2
  | none => throw (.panicked expected)

/-- An edge as the router takes it, without an ordinal: branches keep the order of the document. -/
def lowerEdge (resolved : List (Router.WiringNode × WiringOperationFact))
    (edge : Catalog.WiringEdge) : Except LoweringFailure Router.WiringEdge := do
  let source ← resolvedFact resolved edge.fromNode "a validated wiring edge source resolves"
  ensure (edge.fromPort = errorPort || (source.outputPorts.get edge.fromPort).isSome)
    (refuse .unknownOutputPort ("wiring node " ++ debugText edge.fromNode ++ " operation " ++
      debugText source.operation ++ " does not declare output port " ++ debugText edge.fromPort))
  let target ← resolvedFact resolved edge.toNode "a validated wiring edge target resolves"
  let toPort ← resolveTargetPort debugText edge.toNode edge.toPort target
  pure ⟨edge.fromNode, edge.fromPort, edge.toNode, toPort, none⟩

def lowerActiveWiring (active : GatedActiveWiring) (facts : ScopedWiringOperationFacts) :
    Except LoweringFailure Wiring := do
  validateScope debugText active facts
  let resolved ← active.document.nodes.entries.mapM (lowerNode debugText facts.operations)
  let edges ← active.document.edges.mapM (lowerEdge debugText resolved)
  (Wiring.compile active.document.entry (resolved.map Prod.fst) edges).mapError (rejected debugText)

def keyedOperations (component : AdmittedComponent) : List WiringOperationFact :=
  (projectComponentOperations component).map fun operation =>
    { operation with component := component.componentDigest }

def collect (operations : List WiringOperationFact) (more : List WiringOperationFact) :
    List WiringOperationFact :=
  more.foldl (fun operations operation =>
    if operation ∈ operations then operations else operations ++ [operation]) operations

/-- The `expect` on a component resolved for a node that the document does not have. -/
def foreignNode : LoweringFailure :=
  .panicked "the resolution checked that each resolved node belongs to the document"

/-- Every resolved node gets the key of its component, and the operations are collected. -/
def bindComponents : List (String × AdmittedComponent) → OrdMap String Catalog.WiringNode →
    List WiringOperationFact →
    Except LoweringFailure (OrdMap String Catalog.WiringNode × List WiringOperationFact)
  | [], nodes, operations => pure (nodes, operations)
  | (nodeId, component) :: rest, nodes, operations => do
    ensure (nodes.get nodeId).isSome foreignNode
    bindComponents rest
      (nodes.modify nodeId fun node => { node with component := component.componentDigest })
      (collect operations (keyedOperations component))

def lowerResolvedWiring (scope : WiringScope) (resolved : ResolvedActiveWiring) :
    Except LoweringFailure Wiring := do
  let (nodes, operations) ←
    bindComponents resolved.nodeComponents.entries resolved.document.nodes []
  lowerActiveWiring debugText
    ⟨scope, resolved.packageVersion, { resolved.document with nodes := nodes }⟩
    ⟨scope, resolved.packageVersion, operations⟩

end

/-! ## What is preserved -/

section

variable (resolved : ResolvedActiveWiring) (nodeId : String) (node : Catalog.WiringNode)

def componentKey : String :=
  ((resolved.nodeComponents.get nodeId).map AdmittedComponent.componentDigest).getD node.component

/-- The operation of a node as a resolved component declares it. -/
def Declares (operation : AdmittedComponentOperation) : Prop :=
  ∃ owner component, resolved.nodeComponents.get owner = some component ∧
    component.componentDigest = componentKey resolved nodeId node ∧
    component.interfaceVersion = node.interfaceVersion ∧
    component.operations.get node.operation = some operation

end

/-- The port that an edge names and the operation declares, or the only one it declares. -/
def IsInputPort (operation : AdmittedComponentOperation) : Option String → String → Prop
  | some authored, port => port = authored ∧ authored ∈ operation.inputPorts
  | none, port => ∀ name, name ∈ operation.inputPorts ↔ name = port

/-- The node of the router for a node of the document. -/
def routerNode (nodeId component : String) (node : Catalog.WiringNode) : Router.WiringNode where
  id := nodeId
  component := component
  operation := node.operation
  config := .object node.params.entries
  connection := none
  terminal := node.terminal.map lowerTerminal

/-- The router's edge carries the document's edge to the input port of its target. -/
structure Carries (resolved : ResolvedActiveWiring) (edge : Catalog.WiringEdge)
    (lowered : Router.WiringEdge) : Prop where
  fromNode : lowered.fromNode = edge.fromNode
  fromPort : lowered.fromPort = edge.fromPort
  toNode : lowered.toNode = edge.toNode
  ordinal : lowered.ordinal = none
  toPort : ∃ target, resolved.document.nodes.get edge.toNode = some target ∧
    (∃ operation, Declares resolved edge.toNode target operation) ∧
    ∀ operation, Declares resolved edge.toNode target operation →
      IsInputPort operation edge.toPort lowered.toPort

/-- The graph of the router is that of the document. -/
structure Preserves (resolved : ResolvedActiveWiring) (w : Wiring) : Prop where
  entry : w.entry = resolved.document.entry
  nodes : ∀ nodeId, w.node nodeId = (resolved.document.nodes.get nodeId).map fun node =>
    routerNode nodeId (componentKey resolved nodeId node) node
  /-- The successors on a port are the document's edges that leave it, in the document's order. -/
  successors : ∀ nodeId port, List.Forall₂ (Carries resolved)
    (resolved.document.edges.filter fun edge => edge.fromNode = nodeId ∧ edge.fromPort = port)
    (w.successors nodeId port)

/-! ## Resolving operations -/

section

variable {debugText : String → String} {resolved : ResolvedActiveWiring}
  {facts : List WiringOperationFact} {fact : WiringOperationFact}

/-- The fact is about the operation that the node names. -/
def WiringOperationFact.Matches (fact : WiringOperationFact) (node : Catalog.WiringNode) : Prop :=
  fact.component = node.component ∧ fact.interfaceVersion = node.interfaceVersion ∧
    fact.operation = node.operation

/-- The fact is the only one about the operation that the node names. -/
def WiringOperationFact.Resolves (fact : WiringOperationFact) (facts : List WiringOperationFact)
    (node : Catalog.WiringNode) : Prop :=
  fact ∈ facts ∧ fact.Matches node ∧ ∀ other ∈ facts, other.Matches node → other = fact

lemma resolveOperation_eq_ok {nodeId : String} {node : Catalog.WiringNode}
    (h : resolveOperation debugText nodeId node facts = .ok fact) : fact.Resolves facts node := by
  obtain ⟨_, -, h⟩ := bind_eq_ok.1 h
  obtain ⟨_, -, h⟩ := bind_eq_ok.1 h
  -- The three filters of the source keep the facts that match in all three respects.
  have hmatches : ∀ other,
      other ∈ ((facts.filter fun fact => fact.component = node.component).filter
      fun fact => fact.interfaceVersion = node.interfaceVersion).filter
        (fun fact => fact.operation = node.operation) ↔ other ∈ facts ∧ other.Matches node := by
    intro other
    simp only [mem_filter, decide_eq_true_eq, WiringOperationFact.Matches, and_assoc]
  split at h
  · cases h
  · rename_i operation hone
    obtain rfl := pure_eq_ok.1 h
    simp only [hone, mem_singleton] at hmatches
    obtain ⟨hfact, hmatch⟩ := (hmatches operation).1 rfl
    exact ⟨hfact, hmatch, fun other hother hmatch' => (hmatches other).2 ⟨hother, hmatch'⟩⟩
  · cases h

lemma resolveTargetPort_eq_ok {nodeId port : String} {authored : Option String}
    (h : resolveTargetPort debugText nodeId authored fact = .ok port) :
    match authored with
    | some authored => port = authored ∧ authored ∈ fact.inputPorts.keys
    | none => ∀ name, name ∈ fact.inputPorts.keys ↔ name = port := by
  unfold resolveTargetPort at h
  cases authored with
  | some authored =>
    dsimp only at h
    split at h
    · rename_i hdeclared
      exact ⟨(pure_eq_ok.1 h).symm, OrdMap.isSome_get.1 hdeclared⟩
    · cases h
  | none =>
    dsimp only at h
    split at h
    · rename_i only honly
      obtain rfl := pure_eq_ok.1 h
      intro name
      rw [honly, mem_singleton]
    · cases h
    · cases h

lemma mem_keys_nameSet {name : String} {names : List String} :
    name ∈ (nameSet names).keys ↔ name ∈ names := by
  rw [nameSet, OrdMap.mem_keys_ofList, map_map]
  show name ∈ names.map id ↔ name ∈ names
  rw [map_id]

/-! ## Binding components -/

lemma mem_keyedOperations {component : AdmittedComponent} :
    fact ∈ keyedOperations component ↔ ∃ name operation,
      component.operations.get name = some operation ∧
      fact = {
        component := component.componentDigest
        interfaceVersion := component.interfaceVersion
        operation := name
        componentDigest := component.componentDigest
        inputPorts := nameSet operation.inputPorts
        outputPorts := nameSet operation.outputPorts
        parameters := .ofList (operation.parameters.map fun p => (p.name, p.required)) } := by
  unfold keyedOperations projectComponentOperations
  rw [map_map, mem_map]
  constructor
  · rintro ⟨⟨name, operation⟩, hentry, rfl⟩
    exact ⟨name, operation, OrdMap.get_eq_some.2 hentry, rfl⟩
  · rintro ⟨name, operation, hget, rfl⟩
    exact ⟨(name, operation), OrdMap.get_eq_some.1 hget, rfl⟩

lemma mem_collect {operations more : List WiringOperationFact} :
    fact ∈ collect operations more ↔ fact ∈ operations ∨ fact ∈ more := by
  unfold collect
  induction more generalizing operations with
  | nil => simp
  | cons operation more ih =>
    rw [foldl_cons, ih]
    -- A fact that is already there is not added again.
    split
    · rename_i hknown
      have hsame : fact = operation → fact ∈ operations := fun h => h ▸ hknown
      rw [mem_cons, ← or_assoc, or_iff_left_of_imp hsame]
    · rw [mem_append, mem_singleton, mem_cons, or_assoc]

/-- The key that a list of resolved components gives to a node. -/
def keyIn (components : List (String × AdmittedComponent)) (nodeId : String)
    (node : Catalog.WiringNode) : String :=
  ((components.find? fun entry => entry.1 = nodeId).map fun entry =>
    entry.2.componentDigest).getD node.component

/-- Binding gives every resolved node the key of its component, and collects the operations of
those. -/
theorem bindComponents_eq_ok {components : List (String × AdmittedComponent)}
    {nodes nodes' : OrdMap String Catalog.WiringNode}
    {operations operations' : List WiringOperationFact}
    (hnodup : (components.map Prod.fst).Nodup)
    (h : bindComponents components nodes operations = .ok (nodes', operations')) :
    nodes'.keys = nodes.keys ∧
    (∀ nodeId, nodes'.get nodeId = (nodes.get nodeId).map fun node =>
      { node with component := keyIn components nodeId node }) ∧
    ∀ fact, fact ∈ operations' ↔
      fact ∈ operations ∨ ∃ entry ∈ components, fact ∈ keyedOperations entry.2 := by
  induction components generalizing nodes operations with
  | nil =>
    obtain ⟨rfl, rfl⟩ := done_eq_ok.1 h
    refine ⟨rfl, fun nodeId => ?_, fun fact => by simp⟩
    cases nodes.get nodeId <;> rfl
  | cons entry rest ih =>
    obtain ⟨boundId, component⟩ := entry
    obtain ⟨_, -, h⟩ := bind_eq_ok.1 h
    rw [map_cons, nodup_cons] at hnodup
    obtain ⟨hkeys, hnodes, hoperations⟩ := ih hnodup.2 h
    refine ⟨hkeys.trans (OrdMap.keys_modify _), fun nodeId => ?_, fun fact => ?_⟩
    · rw [hnodes, OrdMap.get_modify, Option.map_map]
      congr 1
      funext node
      by_cases hid : nodeId = boundId
      · subst hid
        -- No later component is bound to this node.
        have hnone : rest.find? (fun entry => entry.1 = nodeId) = none := by
          rw [find?_eq_none]
          intro entry hentry hid
          exact hnodup.1 (mem_map.2 ⟨entry, hentry, by simpa using hid⟩)
        simp [keyIn, hnone]
      · simp [keyIn, hid, Ne.symm hid]
    · rw [hoperations, mem_collect, or_assoc]
      simp

end

/-! ## Lowering nodes and edges -/

section

variable {debugText : String → String} {resolved : ResolvedActiveWiring}
  {nodes : OrdMap String Catalog.WiringNode} {operations : List WiringOperationFact}
  {lowered : List (Router.WiringNode × WiringOperationFact)}

/-- What binding the components of a resolved wiring leaves for lowering. -/
structure Bound (resolved : ResolvedActiveWiring) (nodes : OrdMap String Catalog.WiringNode)
    (operations : List WiringOperationFact) : Prop where
  keys : nodes.keys = resolved.document.nodes.keys
  get : ∀ nodeId, nodes.get nodeId = (resolved.document.nodes.get nodeId).map fun node =>
    { node with component := componentKey resolved nodeId node }
  mem : ∀ fact, fact ∈ operations ↔ ∃ owner component,
    resolved.nodeComponents.get owner = some component ∧ fact ∈ keyedOperations component

lemma bound_of_bindComponents
    (h : bindComponents resolved.nodeComponents.entries resolved.document.nodes [] =
      .ok (nodes, operations)) : Bound resolved nodes operations := by
  obtain ⟨hkeys, hget, hmem⟩ := bindComponents_eq_ok resolved.nodeComponents.nodup_keys h
  refine ⟨hkeys, fun nodeId => ?_, fun fact => ?_⟩
  · rw [hget]
    congr 1
    funext node
    unfold keyIn componentKey OrdMap.get
    rw [Option.map_map]
    rfl
  · rw [hmem]
    constructor
    · rintro (h | ⟨⟨owner, component⟩, hentry, hfact⟩)
      · cases h
      · exact ⟨owner, component, OrdMap.get_eq_some.2 hentry, hfact⟩
    · rintro ⟨owner, component, hget, hfact⟩
      exact .inr ⟨(owner, component), OrdMap.get_eq_some.1 hget, hfact⟩

lemma lowerNode_eq_ok (hbound : Bound resolved nodes operations)
    {node : String × Catalog.WiringNode} {result : Router.WiringNode × WiringOperationFact}
    (h : lowerNode debugText operations node = .ok result) :
    result.1 = routerNode node.1 node.2.component node.2 ∧
      result.2.Resolves operations node.2 := by
  obtain ⟨fact, hfact, h⟩ := bind_eq_ok.1 h
  obtain ⟨_, -, h⟩ := bind_eq_ok.1 h
  obtain rfl := pure_eq_ok.1 h
  refine ⟨?_, resolveOperation_eq_ok hfact⟩
  obtain ⟨hmem, hmatch, -⟩ := resolveOperation_eq_ok hfact
  -- A collected fact names its component by the digest.
  obtain ⟨owner, component, -, hkeyed⟩ := (hbound.mem fact).1 hmem
  obtain ⟨name, operation, -, rfl⟩ := mem_keyedOperations.1 hkeyed
  obtain ⟨hcomponent, -, hoperation⟩ := hmatch
  unfold routerNode
  rw [← hcomponent, ← hoperation]

variable {edges : List Router.WiringEdge}

/-- The facts about a bound node are those that its declared operation gives. -/
theorem isInputPort_of_fact (hbound : Bound resolved nodes operations) {nodeId port : String}
    {node : Catalog.WiringNode} {authored : Option String} (hnode : nodes.get nodeId = some node)
    (hfact : fact.Resolves operations node)
    (hport : resolveTargetPort debugText nodeId authored fact = .ok port) :
    ∃ target, resolved.document.nodes.get nodeId = some target ∧
      (∃ operation, Declares resolved nodeId target operation) ∧
      ∀ operation, Declares resolved nodeId target operation →
        IsInputPort operation authored port := by
  rw [hbound.get] at hnode
  obtain ⟨target, htarget, rfl⟩ := Option.map_eq_some_iff.1 hnode
  obtain ⟨hfact, hmatch, hunique⟩ := hfact
  refine ⟨target, htarget, ?_, ?_⟩
  · obtain ⟨owner, component, hcomponent, hkeyed⟩ := (hbound.mem fact).1 hfact
    obtain ⟨name, operation, hoperation, rfl⟩ := mem_keyedOperations.1 hkeyed
    obtain ⟨hkey, hversion, rfl⟩ := hmatch
    exact ⟨operation, owner, component, hcomponent, hkey, hversion, hoperation⟩
  · rintro operation ⟨owner, component, hcomponent, hkey, hversion, hoperation⟩
    -- The declaration gives a fact about the node, and there is only this one.
    have hsame := hunique _ ((hbound.mem _).2 ⟨owner, component, hcomponent,
      mem_keyedOperations.2 ⟨target.operation, operation, hoperation, rfl⟩⟩)
      ⟨hkey, hversion, rfl⟩
    subst hsame
    have hports := resolveTargetPort_eq_ok hport
    cases authored with
    | some authored => exact ⟨hports.1, mem_keys_nameSet.1 hports.2⟩
    | none => exact fun name => mem_keys_nameSet.symm.trans (hports name)

lemma sortByOrdinal_of_none (h : ∀ edge ∈ edges, edge.ordinal = none) :
    sortByOrdinal edges = edges := by
  unfold sortByOrdinal
  refine List.Pairwise.insertionSort_eq (pairwise_of_forall_mem_list ?_)
  intro a ha b hb
  rw [h a ha, h b hb]

variable (hbound : Bound resolved nodes operations)
  (h : nodes.entries.mapM (lowerNode debugText operations) = .ok lowered)

include hbound h

lemma map_fst_lowered :
    lowered.map Prod.fst =
      nodes.entries.map fun node => routerNode node.1 node.2.component node.2 :=
  map_of_mapM h fun _ _ hnode => (lowerNode_eq_ok hbound hnode).1

lemma ids_lowered :
    (lowered.map Prod.fst).map Router.WiringNode.id = resolved.document.nodes.keys := by
  rw [map_fst_lowered hbound h, map_map, ← hbound.keys]
  rfl

lemma find_lowered (nodeId : String) :
    (lowered.map Prod.fst).find? (fun node => node.id = nodeId) =
      (resolved.document.nodes.get nodeId).map fun node =>
        routerNode nodeId (componentKey resolved nodeId node) node := by
  rw [map_fst_lowered hbound h, find?_map]
  show (nodes.entries.find? fun node => node.1 = nodeId).map _ = _
  rw [OrdMap.find?_entries, hbound.get, Option.map_map, Option.map_map]
  rfl

lemma resolvedFact_eq_ok {nodeId expected : String}
    (hfact : resolvedFact lowered nodeId expected = .ok fact) :
    ∃ node, nodes.get nodeId = some node ∧ fact.Resolves operations node := by
  unfold resolvedFact at hfact
  split at hfact
  · rename_i result hfind
    obtain rfl := pure_eq_ok.1 hfact
    have hid : result.1.id = nodeId := by simpa using find?_some hfind
    obtain ⟨⟨id, node⟩, hentry, hnode⟩ := exists_of_mem_mapM h (mem_of_find?_eq_some hfind)
    obtain ⟨hrouter, hresolves⟩ := lowerNode_eq_ok hbound hnode
    rw [hrouter] at hid
    obtain rfl : id = nodeId := hid
    exact ⟨node, OrdMap.get_eq_some.2 hentry, hresolves⟩
  · cases hfact

lemma lowerEdge_eq_ok {edge : Catalog.WiringEdge} {result : Router.WiringEdge}
    (hedge : lowerEdge debugText lowered edge = .ok result) : Carries resolved edge result := by
  obtain ⟨source, -, hedge⟩ := bind_eq_ok.1 hedge
  obtain ⟨_, -, hedge⟩ := bind_eq_ok.1 hedge
  obtain ⟨fact, hfact, hedge⟩ := bind_eq_ok.1 hedge
  obtain ⟨port, hport, hedge⟩ := bind_eq_ok.1 hedge
  obtain rfl := pure_eq_ok.1 hedge
  obtain ⟨node, hnode, hresolves⟩ := resolvedFact_eq_ok hbound h hfact
  exact ⟨rfl, rfl, rfl, rfl, isInputPort_of_fact hbound hnode hresolves hport⟩

lemma preserves_of_compile
    (hedges : resolved.document.edges.mapM (lowerEdge debugText lowered) = .ok edges) {w : Wiring}
    (hcompile : Wiring.compile resolved.document.entry (lowered.map Prod.fst) edges = .ok w) :
    Preserves resolved w := by
  obtain ⟨hentry, -, hnodes, hsuccessors⟩ := Wiring.compile_eq_ok hcompile
  have hcarries : List.Forall₂ (Carries resolved) resolved.document.edges edges :=
    (mapM_eq_ok.1 hedges).imp fun _ _ hedge => lowerEdge_eq_ok hbound h hedge
  refine ⟨hentry, fun nodeId => (hnodes nodeId).trans (find_lowered hbound h nodeId), ?_⟩
  intro nodeId port
  have hordinals : ∀ edge ∈ edges.filter (fun edge => edge.fromNode = nodeId),
      edge.ordinal = none := by
    intro edge hedge
    obtain ⟨authored, -, hlowered⟩ := exists_of_mem_mapM hedges (mem_of_mem_filter hedge)
    exact (lowerEdge_eq_ok hbound h hlowered).ordinal
  rw [hsuccessors, sortByOrdinal_of_none hordinals, filter_filter]
  refine rel_filter ?_ hcarries
  intro edge lowered hcarry
  simp [hcarry.fromNode, hcarry.fromPort, and_comm]

omit hbound h in
lemma preserves_of_lowerResolvedWiring {scope : WiringScope} {w : Wiring}
    (h : lowerResolvedWiring debugText scope resolved = .ok w) : Preserves resolved w := by
  obtain ⟨⟨nodes, operations⟩, hbind, h⟩ := bind_eq_ok.1 h
  obtain ⟨_, -, h⟩ := bind_eq_ok.1 h
  obtain ⟨lowered, hlowered, h⟩ := bind_eq_ok.1 h
  obtain ⟨edges, hedges, h⟩ := bind_eq_ok.1 h
  exact preserves_of_compile (bound_of_bindComponents hbind) hlowered hedges (mapError_eq_ok.1 h)

/-- The router accepts the nodes and edges of a valid document. -/
theorem compile_lowered_isOk
    (hedges : resolved.document.edges.mapM (lowerEdge debugText lowered) = .ok edges)
    (hentry : resolved.document.entry ∈ resolved.document.nodes.keys)
    (hends : ∀ edge ∈ resolved.document.edges, edge.fromNode ∈ resolved.document.nodes.keys ∧
      edge.toNode ∈ resolved.document.nodes.keys) :
    ∃ w, Wiring.compile resolved.document.entry (lowered.map Prod.fst) edges = .ok w := by
  -- The ids are the keys of the document's map, so none is there twice.
  have hids := ids_lowered hbound h
  refine Wiring.compile_isOk ?_ ?_ fun edge hedge => ?_
  · rw [hids]
    exact resolved.document.nodes.nodup_keys
  · rw [hids]
    exact hentry
  · obtain ⟨authored, hauthored, hcarried⟩ := exists_of_mem_mapM hedges hedge
    have hcarries := lowerEdge_eq_ok hbound h hcarried
    rw [hids, hcarries.fromNode, hcarries.toNode]
    exact hends authored hauthored

end

/-! ## Failures -/

/-- The failure is a refusal that lowering made itself. -/
def LoweringFailure.IsOwn (failure : LoweringFailure) : Prop :=
  ∃ error, failure = .refused error ∧ error.type ≠ .routerRejected

section

variable {debugText : String → String} {nodeId : String} {node : Catalog.WiringNode}
  {fact : WiringOperationFact}

lemma isOwn_refuse {type : WiringLoweringErrorType} {detail : String}
    (h : type ≠ .routerRejected) : (refuse type detail).IsOwn :=
  ⟨⟨type, detail, none⟩, rfl, h⟩

lemma raises_validateScope {active : GatedActiveWiring} {facts : ScopedWiringOperationFacts} :
    Raises LoweringFailure.IsOwn (validateScope debugText active facts) := by
  refine (raises_ensure fun _ => isOwn_refuse ?_).bind fun _ _ =>
    raises_ensure fun _ => isOwn_refuse ?_
  all_goals decide

lemma raises_resolveOperation :
    Raises LoweringFailure.IsOwn (resolveOperation debugText nodeId node facts) := by
  refine (raises_ensure fun _ => isOwn_refuse (by decide)).bind fun _ _ => ?_
  refine (raises_ensure fun _ => isOwn_refuse (by decide)).bind fun _ _ => ?_
  split
  · exact raises_throw (isOwn_refuse (by decide))
  · exact raises_pure _
  · exact raises_throw (isOwn_refuse (by decide))

lemma raises_validateParameters :
    Raises LoweringFailure.IsOwn (validateParameters debugText nodeId node fact) := by
  unfold validateParameters
  split
  · exact raises_throw (isOwn_refuse (by decide))
  · split
    · exact raises_throw (isOwn_refuse (by decide))
    · exact raises_pure _

lemma raises_resolveTargetPort {authored : Option String} :
    Raises LoweringFailure.IsOwn (resolveTargetPort debugText nodeId authored fact) := by
  unfold resolveTargetPort
  cases authored with
  | some port =>
    dsimp only
    split
    · exact raises_pure _
    · exact raises_throw (isOwn_refuse (by decide))
  | none =>
    dsimp only
    split
    · exact raises_pure _
    · exact raises_throw (isOwn_refuse (by decide))
    · exact raises_throw (isOwn_refuse (by decide))

lemma raises_lowerNode {node : String × Catalog.WiringNode} :
    Raises LoweringFailure.IsOwn (lowerNode debugText facts node) := by
  refine raises_resolveOperation.bind fun _ _ => ?_
  exact raises_validateParameters.bind fun _ _ => raises_pure _

lemma raises_resolvedFact {lowered : List (Router.WiringNode × WiringOperationFact)}
    {expected : String} {P : LoweringFailure → Prop}
    (h : nodeId ∈ (lowered.map Prod.fst).map Router.WiringNode.id) :
    Raises P (resolvedFact lowered nodeId expected) := by
  unfold resolvedFact
  split
  · exact raises_pure _
  · rename_i hnone
    rw [map_map] at h
    obtain ⟨result, hresult, hid⟩ := mem_map.1 h
    have hother := find?_eq_none.1 hnone result hresult
    simp only [decide_eq_true_eq] at hother
    exact absurd hid hother

lemma raises_lowerEdge {lowered : List (Router.WiringNode × WiringOperationFact)}
    {edge : Catalog.WiringEdge}
    (hfrom : edge.fromNode ∈ (lowered.map Prod.fst).map Router.WiringNode.id)
    (hto : edge.toNode ∈ (lowered.map Prod.fst).map Router.WiringNode.id) :
    Raises LoweringFailure.IsOwn (lowerEdge debugText lowered edge) := by
  refine (raises_resolvedFact hfrom).bind fun _ _ => ?_
  refine (raises_ensure fun _ => isOwn_refuse (by decide)).bind fun _ _ => ?_
  refine (raises_resolvedFact hto).bind fun _ _ => ?_
  exact raises_resolveTargetPort.bind fun _ _ => raises_pure _

lemma raises_bindComponents {components : List (String × AdmittedComponent)}
    {nodes : OrdMap String Catalog.WiringNode} {operations : List WiringOperationFact} :
    Raises (fun failure => failure = foreignNode ∧ ∃ entry ∈ components, entry.1 ∉ nodes.keys)
      (bindComponents components nodes operations) := by
  induction components generalizing nodes operations with
  | nil => exact raises_pure _
  | cons entry rest ih =>
    obtain ⟨boundId, component⟩ := entry
    refine Raises.bind (raises_ensure fun hmissing => ?_) fun _ _ failure hfailure => ?_
    · refine ⟨rfl, (boundId, component), mem_cons_self, fun hmem => ?_⟩
      rw [OrdMap.isSome_get.2 hmem] at hmissing
      cases hmissing
    · obtain ⟨hforeign, entry, hentry, hmissing⟩ := ih failure hfailure
      rw [OrdMap.keys_modify] at hmissing
      exact ⟨hforeign, entry, mem_cons_of_mem _ hentry, hmissing⟩

end

/-- **Lowering preserves the graph.** For every valid document and resolution of its nodes: a wiring
that lowering builds has the entry, the nodes and, on every port, the edges of the document in its
order. If lowering fails, it refuses the wiring itself, before the router sees it, or it panics on a
component that was resolved for a node that the document does not have. -/
theorem lowering_preserves_graph {library : Catalog.Library} {debugText : String → String}
    {scope : WiringScope} {resolved : ResolvedActiveWiring}
    (hvalid : resolved.document.validate library = .ok ()) :
    (∀ w, lowerResolvedWiring debugText scope resolved = .ok w → Preserves resolved w) ∧
      ∀ failure, lowerResolvedWiring debugText scope resolved = .error failure →
        failure.IsOwn ∨ failure = foreignNode ∧
          ∃ nodeId ∈ resolved.nodeComponents.keys, nodeId ∉ resolved.document.nodes.keys := by
  obtain ⟨hentry, hends⟩ := WiringDocument.validate_eq_ok hvalid
  refine ⟨fun w => preserves_of_lowerResolvedWiring, ?_⟩
  -- A failure is traced to the first stage that raises it.
  refine Raises.bind ?_ ?_
  · intro failure hfailure
    obtain ⟨hforeign, entry, hentry, hmissing⟩ := raises_bindComponents failure hfailure
    exact .inr ⟨hforeign, entry.1, mem_map_of_mem hentry, hmissing⟩
  · rintro ⟨nodes, operations⟩ hbind failure hfailure
    refine .inl (Raises.bind (P := LoweringFailure.IsOwn) raises_validateScope ?_ failure hfailure)
    intro _ _
    refine (raises_mapM fun _ _ => raises_lowerNode).bind fun lowered hlowered => ?_
    have hbound := bound_of_bindComponents hbind
    have hids := ids_lowered hbound hlowered
    refine (raises_mapM fun edge hedge => ?_).bind fun edges hedges => ?_
    · obtain ⟨hfrom, hto⟩ := hends edge hedge
      exact raises_lowerEdge (by rwa [hids]) (by rwa [hids])
    · -- A refusal of the router would not be lowering's own, but there is none.
      obtain ⟨w, hw⟩ := compile_lowered_isOk hbound hlowered hedges hentry hends
      intro failure hfailure
      dsimp only at hfailure
      rw [hw] at hfailure
      cases hfailure

namespace Sample

def node (component : String) (terminal : Option WiringTerminal) : Catalog.WiringNode where
  component := component
  interfaceVersion := "0.1.0"
  operation := "run"
  operationDependency := none
  params := .empty
  terminal := terminal

def component (name digest input : String) : AdmittedComponent where
  component := name
  interfaceVersion := "0.1.0"
  operations := .ofList [("run", ⟨[input], ["main"], []⟩)]
  componentDigest := digest

def document : WiringDocument where
  formatVersion := "0.1"
  wiringId := "orders"
  version := 1
  entry := "in"
  nodes := .ofList [("in", node "http" none), ("out", node "answer" (some .respond))]
  edges := [⟨"in", "error", "out", some "body"⟩, ⟨"in", "main", "out", none⟩]
  cases := []
  response := none

def resolved : ResolvedActiveWiring where
  packageVersion := "1.0.0"
  document := document
  nodeComponents := .ofList [("in", component "http" "sha256:1" "request"),
    ("out", component "answer" "sha256:2" "body")]

def library : Catalog.Library := ⟨id, fun _ => .ok ()⟩

def scope : WiringScope := ⟨"key", "shop", "live"⟩

/-- The wiring is lowered, and its normal edge goes to the only input of its target. -/
theorem resolved_preserves : ∃ w, lowerResolvedWiring id scope resolved = .ok w ∧
    Preserves resolved w ∧ w.successors "in" "main" = [⟨"in", "main", "out", "body", none⟩] := by
  have hvalid : resolved.document.validate library = .ok () := by decide +kernel
  have hsuccessors : (lowerResolvedWiring id scope resolved).map
      (fun w => w.successors "in" "main") = .ok [⟨"in", "main", "out", "body", none⟩] := by
    decide +kernel
  cases hlowered : lowerResolvedWiring id scope resolved with
  | error failure =>
    rw [hlowered] at hsuccessors
    cases hsuccessors
  | ok w =>
    rw [hlowered] at hsuccessors
    exact ⟨w, rfl, (lowering_preserves_graph hvalid).1 w hlowered, Except.ok.inj hsuccessors⟩

end Sample

/-! ## Runs of a lowered wiring -/

section

variable {resolved : ResolvedActiveWiring} {w : Wiring} (lib : Router.Library)
  {delivery : Delivery} (invoker : NodeInvoker) {r : Routing}

/-- The call is of a node of the document, on the component resolved for it. -/
def Authored (resolved : ResolvedActiveWiring) (call : NodeCall) : Prop :=
  ∃ node, resolved.document.nodes.get call.node = some node ∧
    call.component = componentKey resolved call.node node ∧
    call.operation = node.operation ∧ call.config = .object node.params.entries

/-- An edge of the document carries what a visit emitted to a later one. -/
def Follows (resolved : ResolvedActiveWiring) (earlier later : Visit) : Prop :=
  ∃ edge ∈ resolved.document.edges, ∃ lowered, Carries resolved edge lowered ∧
    edge.fromNode = earlier.call.node ∧ edge.fromPort = earlier.port ∧
    later.token = ⟨edge.toNode, some lowered.toPort, earlier.payload⟩

lemma follows_of_spawned (hw : Preserves resolved w) {u v : Visit} (h : v.token ∈ u.spawned w) :
    Follows resolved u v := by
  obtain ⟨lowered, hlowered, htoken⟩ := mem_map.1 h
  obtain ⟨i, hi, rfl⟩ := mem_iff_getElem.1 hlowered
  -- The document's edges on a port stand where those of the router do.
  obtain ⟨hlength, hcarries⟩ := forall₂_iff_get.1 (hw.successors u.call.node u.port)
  have hcarries := hcarries i (hlength.symm ▸ hi) hi
  obtain ⟨hedge, hleaves⟩ := mem_filter.1 (get_mem _ ⟨i, hlength.symm ▸ hi⟩)
  obtain ⟨hnode, hport⟩ := of_decide_eq_true hleaves
  refine ⟨_, hedge, _, hcarries, hnode, hport, ?_⟩
  rw [← htoken, ← hcarries.toNode]
  rfl

lemma authored_of_iterates (hw : Preserves resolved w)
    (hr : Iterates (turn lib w invoker) (Routing.start w delivery) r) {call : NodeCall}
    {outcome : NodeOutcome} (h : .invoked call outcome ∈ r.history) : Authored resolved call := by
  induction hr with
  | refl => cases h
  | tail hprev hturn ih =>
    obtain ⟨result, hresult, hturns⟩ :=
      turn_spec lib invoker (accounted_of_iterates hprev).valid
    obtain rfl := Except.ok.inj (hresult.symm.trans hturn)
    cases hturns with
    | waited => exact ih (by simpa using h)
    | invoked a node outcome walk appliedMs invokes =>
      -- The call is an old one, or this turn makes it for a node that the wiring has.
      rcases mem_append.1 h with hold | hnew
      · exact ih hold
      · obtain ⟨rfl, -⟩ : call = Wiring.nodeCall _ a node ∧ _ = _ := by simpa using hnew
        have hfound := invokes.found
        rw [hw.nodes] at hfound
        obtain ⟨authored, hget, rfl⟩ := Option.map_eq_some_iff.1 hfound
        exact ⟨authored, hget, rfl, rfl, rfl⟩

/-- **A wiring runs as its document says.** In every run of a lowered wiring, each invocation is of
a node of the document, with its operation and parameters. The first visit is of the entry with the
delivery's payload, and each other one takes what an earlier one emitted, along an edge of the
document. -/
theorem runs_as_authored {debugText : String → String} {scope : WiringScope}
    (h : lowerResolvedWiring debugText scope resolved = .ok w)
    (hr : Iterates (turn lib w invoker) (Routing.start w delivery) r) :
    (∀ call outcome, .invoked call outcome ∈ r.history → Authored resolved call) ∧
    ∀ pre v post, visits lib w delivery r.history = pre ++ v :: post →
      (pre = [] ∧ v.token = ⟨resolved.document.entry, none, delivery.payload⟩) ∨
        ∃ u ∈ pre, Follows resolved u v := by
  have hw := preserves_of_lowerResolvedWiring h
  refine ⟨fun call outcome => authored_of_iterates lib invoker hw hr, fun pre v post hsplit => ?_⟩
  obtain ⟨rest, hnext⟩ := (accounted_of_iterates hr).fifo.next pre v post hsplit
  cases pre with
  | nil =>
    obtain ⟨hentry, -⟩ := List.cons.inj hnext
    exact .inl ⟨rfl, by rw [← hentry, entryToken, hw.entry]⟩
  | cons first pre =>
    -- The entry is taken, so the token was spawned by one of the visits before.
    obtain ⟨-, htaken⟩ := List.cons.inj hnext
    have hspawned : v.token ∈ (first :: pre).flatMap (Visit.spawned w) := by
      rw [htaken]
      simp
    obtain ⟨u, hu, hspawned⟩ := mem_flatMap.1 hspawned
    exact .inr ⟨u, hu, follows_of_spawned hw hspawned⟩

end

/-- The entry is invoked, waited for and invoked again, and the answer takes what it emitted. -/
theorem Sample.invocations_authored : ∃ w r first second,
    lowerResolvedWiring id scope resolved = .ok w ∧
    Iterates (turn ⟨id, fun _ _ _ => none⟩ w Router.Sample.retryOnce)
      (Routing.start w ⟨"d", .bool true, true⟩) r ∧
    invocations r.history = 3 ∧
    (∀ call outcome, .invoked call outcome ∈ r.history → Authored resolved call) ∧
    visits ⟨id, fun _ _ _ => none⟩ w ⟨"d", .bool true, true⟩ r.history = [first, second] ∧
    first.token = ⟨"in", none, .bool true⟩ ∧ Follows resolved first second ∧
    second.token = ⟨"out", some "body", .null⟩ := by
  have hrun : ∃ w r first second, lowerResolvedWiring id scope resolved = .ok w ∧
      Iterates (turn ⟨id, fun _ _ _ => none⟩ w Router.Sample.retryOnce)
        (Routing.start w ⟨"d", .bool true, true⟩) r ∧ invocations r.history = 3 ∧
      visits ⟨id, fun _ _ _ => none⟩ w ⟨"d", .bool true, true⟩ r.history = [first, second] ∧
      second.token = ⟨"out", some "body", .null⟩ :=
    ⟨_, _, _, _, rfl, .tail (.tail (.tail (.tail .refl rfl) rfl) rfl) rfl, rfl, rfl, rfl⟩
  obtain ⟨w, r, first, second, hlowered, hr, hcalls, hvisits, htoken⟩ := hrun
  obtain ⟨hauthored, htaken⟩ := runs_as_authored _ _ hlowered hr
  have hentry := (htaken [] first [second] hvisits).resolve_right fun ⟨_, hu, _⟩ => nomatch hu
  obtain ⟨u, hu, hfollows⟩ :=
    (htaken [first] second [] hvisits).resolve_left fun ⟨hnil, _⟩ => nomatch hnil
  obtain rfl := mem_singleton.1 hu
  exact ⟨w, r, u, second, hlowered, hr, hcalls, hauthored, hvisits, hentry.2, hfollows, htoken⟩

end Wamn.Workflow.Lowering
