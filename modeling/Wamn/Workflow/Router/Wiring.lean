import Mathlib.Data.List.Sort
import Mathlib.Logic.Function.Basic
import Wamn.Lib.Transaction
import Wamn.Workflow.Router.Outcome

/-!
# Resolved wirings

A wiring is a graph indexed for the walk. `compile` checks that node ids are unique, and that the
entry and both ends of every edge resolve; a `Wiring` carries what a walk needs of that. Edges of
one port are walked by ordinal; the sort is stable and an absent ordinal counts as zero.
-/

namespace Wamn.Workflow.Router

open List Lib Lib.Json Function

def defaultHopLimit : ℕ := 10000

/-- One node of a wiring: an operation of a component with its configuration. -/
structure WiringNode where
  id : String
  component : String
  operation : String
  config : Value
  connection : Option String
  terminal : Option Terminal
  deriving DecidableEq

/-- One directed edge, from a port of a node to an input of another. -/
structure WiringEdge where
  fromNode : String
  fromPort : String
  toNode : String
  toPort : String
  ordinal : Option ℕ
  deriving DecidableEq

inductive WiringError where
  | duplicateNode (id : String)
  | unresolvedEntry (id : String)
  | unresolvedEndpoint (fromNode endpoint : String)
  deriving DecidableEq

/-- A resolved wiring: its nodes by id and its edges by the node they leave. -/
structure Wiring where
  entry : String
  byId : String → Option WiringNode
  out : String → List WiringEdge
  hopLimit : ℕ
  entry_mem : (byId entry).isSome = true
  target_mem : ∀ node, ∀ edge ∈ out node, (byId edge.toNode).isSome = true

/-! ## Compilation -/

/-- Index the nodes by id, refusing the second node of an id. -/
def indexNodes : List WiringNode → (String → Option WiringNode) →
    Except WiringError (String → Option WiringNode)
  | [], byId => pure byId
  | node :: rest, byId => do
    ensure (byId node.id).isNone (.duplicateNode node.id)
    indexNodes rest (update byId node.id (some node))

/-- The edges by the node they leave, if all ends resolve. -/
def groupEdges (byId : String → Option WiringNode) :
    List WiringEdge → (String → List WiringEdge) → Except WiringError (String → List WiringEdge)
  | [], out => pure out
  | edge :: rest, out => do
    ensure (byId edge.fromNode).isSome (.unresolvedEndpoint edge.fromNode edge.fromNode)
    ensure (byId edge.toNode).isSome (.unresolvedEndpoint edge.fromNode edge.toNode)
    groupEdges byId rest (update out edge.fromNode (out edge.fromNode ++ [edge]))

/-- The edges of one node by ordinal, in the order they were given where ordinals agree. -/
def sortByOrdinal (edges : List WiringEdge) : List WiringEdge :=
  edges.insertionSort fun a b => a.ordinal.getD 0 ≤ b.ordinal.getD 0

variable {nodes : List WiringNode} {byId : String → Option WiringNode} {edges : List WiringEdge}

lemma indexNodes_eq_ok {byId' : String → Option WiringNode}
    (h : indexNodes nodes byId = .ok byId') :
    (nodes.map WiringNode.id).Nodup ∧ (∀ node ∈ nodes, byId node.id = none) ∧
      ∀ id, byId' id = (nodes.find? fun node => node.id = id).or (byId id) := by
  induction nodes generalizing byId with
  | nil =>
    obtain rfl := pure_eq_ok.1 h
    simp
  | cons node rest ih =>
    obtain ⟨_, hfresh, h⟩ := bind_eq_ok.1 h
    have hfresh : byId node.id = none := Option.isNone_iff_eq_none.1 (ensure_eq_ok.1 hfresh)
    obtain ⟨hnodup, hunused, hindexed⟩ := ih h
    -- No later node has this id: it would have been refused.
    have hother : ∀ later ∈ rest, later.id ≠ node.id := by
      intro later hlater hid
      have hnone := hunused later hlater
      rw [hid, update_self] at hnone
      cases hnone
    refine ⟨?_, ?_, fun id => ?_⟩
    · rw [map_cons, nodup_cons]
      refine ⟨fun hmem => ?_, hnodup⟩
      obtain ⟨later, hlater, hid⟩ := mem_map.1 hmem
      exact hother later hlater hid
    · intro node' hmem
      rcases mem_cons.1 hmem with rfl | hmem
      · exact hfresh
      · have hnone := hunused node' hmem
        rwa [update_of_ne (hother node' hmem)] at hnone
    · rw [hindexed id, find?_cons, update_apply]
      by_cases hid : id = node.id
      · subst hid
        have hnone : rest.find? (fun later => later.id = node.id) = none := by
          rw [find?_eq_none]
          intro later hlater
          simpa using hother later hlater
        simp [hnone]
      · simp [hid, Ne.symm hid]

lemma indexNodes_isOk (byId : String → Option WiringNode)
    (hnodup : (nodes.map WiringNode.id).Nodup) (hunused : ∀ node ∈ nodes, byId node.id = none) :
    ∃ byId', indexNodes nodes byId = .ok byId' := by
  induction nodes generalizing byId with
  | nil => exact ⟨byId, rfl⟩
  | cons node rest ih =>
    rw [map_cons, nodup_cons] at hnodup
    have hfresh : byId node.id = none := hunused node mem_cons_self
    obtain ⟨byId', hbyId'⟩ := ih (update byId node.id (some node)) hnodup.2 (by
      intro later hlater
      have hne : later.id ≠ node.id := fun hid =>
        hnodup.1 (hid ▸ mem_map_of_mem hlater)
      rw [update_of_ne hne]
      exact hunused later (mem_cons_of_mem _ hlater))
    refine ⟨byId', bind_eq_ok.2 ⟨(), ?_, hbyId'⟩⟩
    rw [ensure_eq_ok, hfresh]
    rfl

/-- Every grouped edge has ends that resolve and stands in the group of its source, in order. -/
theorem groupEdges_eq_ok {out out' : String → List WiringEdge}
    (h : groupEdges byId edges out = .ok out') :
    (∀ edge ∈ edges, (byId edge.fromNode).isSome = true ∧ (byId edge.toNode).isSome = true) ∧
      ∀ node, out' node = out node ++ edges.filter fun edge => edge.fromNode = node := by
  induction edges generalizing out with
  | nil =>
    obtain rfl := pure_eq_ok.1 h
    simp
  | cons edge rest ih =>
    obtain ⟨_, hfrom, h⟩ := bind_eq_ok.1 h
    obtain ⟨_, hto, h⟩ := bind_eq_ok.1 h
    obtain ⟨hresolved, hgrouped⟩ := ih h
    refine ⟨?_, fun node => ?_⟩
    · intro edge' hmem
      rcases mem_cons.1 hmem with rfl | hmem
      · exact ⟨ensure_eq_ok.1 hfrom, ensure_eq_ok.1 hto⟩
      · exact hresolved edge' hmem
    · rw [hgrouped node, update_apply]
      by_cases hnode : node = edge.fromNode
      · simp [hnode]
      · simp [hnode, Ne.symm hnode]

lemma groupEdges_isOk
    (h : ∀ edge ∈ edges, (byId edge.fromNode).isSome = true ∧ (byId edge.toNode).isSome = true)
    (out : String → List WiringEdge) : ∃ out', groupEdges byId edges out = .ok out' := by
  induction edges generalizing out with
  | nil => exact ⟨out, rfl⟩
  | cons edge rest ih =>
    obtain ⟨hfrom, hto⟩ := h edge mem_cons_self
    obtain ⟨out', hout'⟩ := ih (fun edge' hmem => h edge' (mem_cons_of_mem _ hmem))
      (update out edge.fromNode (out edge.fromNode ++ [edge]))
    refine ⟨out', bind_eq_ok.2 ⟨(), ensure_eq_ok.2 hfrom, ?_⟩⟩
    exact bind_eq_ok.2 ⟨(), ensure_eq_ok.2 hto, hout'⟩

namespace Wiring

/-- Index a wiring and check what the walk relies on. -/
def compile (entry : String) (nodes : List WiringNode) (edges : List WiringEdge) :
    Except WiringError Wiring :=
  match indexNodes nodes fun _ => none with
  | .error e => .error e
  | .ok byId =>
    if hentry : (byId entry).isSome = true then
      match hout : groupEdges byId edges fun _ => [] with
      | .error e => .error e
      | .ok out => .ok {
          entry := entry
          byId := byId
          out := fun node => sortByOrdinal (out node)
          hopLimit := defaultHopLimit
          entry_mem := hentry
          target_mem := by
            intro node edge hedge
            obtain ⟨hresolved, hgrouped⟩ := groupEdges_eq_ok hout
            rw [sortByOrdinal, mem_insertionSort, hgrouped node] at hedge
            exact (hresolved edge (mem_of_mem_filter hedge)).2 }
    else .error (.unresolvedEntry entry)

def node (w : Wiring) (id : String) : Option WiringNode := w.byId id

/-- The edges leaving a node on a port, in the order in which they are walked. -/
def successors (w : Wiring) (node port : String) : List WiringEdge :=
  (w.out node).filter fun edge => edge.fromPort = port

variable {nodes : List WiringNode} {edges : List WiringEdge}

/-- A compiled wiring looks its nodes up by id and routes a port along its edges, ordinal by
ordinal. -/
theorem compile_eq_ok {entry : String} {w : Wiring} (h : compile entry nodes edges = .ok w) :
    w.entry = entry ∧ w.hopLimit = defaultHopLimit ∧
      (∀ id, w.node id = nodes.find? fun node => node.id = id) ∧
      ∀ node port, w.successors node port =
        (sortByOrdinal (edges.filter fun edge => edge.fromNode = node)).filter
          fun edge => edge.fromPort = port := by
  unfold compile at h
  split at h
  · cases h
  · rename_i byId hindex
    split at h
    · split at h
      · cases h
      · rename_i out hout
        obtain rfl := Except.ok.inj h
        obtain ⟨-, -, hindexed⟩ := indexNodes_eq_ok hindex
        obtain ⟨-, hgrouped⟩ := groupEdges_eq_ok hout
        refine ⟨rfl, rfl, fun id => ?_, fun node port => ?_⟩
        · exact (hindexed id).trans (Option.or_none ..)
        · have hgroup : out node = edges.filter fun edge => edge.fromNode = node := hgrouped node
          rw [← hgroup]
          rfl
    · cases h

/-- Unique ids, an entry that resolves and ends that resolve are all that `compile` asks for. -/
theorem compile_isOk {entry : String} (hnodup : (nodes.map WiringNode.id).Nodup)
    (hentry : entry ∈ nodes.map WiringNode.id)
    (hedges : ∀ edge ∈ edges, edge.fromNode ∈ nodes.map WiringNode.id ∧
      edge.toNode ∈ nodes.map WiringNode.id) : ∃ w, compile entry nodes edges = .ok w := by
  obtain ⟨byId, hindex⟩ := indexNodes_isOk (fun _ => none) hnodup fun _ _ => rfl
  obtain ⟨-, -, hindexed⟩ := indexNodes_eq_ok hindex
  have hresolves : ∀ id, id ∈ nodes.map WiringNode.id → (byId id).isSome = true := by
    intro id hid
    obtain ⟨node, hnode, rfl⟩ := mem_map.1 hid
    rw [hindexed, Option.or_none, find?_isSome]
    exact ⟨node, hnode, by simp⟩
  have hends : ∀ edge ∈ edges,
      (byId edge.fromNode).isSome = true ∧ (byId edge.toNode).isSome = true :=
    fun edge hedge => ⟨hresolves _ (hedges edge hedge).1, hresolves _ (hedges edge hedge).2⟩
  obtain ⟨out, hout⟩ := groupEdges_isOk hends fun _ => []
  unfold compile
  split
  · rename_i e herror
    rw [hindex] at herror
    cases herror
  · rename_i byId' hindex'
    obtain rfl := Except.ok.inj (hindex.symm.trans hindex')
    rw [dif_pos (hresolves entry hentry)]
    split
    · rename_i e herror
      rw [hout] at herror
      cases herror
    · exact ⟨_, rfl⟩

lemma isSome_node_of_mem_successors {w : Wiring} {node port : String} {edge : WiringEdge}
    (h : edge ∈ w.successors node port) : (w.node edge.toNode).isSome = true :=
  w.target_mem node edge (mem_of_mem_filter h)

end Wiring

end Wamn.Workflow.Router
