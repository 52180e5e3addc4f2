import Workflow.Flow.Kind
import Workflow.Json.Basic

/-!
# Flows

A flow is a snapshot of what the editor shows: steps as nodes, and the edges that
lead from step to step. Nodes and edges carry further members that the editor put
there; these travel along untouched.

The identity of a node is its text. Nothing forces identities to be distinct or
edges to end at nodes; a look-up takes the first node that fits, and the edges of
an identity are listed in the order of the flow.

## Main definitions

* `Content`, `Node`, `Edge`, `Flow` — the data of a flow
* `Node.isHead`, `Node.isMerge` — the two roles of a node in block matching
* `Flow.node?`, `Flow.edgesFrom`, `Flow.edgesTo`, `Flow.children`, `Flow.parents` — look-ups

A flow may hold a node that is head and merge at once: a join that was filled
with a block.
-/

namespace Workflow

/-- The identity of a node. -/
abbrev NodeId := String

/-- What a node shows and which part it plays. `mergeNodeId` remembers, on a block
head, the merge that closes the block. -/
structure Content where
  label : Option String := none
  subLabel : Option String := none
  params : Option Json.Members := none
  isPlaceholder : Bool := false
  isBranchPlaceholder : Bool := false
  isMergePlaceholder : Bool := false
  isMergeNode : Bool := false
  mergeNodeId : Option NodeId := none
  extras : Json.Members := []
  deriving DecidableEq, Inhabited, Repr

/-- A step of a flow. -/
structure Node where
  id : NodeId
  kind : Option String := none
  content : Content := {}
  extras : Json.Members := []
  deriving DecidableEq, Inhabited, Repr

/-- A connection from one step to the next. `branch` names the branch of a block
head that starts here. -/
structure Edge where
  id : Option String := none
  source : NodeId
  target : NodeId
  branch : Option String := none
  extras : Json.Members := []
  deriving DecidableEq, Inhabited, Repr

/-- A snapshot of a flow. -/
structure Flow where
  flowId : Option String := none
  nodes : List Node := []
  edges : List Edge := []
  deriving DecidableEq, Inhabited, Repr

namespace Node

/-- The block kind of a node that opens a block. -/
def blockKind? (node : Node) : Option BlockKind := node.kind.bind BlockKind.ofName?

/-- A node that opens a block. -/
def isHead (node : Node) : Bool := node.blockKind?.isSome

/-- A node at which branches come together again, whatever its kind. -/
def isMerge (node : Node) : Bool :=
  node.content.isMergePlaceholder || node.content.isMergeNode

/-- The node with its content changed. -/
def mapContent (change : Content → Content) (node : Node) : Node :=
  { node with content := change node.content }

@[simp] theorem id_mapContent (change : Content → Content) (node : Node) :
    (node.mapContent change).id = node.id := rfl

@[simp] theorem kind_mapContent (change : Content → Content) (node : Node) :
    (node.mapContent change).kind = node.kind := rfl

end Node

namespace Edge

/-- Whether an edge starts or ends at a node. -/
def touches (edge : Edge) (id : NodeId) : Bool := edge.source = id || edge.target = id

end Edge

namespace Flow

variable {flow : Flow} {id : NodeId} {node : Node} {edge : Edge}

/-- The first node with the given identity. -/
def node? (flow : Flow) (id : NodeId) : Option Node := flow.nodes.find? (·.id = id)

/-- The identities of the nodes, in order. -/
def ids (flow : Flow) : List NodeId := flow.nodes.map (·.id)

/-- Whether the flow has a node with the given identity. -/
def has (flow : Flow) (id : NodeId) : Bool := (flow.node? id).isSome

/-- The edges that leave a node, in order. -/
def edgesFrom (flow : Flow) (id : NodeId) : List Edge := flow.edges.filter (·.source = id)

/-- The edges that enter a node, in order. -/
def edgesTo (flow : Flow) (id : NodeId) : List Edge := flow.edges.filter (·.target = id)

/-- Where the edges that leave a node lead, in order. -/
def children (flow : Flow) (id : NodeId) : List NodeId := (flow.edgesFrom id).map (·.target)

/-- Where the edges that enter a node come from, in order. -/
def parents (flow : Flow) (id : NodeId) : List NodeId := (flow.edgesTo id).map (·.source)

/-- Whether the given identity names a block head. -/
def isHead (flow : Flow) (id : NodeId) : Bool := (flow.node? id).any Node.isHead

/-- Whether the given identity names a merge. -/
def isMerge (flow : Flow) (id : NodeId) : Bool := (flow.node? id).any Node.isMerge

/-- The flow with one node replaced, wherever its identity occurs. -/
def withNode (flow : Flow) (node : Node) : Flow :=
  { flow with nodes := flow.nodes.map fun other => if other.id = node.id then node else other }

theorem id_of_node?_eq_some (h : flow.node? id = some node) : node.id = id := by
  simpa using List.find?_some h

theorem mem_of_node?_eq_some (h : flow.node? id = some node) : node ∈ flow.nodes :=
  List.mem_of_find?_eq_some h

theorem has_iff_mem_ids : flow.has id = true ↔ id ∈ flow.ids := by
  simp [has, node?, ids]

@[simp] theorem mem_edgesFrom : edge ∈ flow.edgesFrom id ↔ edge ∈ flow.edges ∧ edge.source = id := by
  simp [edgesFrom]

@[simp] theorem mem_edgesTo : edge ∈ flow.edgesTo id ↔ edge ∈ flow.edges ∧ edge.target = id := by
  simp [edgesTo]

theorem mem_children {child : NodeId} : child ∈ flow.children id ↔
    ∃ edge ∈ flow.edges, edge.source = id ∧ edge.target = child := by
  simp [children, and_assoc]

theorem mem_parents {parent : NodeId} : parent ∈ flow.parents id ↔
    ∃ edge ∈ flow.edges, edge.target = id ∧ edge.source = parent := by
  simp [parents, and_assoc]

@[simp] theorem ids_withNode (flow : Flow) (node : Node) : (flow.withNode node).ids = flow.ids := by
  simp only [ids, withNode, List.map_map]
  refine List.map_congr_left fun other _ => ?_
  by_cases h : other.id = node.id <;> simp [h]

@[simp] theorem edges_withNode (flow : Flow) (node : Node) :
    (flow.withNode node).edges = flow.edges := rfl

end Flow

end Workflow
