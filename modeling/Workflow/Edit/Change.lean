import Workflow.Edit.Placeholder
import Workflow.Edit.Refusal
import Workflow.Edit.Supply

/-!
# The result of an edit

An edit takes parts out of a flow, puts parts in, and settles the rest: a head
that names a merge goes on to name it if it is still there, names its successor
if the merge handed its role on, and else names none.

## Main definitions

* `Patch` — nodes and edges to put in
* `Flow.without`, `Flow.append` — take nodes out, put a patch in
* `Flow.settle` — mends the merges that heads name
* `Change`, `Plan` — a result, and the computation that makes it unless it is refused
-/

namespace Workflow

/-- Nodes and edges to put into a flow. -/
structure Patch where
  nodes : List Node := []
  edges : List Edge := []
  deriving DecidableEq, Inhabited, Repr

namespace Patch

/-- One patch after another. -/
def append (first second : Patch) : Patch :=
  ⟨first.nodes ++ second.nodes, first.edges ++ second.edges⟩

end Patch

/-- Sends one identity to another, which takes over its role, and keeps the rest. -/
def handOver (before after : NodeId) (id : NodeId) : NodeId := if id = before then after else id

@[simp] theorem handOver_self (before after : NodeId) : handOver before after before = after :=
  if_pos rfl

@[simp] theorem handOver_heir (before after : NodeId) : handOver before after after = after :=
  ite_self after

theorem handOver_of_ne {before after id : NodeId} (apart : id ≠ before) :
    handOver before after id = id := if_neg apart

/-- A role that one node handed to another, and that to a third, went from the first to the third. -/
theorem handOver_handOver {before between after id : NodeId} (apart : id ≠ between) :
    handOver between after (handOver before between id) = handOver before after id := by
  by_cases same : id = before
  · rw [same, handOver_self, handOver_self, handOver_self]
  · rw [handOver_of_ne same, handOver_of_ne same, handOver_of_ne apart]

/-- The node with the merge it names mended: `rename` says who took over the role of
a merge, and only a node in `alive` may be named. -/
def Node.settle (rename : NodeId → NodeId) (alive : List NodeId) (node : Node) : Node :=
  node.mapContent fun content =>
    content.withMerge ((content.mergeNodeId.map rename).filter (· ∈ alive))

@[simp] theorem Node.id_settle (rename : NodeId → NodeId) (alive : List NodeId) (node : Node) :
    (node.settle rename alive).id = node.id := rfl

namespace Flow

/-- The flow without the given nodes and the edges that touch them. -/
def without (flow : Flow) (removed : List NodeId) : Flow :=
  { flow with
    nodes := flow.nodes.filter (·.id ∉ removed)
    edges := flow.edges.filter fun edge => edge.source ∉ removed ∧ edge.target ∉ removed }

/-- The flow with a patch put in at the end. -/
def append (flow : Flow) (patch : Patch) : Flow :=
  { flow with nodes := flow.nodes ++ patch.nodes, edges := flow.edges ++ patch.edges }

/-- The flow with the merges mended that its nodes name. -/
def settle (flow : Flow) (rename : NodeId → NodeId) : Flow :=
  { flow with nodes := flow.nodes.map (Node.settle rename flow.ids) }

/-- The identities of a flow's nodes that are in a list, in the order of the flow. -/
def idsIn (flow : Flow) (ids : List NodeId) : List NodeId := flow.ids.filter (· ∈ ids)

end Flow

/-- The result of an edit: the new flow, and the nodes that left and came. -/
structure Change where
  flow : Flow
  removed : List NodeId := []
  added : List NodeId := []
  deriving DecidableEq, Inhabited, Repr

/-- What an edit comes to: a refusal, or a change that may draw identities. -/
abbrev Plan := Except Refusal (Fresh Change)

namespace Flow

/-- The change that puts another node in a node's place. -/
def replaceNode (flow : Flow) (node : Node) : Change := ⟨(flow.withNode node).settle id, [], []⟩

variable {flow : Flow} {rename : NodeId → NodeId} {removed : List NodeId} {node : Node} {edge : Edge}

@[simp] theorem ids_settle (flow : Flow) (rename : NodeId → NodeId) :
    (flow.settle rename).ids = flow.ids := by
  simp [ids, settle, Function.comp_def]

@[simp] theorem edges_settle (flow : Flow) (rename : NodeId → NodeId) :
    (flow.settle rename).edges = flow.edges := rfl

@[simp] theorem edges_append (flow : Flow) (patch : Patch) :
    (flow.append patch).edges = flow.edges ++ patch.edges := rfl

@[simp] theorem ids_append (flow : Flow) (patch : Patch) :
    (flow.append patch).ids = flow.ids ++ patch.nodes.map (·.id) := by
  simp [ids, append]

theorem mem_edges_without : edge ∈ (flow.without removed).edges ↔
    edge ∈ flow.edges ∧ edge.source ∉ removed ∧ edge.target ∉ removed := by
  simp [without]

theorem mem_nodes_without : node ∈ (flow.without removed).nodes ↔
    node ∈ flow.nodes ∧ node.id ∉ removed := by
  simp [without]

theorem ids_without (flow : Flow) (removed : List NodeId) :
    (flow.without removed).ids = flow.ids.filter (· ∉ removed) := by
  simp [ids, without, List.filter_map, Function.comp_def]

/-- After settling, a merge that a node names is a node of the flow. -/
theorem mem_ids_of_mem_settle {merge : NodeId} (hn : node ∈ (flow.settle rename).nodes)
    (hm : node.content.mergeNodeId = some merge) : merge ∈ flow.ids := by
  simp only [settle, List.mem_map] at hn
  obtain ⟨before, _, rfl⟩ := hn
  simp only [Node.settle, Node.mapContent, Content.withMerge, Option.filter_eq_some_iff] at hm
  simpa using hm.2

end Flow

end Workflow
