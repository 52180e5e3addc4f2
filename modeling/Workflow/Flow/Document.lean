import Workflow.Flow.Basic
import Workflow.Schema.Field

/-!
# Flows as documents

Reading a document checks every part and reports every fault; writing gives each
record all its fields under their wire names, then the further members as they
were read.

## Main definitions

* `Content.ofJson`, `Node.ofJson`, `Edge.ofJson`, `Flow.ofJson` — reading
* `Content.toJson`, `Node.toJson`, `Edge.toJson`, `Flow.toJson` — writing
* `Content.Field`, `Node.Field`, `Edge.Field`, `Flow.Field` — the spellings of the fields
-/

namespace Workflow

open Schema

/-- A table of members, or `null` for none. -/
def Json.ofTable? : Option Json.Members → Json
  | none => .null
  | some members => .obj members

/-! ## Contents -/

namespace Content

namespace Field

/-- The text on the step. -/
def label : Spelling := .single "label"

/-- The text below it. -/
def subLabel : Spelling := ⟨"subLabel", "sub_label"⟩

/-- The settings of the step. -/
def params : Spelling := .single "params"

/-- A slot that waits for a step. -/
def isPlaceholder : Spelling := ⟨"isPlaceholder", "is_placeholder"⟩

/-- A slot that stands for a whole branch. -/
def isBranchPlaceholder : Spelling := ⟨"isBranchPlaceholder", "is_branch_placeholder"⟩

/-- A slot at which branches come together. -/
def isMergePlaceholder : Spelling := ⟨"isMergePlaceholder", "is_merge_placeholder"⟩

/-- A filled step at which branches come together. -/
def isMergeNode : Spelling := ⟨"isMergeNode", "is_merge_node"⟩

/-- The merge that closes the block of a head. -/
def mergeNodeId : Spelling := ⟨"mergeNodeId", "merge_node_id"⟩

/-- All fields, in order. -/
def all : List Spelling :=
  [label, subLabel, params, isPlaceholder, isBranchPlaceholder, isMergePlaceholder, isMergeNode,
    mergeNodeId]

end Field

/-- The content that the members of a record describe. -/
def ofMembers (members : Json.Members) : Checked Content :=
  Content.mk <$> optional Field.label text members
    <*> optional Field.subLabel text members
    <*> optional Field.params table members
    <*> flagged Field.isPlaceholder members
    <*> flagged Field.isBranchPlaceholder members
    <*> flagged Field.isMergePlaceholder members
    <*> flagged Field.isMergeNode members
    <*> optional Field.mergeNodeId text members
    <*> pure (further Field.all members)

/-- The content that a record describes. -/
def ofJson : Check Content := record "NodeData" ofMembers

/-- The content of a step, which is empty when it is `null`. -/
def ofJsonOrNull : Check Content
  | .null => .valid {}
  | value => ofJson value

/-- All fields of a content, then its further members. -/
def toMembers (content : Content) : Json.Members :=
  [(Field.label.wire, .ofText? content.label),
    (Field.subLabel.wire, .ofText? content.subLabel),
    (Field.params.wire, .ofTable? content.params),
    (Field.isPlaceholder.wire, .bool content.isPlaceholder),
    (Field.isBranchPlaceholder.wire, .bool content.isBranchPlaceholder),
    (Field.isMergePlaceholder.wire, .bool content.isMergePlaceholder),
    (Field.isMergeNode.wire, .bool content.isMergeNode),
    (Field.mergeNodeId.wire, .ofText? content.mergeNodeId)] ++ content.extras

/-- A content as a record. -/
def toJson (content : Content) : Json := .obj content.toMembers

end Content

/-! ## Nodes -/

namespace Node

namespace Field

/-- The identity of the node. -/
def id : Spelling := .single "id"

/-- The kind of the step. -/
def kind : Spelling := .single "type"

/-- The content of the step. -/
def content : Spelling := .single "data"

/-- All fields, in order. -/
def all : List Spelling := [id, kind, content]

end Field

/-- The node that the members of a record describe. -/
def ofMembers (members : Json.Members) : Checked Node :=
  Node.mk <$> required Field.id text members
    <*> optional Field.kind text members
    <*> defaulted Field.content {} Content.ofJsonOrNull members
    <*> pure (further Field.all members)

/-- The node that a record describes. -/
def ofJson : Check Node := record "Node" ofMembers

/-- All fields of a node, then its further members. -/
def toMembers (node : Node) : Json.Members :=
  [(Field.id.wire, .str node.id), (Field.kind.wire, .ofText? node.kind),
    (Field.content.wire, node.content.toJson)] ++ node.extras

/-- A node as a record. -/
def toJson (node : Node) : Json := .obj node.toMembers

end Node

/-! ## Edges -/

namespace Edge

namespace Field

/-- The identity of the edge. -/
def id : Spelling := .single "id"

/-- Where the edge starts. -/
def source : Spelling := .single "source"

/-- Where the edge ends. -/
def target : Spelling := .single "target"

/-- The branch of a head that starts here. -/
def branch : Spelling := ⟨"branchId", "branch_id"⟩

/-- All fields, in order. -/
def all : List Spelling := [id, source, target, branch]

end Field

/-- The edge that the members of a record describe. -/
def ofMembers (members : Json.Members) : Checked Edge :=
  Edge.mk <$> optional Field.id text members
    <*> required Field.source text members
    <*> required Field.target text members
    <*> optional Field.branch text members
    <*> pure (further Field.all members)

/-- The edge that a record describes. -/
def ofJson : Check Edge := record "Edge" ofMembers

/-- All fields of an edge, then its further members. -/
def toMembers (edge : Edge) : Json.Members :=
  [(Field.id.wire, .ofText? edge.id), (Field.source.wire, .str edge.source),
    (Field.target.wire, .str edge.target), (Field.branch.wire, .ofText? edge.branch)] ++ edge.extras

/-- An edge as a record. -/
def toJson (edge : Edge) : Json := .obj edge.toMembers

end Edge

/-! ## Flows -/

namespace Flow

namespace Field

/-- The identity of the flow. -/
def flowId : Spelling := ⟨"flowId", "flow_id"⟩

/-- The nodes. -/
def nodes : Spelling := .single "nodes"

/-- The edges. -/
def edges : Spelling := .single "edges"

end Field

/-- The name under which a document is reported. -/
def model : String := "FlowGraph"

/-- The flow that the members of a record describe. Further members are dropped. -/
def ofMembers (members : Json.Members) : Checked Flow :=
  Flow.mk <$> optional Field.flowId text members
    <*> defaulted Field.nodes [] (list Node.ofJson) members
    <*> defaulted Field.edges [] (list Edge.ofJson) members

/-- The flow that a record describes. -/
def ofJson : Check Flow := record model ofMembers

/-- A flow as a record. -/
def toJson (flow : Flow) : Json :=
  .obj [(Field.flowId.wire, .ofText? flow.flowId),
    (Field.nodes.wire, .arr (flow.nodes.map Node.toJson)),
    (Field.edges.wire, .arr (flow.edges.map Edge.toJson))]

end Flow

end Workflow
