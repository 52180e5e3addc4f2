import Workflow.Block.Body
import Workflow.Json.Basic

/-!
# Reports on blocks

A report says for a head which merge closes its block and how many nodes the block
has. Reports are asked for by the identities of nodes, or for all heads of a flow.

## Main definitions

* `BlockReport` — what is said about one head
* `Flow.report` — the report on one node
* `Flow.reportsOnHeads`, `Flow.reportsOn` — the reports on all heads, or on given nodes
* `Flow.reports` — the reports on the nodes asked for
-/

namespace Workflow

/-- What is said about one head. The size leaves out the merge. -/
structure BlockReport where
  head : NodeId
  kind : Option String
  merge : Option NodeId
  /-- Whether the head names its merge itself. -/
  cached : Bool
  bodySize : Int := 0
  deriving DecidableEq, Repr

namespace Flow

/-- The report on one node. -/
def report (flow : Flow) (limits : Limits) (node : Node) : BlockReport :=
  let merge := flow.merge? limits node.id
  { head := node.id
    kind := node.kind
    merge
    cached := node.content.rememberedMerge?.isSome
    bodySize := merge.elim 0 fun merge => (flow.body limits node.id merge).length }

/-- The nodes that open a block, in order. -/
def heads (flow : Flow) : List Node := flow.nodes.filter Node.isHead

/-- The reports on all heads. -/
def reportsOnHeads (flow : Flow) (limits : Limits) : List BlockReport :=
  flow.heads.map (flow.report limits)

/-- The reports on those of the given nodes that exist. -/
def reportsOn (flow : Flow) (limits : Limits) (ids : List NodeId) : List BlockReport :=
  (ids.filterMap flow.node?).map (flow.report limits)

/-- The reports on the nodes asked for, or on all heads when none is asked for. -/
def reports (flow : Flow) (limits : Limits) (asked : List NodeId) : List BlockReport :=
  if asked = [] then flow.reportsOnHeads limits else flow.reportsOn limits asked

end Flow

namespace BlockReport

/-- A report as a value. -/
def toJson (report : BlockReport) : Json :=
  .obj [("head_id", .str report.head), ("kind", .ofText? report.kind),
    ("merge_id", .ofText? report.merge), ("cached", .bool report.cached),
    ("body_size", .ofInt report.bodySize)]

end BlockReport

end Workflow
