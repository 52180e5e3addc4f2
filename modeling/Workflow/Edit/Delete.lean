import Workflow.Block.Body
import Workflow.Block.Starter
import Workflow.Edit.Change

/-!
# Deleting a step

What a deletion does depends on the part that the step plays. A trigger loses its
content, a block goes with its whole body, a filled step gives its slot back, and
a slot is taken out and the flow closed over it. A head is never joined straight
to a place where branches come together: an emptied branch keeps a slot.

## Main definitions

* `Flow.isJoin` — a place where branches come together
* `Flow.bridge`, `Flow.bridgeAll` — close the flow over a gap
* `Flow.closingHead?` — the head whose block a merge closes at present
* `Flow.deleteBlock`, `Flow.delete` — the edits
-/

namespace Workflow

/-- An edge that led to a removed part, and where it is to lead instead. -/
structure Gap where
  edge : Edge
  target : NodeId
  intoJoin : Bool
  deriving DecidableEq, Repr

namespace Flow

/-- Whether a node is a merge, or is still entered once some nodes are removed. -/
def isJoin (flow : Flow) (removed : List NodeId) (id : NodeId) : Bool :=
  flow.isMerge id || (flow.edgesTo id).any (·.source ∉ removed)

/-- The head at the start of a gap that needs a slot of its own. -/
def slotHead? (flow : Flow) (gap : Gap) : Option Node :=
  if gap.intoJoin then (flow.node? gap.edge.source).filter Node.isHead else none

/-- Closes one gap. The branch of the old edge stays on the edge that leaves its source. -/
def bridge (flow : Flow) (gap : Gap) : Fresh Patch :=
  let edge := gap.edge
  match flow.slotHead? gap with
  | none => return { edges := [.connect edge.source gap.target edge.branch] }
  | some head => do
    let slot ← Fresh.one
    return {
      nodes := [.branchPlaceholder slot (head.branchLabel edge.branch)]
      edges := [.connect edge.source slot edge.branch, .connect slot gap.target none] }

/-- Closes gaps one after another. -/
def bridgeAll (flow : Flow) : List Gap → Fresh Patch
  | [] => return {}
  | gap :: rest => do
    let first ← flow.bridge gap
    let others ← flow.bridgeAll rest
    return first.append others

variable {flow : Flow} {gap : Gap}

/-- A gap that needs no slot is closed by one edge, and nothing is drawn. -/
theorem run_bridge_of_none (h : flow.slotHead? gap = none) (supply : Supply) :
    (flow.bridge gap).run supply =
      ({ edges := [.connect gap.edge.source gap.target gap.edge.branch] }, supply) := by
  rw [bridge, h]
  rfl

/-- A gap that needs a slot is closed through the next identity of the supply. -/
theorem run_bridge_of_some {head : Node} (h : flow.slotHead? gap = some head) (supply : Supply) :
    (flow.bridge gap).run supply =
      let slot := supply.upcoming 0
      ({ nodes := [.branchPlaceholder slot (head.branchLabel gap.edge.branch)]
         edges := [.connect gap.edge.source slot gap.edge.branch,
           .connect slot gap.target none] }, supply.skip 1) := by
  rw [bridge, h]
  rfl

theorem run_bridgeAll_cons (gap : Gap) (rest : List Gap) (supply : Supply) :
    (flow.bridgeAll (gap :: rest)).run supply =
      let first := (flow.bridge gap).run supply
      let others := (flow.bridgeAll rest).run first.2
      (first.1.append others.1, others.2) :=
  rfl

/-- Takes nodes out of a flow and closes the gaps. The change tells of the nodes in
`told` as removed. -/
def removeAndBridge (flow : Flow) (removed told : List NodeId) (gaps : List Gap)
    (rename : NodeId → NodeId) : Fresh Change := do
  let patch ← flow.bridgeAll gaps
  return {
    flow := ((flow.without removed).append patch).settle rename
    removed := told
    added := patch.nodes.map (·.id) }

/-! ## Blocks -/

/-- The merge that closes a block, found from the edges when the head names one that
is gone. -/
def presentMerge? (flow : Flow) (limits : Limits) (head : NodeId) : Option NodeId :=
  match flow.merge? limits head with
  | none => none
  | some merge => if flow.has merge then some merge else flow.searchMerge? limits head

/-- Whether something outside a body depends on the merge that closes it. -/
def sharesMerge (flow : Flow) (merge : NodeId) (body : List NodeId) : Bool :=
  flow.isHead merge ||
    flow.nodes.any (fun other =>
      other.id ∉ body ∧ other.isHead ∧ other.content.mergeNodeId = some merge) ||
    (flow.edgesTo merge).any (·.source ∉ body)

/-- The gaps that open when nodes are removed: from each edge that entered the removed
part to each of the places where the flow goes on. -/
def gaps (flow : Flow) (removed : List NodeId) (entry : NodeId) (targets : List NodeId) : List Gap :=
  ((flow.edgesTo entry).filter (·.source ∉ removed)).flatMap fun edge =>
    targets.map fun target => ⟨edge, target, flow.isJoin removed target⟩

/-- Deletes a block whose merge is known. A merge that others depend on stays, and a
head that was a join itself hands that role to its merge. -/
def removeBlock (flow : Flow) (limits : Limits) (head : Node) (merge : NodeId) : Fresh Change :=
  let body := flow.body limits head.id merge
  -- A head that is a join needs its merge to stay as the join.
  let keeps := head.isMerge || flow.sharesMerge merge body
  let removed := if keeps then body else body ++ [merge]
  -- The flow goes on at the merge if that stays, else behind it.
  let targets := if keeps then [merge] else (flow.children merge).filter (· ∉ removed)
  flow.removeAndBridge removed (flow.idsIn removed) (flow.gaps removed head.id targets)
    (if head.isMerge then handOver head.id merge else fun id => id)

/-- Deletes a block with all that is in it. -/
def deleteBlock (flow : Flow) (limits : Limits) (head : Node) : Plan :=
  match flow.presentMerge? limits head.id with
  | none => throw (.openBlock head.id)
  | some merge =>
    if merge = head.id then throw (.invalidMerge head.id merge)
    else return flow.removeBlock limits head merge

/-! ## Single steps -/

/-- The head whose block a merge closes at present: one that names it, or the one
found above it. -/
def closingHead? (flow : Flow) (limits : Limits) (merge : NodeId) : Option NodeId :=
  let named := flow.nodes.find? fun node =>
    node.id ≠ merge ∧ node.isHead ∧ node.content.mergeNodeId = some merge
  match named with
  | some head => some head.id
  | none => (flow.starter? limits merge).filter fun head => flow.merge? limits head = some merge

/-- The gaps that open when one node is removed: from each edge into it to where the
one edge out of it led. With another number of edges out there is nowhere to go on. -/
def stepGaps (flow : Flow) (id : NodeId) : List Gap :=
  let incoming := flow.edgesTo id
  match flow.edgesFrom id with
  | [leaving] =>
    let intoJoin := incoming.length = 1 && flow.isJoin [id] leaving.target
    incoming.map fun edge => ⟨edge, leaving.target, intoJoin⟩
  | _ => []

/-- Takes one node out and closes the flow over it. -/
def removeStep (flow : Flow) (id : NodeId) : Fresh Change :=
  flow.removeAndBridge [id] [id] (flow.stepGaps id) fun merge => merge

/-- Deletes a step that opens no block and starts no flow. -/
def deleteStep (flow : Flow) (limits : Limits) (node : Node) : Plan :=
  let incoming := (flow.edgesTo node.id).length
  let leaving := (flow.edgesFrom node.id).length
  let filled := !node.content.isPlaceholder
  -- A filled join becomes a slot at which branches come together.
  if 1 < incoming ∧ filled then
    return pure (flow.replaceNode
      { node with kind := some Kind.custom, content := .mergePlaceholder })
  -- A filled step in a line becomes an empty slot.
  else if incoming ≤ 1 ∧ leaving ≤ 1 ∧ filled then
    return pure (flow.replaceNode
      { node with kind := some Kind.custom, content := node.content.emptied })
  -- A slot goes, unless it is the merge of a block.
  else
    match if node.isMerge then flow.closingHead? limits node.id else none with
    | some head => throw (.closesBlock node.id head)
    | none => return flow.removeStep node.id

/-- Deletes a step. -/
def delete (flow : Flow) (limits : Limits) (id : NodeId) : Plan :=
  match flow.node? id with
  | none => throw (.unknownNode id)
  | some node =>
    if node.kind = some Kind.trigger then
      return pure (flow.replaceNode { node with content := .triggerPlaceholder })
    else if node.isHead then flow.deleteBlock limits node
    else flow.deleteStep limits node

end Flow

end Workflow
