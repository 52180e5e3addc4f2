import Workflow.Edit.Delete
import Workflow.Edit.NewStep

/-!
# Filling a slot

A plain step fills a slot where it is. A block takes the slot's place: every edge
into the slot enters the head, and the merge leads on to where the slot led first.
A block that fills a slot where branches come together becomes the join itself, so
the head whose block the slot closed goes on to name the new head.
-/

namespace Workflow

namespace Content

/-- The content of a slot that a plain step fills. -/
def fill (kind : String) (label : Option String) (params : Option Json.Members)
    (content : Content) : Content :=
  { content with
    label := some (NewStep.labelOr label kind)
    params := params.or content.params
    isPlaceholder := false
    isBranchPlaceholder := false }

end Content

namespace Flow

/-- Whether a block in the place of this slot becomes a join. -/
def takesJoin (flow : Flow) (slot : Node) : Bool :=
  slot.isMerge && 1 < (flow.edgesTo slot.id).length

/-- The nodes of a flow with the merge set that one of them names. -/
def pinHead (flow : Flow) (head : Option NodeId) (merge : NodeId) : Flow :=
  match head with
  | none => flow
  | some head =>
    { flow with
      nodes := flow.nodes.map fun node =>
        if node.id = head then node.mapContent (Content.withMerge (some merge)) else node }

/-- The head of a block that fills a slot: a merge itself if the slot was a join. -/
def fillHead (flow : Flow) (slot head : Node) : Node :=
  if flow.takesJoin slot then
    head.mapContent fun content => { content with isMergeNode := true }
  else head

/-- Puts a block in the place of a slot. -/
def fillWithBlock (flow : Flow) (limits : Limits) (slot : Node) (step : NewStep) : Change :=
  let head := flow.fillHead slot step.head
  -- Every edge into the slot enters the head, and the block leads on to one place only.
  let patch : Patch :=
    { nodes := head :: step.parts
      edges := (flow.edgesTo slot.id).map (fun edge => .connect edge.source head.id edge.branch) ++
        step.edges ++
        ((flow.edgesFrom slot.id).take 1).map fun edge => .connect step.exit edge.target none }
  -- The search does not close a block at a head, so the head above has to name it.
  let closed := if flow.takesJoin slot then flow.closingHead? limits slot.id else none
  let rename := if flow.takesJoin slot then handOver slot.id head.id else fun id => id
  { flow := ((((flow.without [slot.id]).append patch).pinHead closed head.id).settle rename)
    removed := [slot.id]
    added := step.nodes.map (·.id) }

/-- Fills a slot with a step of any kind. -/
def fill (flow : Flow) (limits : Limits) (id : NodeId) (kind : String) (label : Option String)
    (params : Option Json.Members) (branches : Option (List String)) : Plan :=
  match flow.node? id with
  | none => throw (.unknownNode id)
  | some slot =>
    if slot.content.isPlaceholder = false then throw (.notPlaceholder id)
    else
      match BlockKind.ofName? kind with
      | none =>
        return pure (flow.replaceNode
          { slot with kind := some kind, content := slot.content.fill kind label params })
      | some block =>
        if flow.edgesTo id = [] then throw (.noIncomingEdge id)
        else
          return flow.fillWithBlock limits slot <$>
            NewStep.makeBlock block label params branches

end Flow

end Workflow
