import Workflow.Block.Merge
import Workflow.Edit.Change

/-!
# Swapping a step

A step takes another kind, and with it another label and other settings if these
are given. Its edges stay, so a head can only become another head; it then names
the merge that closed its block.
-/

namespace Workflow

namespace Content

/-- The content with a label and settings where these are given, and filled. -/
def refill (label : Option String) (params : Option Json.Members) (content : Content) : Content :=
  { content with
    label := label.or content.label
    params := params.or content.params
    isPlaceholder := false }

end Content

namespace Flow

/-- A head that was swapped names the merge of its block, if there is one. -/
def pinMerge (flow : Flow) (limits : Limits) (node : Node) (content : Content) : Content :=
  if node.isHead then
    match flow.merge? limits node.id with
    | some merge => content.withMerge (some merge)
    | none => content
  else content

/-- Gives a step another kind. -/
def swap (flow : Flow) (limits : Limits) (id : NodeId) (kind : String) (label : Option String)
    (params : Option Json.Members) : Plan :=
  match flow.node? id with
  | none => throw (.unknownNode id)
  | some node =>
    if node.isHead ≠ (BlockKind.ofName? kind).isSome then
      throw (.differentRole id node.kind kind)
    else
      return pure (flow.replaceNode
        { node with
          kind := some kind
          content := flow.pinMerge limits node (node.content.refill label params) })

end Flow

end Workflow
