import Workflow.Block.Limits
import Workflow.Flow.Basic

/-!
# The merge that closes a block

Branches may hold whole blocks, so the nearest merge need not be the one that
closes the outer block. A depth is kept along each way down from the head: a head
adds one, a merge takes one away, and the merge at which the depth is back at zero
closes the block.

The search goes down the latest edge first, looks at each node's edges once, and
gives up a way whose depth falls below zero.

## Main definitions

* `Flow.rise` — what a node adds to the depth
* `Flow.searchMerge?` — the closing merge, found from the edges alone
* `Flow.rememberedMerge?` — the closing merge that the head itself names
* `Flow.merge?` — what the head names, else what the search finds
-/

namespace Workflow

/-- The closing merge that a content names. An empty name counts as none. -/
def Content.rememberedMerge? (content : Content) : Option NodeId :=
  content.mergeNodeId.filter (· ≠ "")

namespace Flow

/-- What a node adds to the depth: one for a head, minus one for a merge, and
nothing for a node that is both or neither. -/
def rise (flow : Flow) (id : NodeId) : Int :=
  (if flow.isHead id then 1 else 0) - (if flow.isMerge id then 1 else 0)

/-- Searches down from the nodes on a stack, each with the depth above it. The
nodes in `seen` have put their children on the stack already. -/
def descend (flow : Flow) : Nat → List (NodeId × Int) → List NodeId → Option NodeId
  | 0, _, _ => none
  | _ + 1, [], _ => none
  | steps + 1, (id, above) :: stack, seen =>
    let depth := above + flow.rise id
    -- A merge at depth zero closes the block, also one that was come by before.
    if depth = 0 ∧ flow.isMerge id = true then some id
    -- Below zero the way has left a block that it never entered.
    else if depth < 0 ∨ id ∈ seen then flow.descend steps stack seen
    -- The child of the latest edge ends on top of the stack.
    else flow.descend steps ((flow.children id).reverse.map (·, depth) ++ stack) (id :: seen)

/-- The merge that closes the block opened at `head`, found from the edges alone. -/
def searchMerge? (flow : Flow) (limits : Limits) (head : NodeId) : Option NodeId :=
  flow.descend limits.searchSteps [(head, 0)] []

/-- The closing merge that the head itself names. -/
def rememberedMerge? (flow : Flow) (head : NodeId) : Option NodeId :=
  (flow.node? head).bind (·.content.rememberedMerge?)

/-- The merge that closes the block opened at `head`. A head that names one is
believed. -/
def merge? (flow : Flow) (limits : Limits) (head : NodeId) : Option NodeId :=
  match flow.rememberedMerge? head with
  | some merge => some merge
  | none => flow.searchMerge? limits head

variable {flow : Flow} {limits : Limits} {head merge : NodeId}

theorem merge?_of_remembered (h : flow.rememberedMerge? head = some merge) :
    flow.merge? limits head = some merge := by
  simp [merge?, h]

theorem merge?_of_not_remembered (h : flow.rememberedMerge? head = none) :
    flow.merge? limits head = flow.searchMerge? limits head := by
  simp [merge?, h]

/-- With no step to take, the search finds nothing. -/
theorem searchMerge?_of_nonpos (h : limits.maxIterations ≤ 0) :
    flow.searchMerge? limits head = none := by
  simp [searchMerge?, Limits.searchSteps, Int.toNat_of_nonpos h, descend]

end Flow

end Workflow
