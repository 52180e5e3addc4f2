import Workflow.Block.Limits
import Workflow.Flow.Basic

/-!
# The head whose block a merge closes

From a merge the way leads up along first parents. A merge met on the way opens a
level, a head closes one, and the head that leaves no level open is the answer. A
node that is both counts as a merge. A way that comes round ends without one.

## Main definitions

* `Flow.firstParent?` — the first parent of a node
* `Flow.starter?` — the head whose block a merge closes
-/

namespace Workflow

namespace Flow

/-- Where the first edge into a node comes from. -/
def firstParent? (flow : Flow) (id : NodeId) : Option NodeId := (flow.parents id).head?

/-- What a node adds to the levels still open on the way up. -/
def levels (flow : Flow) (id : NodeId) : Int :=
  if flow.isMerge id then 1 else if flow.isHead id then -1 else 0

/-- Goes up from a node, below which `below` levels are open. -/
def climb (flow : Flow) : Nat → Option NodeId → List NodeId → Int → Option NodeId
  | 0, _, _, _ => none
  | _ + 1, none, _, _ => none
  | steps + 1, some id, seen, below =>
    let balance := below + flow.levels id
    -- The way has come round.
    if id ∈ seen then none
    -- This head opens a block that nothing below it has closed.
    else if balance < 0 then some id
    else flow.climb steps (flow.firstParent? id) (id :: seen) balance

/-- The head whose block the given merge closes. -/
def starter? (flow : Flow) (limits : Limits) (merge : NodeId) : Option NodeId :=
  flow.climb limits.searchSteps (flow.firstParent? merge) [merge] 0

/-- With no step to take, no head is found. -/
theorem starter?_of_nonpos {flow : Flow} {limits : Limits} {merge : NodeId}
    (h : limits.maxIterations ≤ 0) : flow.starter? limits merge = none := by
  simp [starter?, Limits.searchSteps, Int.toNat_of_nonpos h, climb]

end Flow

end Workflow
