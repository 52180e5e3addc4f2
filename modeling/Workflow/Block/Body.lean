import Workflow.Block.Merge

/-!
# The nodes of a block

The body of a block is its head and all that is reached from there without
entering the merge. It is collected breadth first, so a limit cuts it off at the
far end.

## Main definitions

* `Flow.body` — the nodes of a block without its merge
* `Flow.block` — the nodes of a block, with its merge when the flow has it
* `Extent`, `Flow.extent?` — a head, its merge and the nodes of its block
-/

namespace Workflow

namespace Flow

/-- The children of a node that are new to a body, in order and each once. -/
def newcomers (flow : Flow) (merge : NodeId) (reached : List NodeId) (id : NodeId) : List NodeId :=
  ((flow.children id).filter fun child => child ≠ merge ∧ child ∉ reached).eraseDups

/-- Collects a body: the nodes in `done` have been followed, those in the queue
have still to be. -/
def spread (flow : Flow) (merge : NodeId) : Nat → List NodeId → List NodeId → List NodeId
  | 0, done, queue => done ++ queue
  | _ + 1, done, [] => done
  | steps + 1, done, id :: queue =>
    flow.spread merge steps (done ++ [id])
      (queue ++ flow.newcomers merge (done ++ id :: queue) id)

/-- The nodes of the block between `head` and `merge`, without the merge. A head
that is its own merge has nothing else in its body. -/
def body (flow : Flow) (limits : Limits) (head merge : NodeId) : List NodeId :=
  if head = merge then [head] else flow.spread merge limits.scanSteps [] [head]

/-- The nodes of the block between `head` and `merge`, with the merge when the flow
has it. -/
def block (flow : Flow) (limits : Limits) (head merge : NodeId) : List NodeId :=
  flow.body limits head merge ++ if head ≠ merge ∧ flow.has merge then [merge] else []

end Flow

/-- A block: its head, the merge that closes it, and all its nodes. -/
structure Extent where
  head : NodeId
  merge : NodeId
  nodes : List NodeId
  deriving DecidableEq, Repr

namespace Flow

/-- The block opened at `head`, unless nothing closes it. -/
def extent? (flow : Flow) (limits : Limits) (head : NodeId) : Option Extent :=
  (flow.merge? limits head).map fun merge => ⟨head, merge, flow.block limits head merge⟩

variable {flow : Flow} {limits : Limits} {head merge id : NodeId}

/-- What has been collected stays. -/
theorem mem_spread_of_mem {steps : Nat} {done queue : List NodeId} (h : id ∈ done ++ queue) :
    id ∈ flow.spread merge steps done queue := by
  fun_induction spread flow merge steps done queue with
  | case1 => exact h
  | case2 => simpa using h
  | case3 steps done next queue ih => exact ih (by grind)

/-- A block holds its head. -/
theorem head_mem_body : head ∈ flow.body limits head merge := by
  unfold body
  split
  · simp
  · exact mem_spread_of_mem (by simp)

/-- A body holds no merge but a head that is its own. -/
theorem merge_notMem_spread {steps : Nat} {done queue : List NodeId}
    (h : merge ∉ done ++ queue) : merge ∉ flow.spread merge steps done queue := by
  fun_induction spread flow merge steps done queue with
  | case1 => exact h
  | case2 => simpa using h
  | case3 steps done next queue ih =>
    have absent : merge ∉ flow.newcomers merge (done ++ next :: queue) next := by
      simp [newcomers, List.mem_eraseDups]
    exact ih (by grind)

end Flow

end Workflow
