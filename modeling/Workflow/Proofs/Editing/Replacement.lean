import Workflow.Edit.Delete
import Workflow.Edit.Fill
import Workflow.Edit.Swap
import Workflow.Proofs.Nesting.Neighbour
import Workflow.Proofs.Nesting.Resolution

/-!
# Replacing a node

A swap, filling a slot with a plain step and giving a slot back put another node in the place
of a node. If it plays the same role and names no other merge, the flow stays the graph of the
same sequence.

## Main results

* `Nests.replaceNode`, `NamesOwn.replaceNode` — the flow with a node replaced
-/

namespace Workflow

namespace Flow

variable {flow : Flow} {line : Line} {node old : Node} {id : NodeId} {limits : Limits}

/-- What is found in a flow with a node replaced is what was found, or the new node. -/
theorem node?_withNode_eq_map (flow : Flow) (node : Node) (id : NodeId) :
    (flow.withNode node).node? id =
      (flow.node? id).map fun other => if other.id = node.id then node else other := by
  rw [node?, withNode, List.find?_map, node?]
  congr 2
  funext other
  by_cases same : other.id = node.id <;> simp [same]

/-- Other nodes are found as before. -/
theorem node?_withNode_of_ne (apart : id ≠ node.id) :
    (flow.withNode node).node? id = flow.node? id := by
  rw [node?_withNode_eq_map]
  cases found : flow.node? id with
  | none => rfl
  | some other => exact congrArg some (if_neg (id_of_node?_eq_some found ▸ apart))

/-- The node that replaces another is found in its place. -/
theorem node?_withNode (found : flow.node? node.id = some old) (id : NodeId) :
    (flow.withNode node).node? id = if id = node.id then some node else flow.node? id := by
  by_cases here : id = node.id
  · rw [node?_withNode_eq_map, here, found, if_pos rfl, Option.map_some,
      if_pos (id_of_node?_eq_some found)]
  · rw [if_neg here, node?_withNode_of_ne here]

theorem isHead_withNode (found : flow.node? node.id = some old) (same : node.isHead = old.isHead)
    (id : NodeId) : (flow.withNode node).isHead id = flow.isHead id := by
  rw [isHead, isHead, node?_withNode found]
  split
  · rename_i here
    rw [here, found, Option.any_some, Option.any_some, same]
  · rfl

theorem isMerge_withNode (found : flow.node? node.id = some old)
    (same : node.isMerge = old.isMerge) (id : NodeId) :
    (flow.withNode node).isMerge id = flow.isMerge id := by
  rw [isMerge, isMerge, node?_withNode found]
  split
  · rename_i here
    rw [here, found, Option.any_some, Option.any_some, same]
  · rfl

/-- A flow stays the graph of its sequence when a node is replaced by one in the same role. -/
theorem Nests.replaceNode (nests : flow.Nests line) (found : flow.node? node.id = some old)
    (sameHead : node.isHead = old.isHead) (sameMerge : node.isMerge = old.isMerge) :
    (flow.replaceNode node).flow.Nests line := by
  rw [Flow.replaceNode, nests_settle]
  refine ⟨?_, ?_, nests.wires, ?_, nests.forked⟩
  · rw [ids_withNode]
    exact nests.distinct
  · rw [ids_withNode]
    exact nests.ids
  · intro spot member
    rw [Plays, isHead_withNode found sameHead, isMerge_withNode found sameMerge]
    exact nests.plays spot member

theorem mem_nodes_withNode {other : Node} (h : other ∈ (flow.withNode node).nodes) :
    other = node ∨ other ∈ flow.nodes := by
  obtain ⟨before, member, rfl⟩ := List.mem_map.mp h
  split
  · exact .inl rfl
  · exact .inr member

/-- Heads go on to name their own merges when a node is replaced by one that does. -/
theorem NamesOwn.replaceNode (named : flow.NamesOwn line)
    (own : ∀ merge, node.content.mergeNodeId = some merge →
      ∃ block ∈ line.blocks, block.head = node.id ∧ block.merge = merge) :
    (flow.replaceNode node).flow.NamesOwn line := by
  apply NamesOwn.settle
  intro other member merge names
  rcases mem_nodes_withNode member with rfl | old
  · exact own merge names
  · exact named other old merge names

/-! ### The content of a swapped node -/

@[simp] theorem isMerge_refill (node : Node) (kind : String) (label : Option String)
    (params : Option Json.Members) :
    { node with
      kind := some kind
      content := flow.pinMerge limits node (node.content.refill label params) }.isMerge =
        node.isMerge := by
  rw [pinMerge]
  split
  · split <;> rfl
  · rfl

/-- A swapped node names the merge of the block that it opens, and else what it named. -/
theorem names_pinMerge {content : Content} {merge : NodeId}
    (names : (flow.pinMerge limits node content).mergeNodeId = some merge) :
    node.isHead = true ∧ flow.merge? limits node.id = some merge ∨
      content.mergeNodeId = some merge := by
  rw [pinMerge] at names
  split at names
  · -- The merge of a head is looked up before the swap.
    rename_i opens
    split at names
    · rename_i own found
      obtain rfl : own = merge := Option.some.inj names
      exact .inl ⟨opens, found⟩
    · exact .inr names
  · exact .inr names

/-- In a well-nested flow whose heads name their own merges, a swapped head names its own. -/
theorem Nests.names_of_merge? (nests : flow.Nests line) (named : flow.NamesOwn line)
    (covers : limits.Covers flow) (opens : flow.isHead id = true) {merge : NodeId}
    (found : flow.merge? limits id = some merge) :
    ∃ block ∈ line.blocks, block.head = id ∧ block.merge = merge := by
  obtain ⟨context, lanes, own, out, rest, rfl⟩ := nests.exists_block_of_isHead opens
  rw [nests.merge?_eq covers named] at found
  obtain rfl := Option.some.inj found
  exact ⟨⟨id, own, lanes.length⟩, (context.blocks_plug _).mem_iff.mpr (by simp), rfl, rfl⟩

end Flow

end Workflow
