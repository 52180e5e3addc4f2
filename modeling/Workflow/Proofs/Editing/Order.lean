import Workflow.Proofs.Editing.BlockRemoval
import Workflow.Proofs.Editing.Grafting
import Workflow.Proofs.Editing.Replacement

/-!
# Edits keep the order of a flow

In a well-nested flow whose merges are slots that wait, each edit that is made leads to such a
flow again: a step is replaced where it is, or an item is put in, or an item is taken out. A
merge that waits is not deleted, unless its kind is that of the step that starts a flow. Such a
merge is reset, and is a merge no longer.

## Main definitions

* `Flow.Ordered` — well-nested, with heads that name their own merges
* `Flow.Firm` — each merge is a slot that waits, and does not start a flow
* `Edit.Suits` — an edit that swaps no merge and fills neither head nor merge

## Main results

* `Edit.keeps_order` — one edit of an ordered and firm flow
-/

namespace Workflow

/-- A merge is a slot that waits for a step, and is not of the kind that starts a flow. -/
def Node.Firm (node : Node) : Prop :=
  node.isMerge = true → node.content.isPlaceholder = true ∧
    node.content.isMergePlaceholder = true ∧ node.kind ≠ some Kind.trigger

namespace Flow

/-- A flow is the graph of a sequence, and no merge is named but by the head of its block. -/
def Ordered (flow : Flow) : Prop := ∃ line, flow.Nests line ∧ flow.NamesOwn line

/-- Each merge is a slot that waits, and does not start a flow. -/
def Firm (flow : Flow) : Prop := ∀ node ∈ flow.nodes, node.Firm

variable {flow : Flow} {line rest : Line} {context : Line.Context} {item : Item}
  {out : Option String} {node old : Node} {patch : Patch} {removed : List NodeId} {slot : NodeId}
  {change : Change} {limits : Limits} {rename : NodeId → NodeId} {step : NewStep}
  {lanes : List Lane} {head merge id : NodeId} {supply : Supply}

theorem firm_of_not_merge (plain : node.isMerge = false) : node.Firm := fun joins => by
  rw [plain] at joins
  cases joins

/-! ### Firm flows -/

theorem Firm.settle (firm : flow.Firm) : (flow.settle rename).Firm := by
  intro node member
  obtain ⟨before, inside, rfl⟩ := List.mem_map.mp member
  exact firm before inside

theorem Firm.without (firm : flow.Firm) : (flow.without removed).Firm := fun node member =>
  firm node (mem_nodes_without.mp member).1

theorem Firm.append (firm : flow.Firm) (parts : ∀ node ∈ patch.nodes, node.Firm) :
    (flow.append patch).Firm := fun node member =>
  (List.mem_append.mp member).elim (firm node) (parts node)

theorem Firm.replaceNode (firm : flow.Firm) (new : node.Firm) :
    (flow.replaceNode node).flow.Firm :=
  Firm.settle fun other member => by
    rcases mem_nodes_withNode member with rfl | old
    · exact new
    · exact firm other old

theorem Firm.excise (firm : flow.Firm) (h : flow.Excises context item rest slot change) :
    change.flow.Firm := by
  obtain ⟨patch, text, after, -, nodes, -⟩ := h
  rw [after]
  refine (firm.without.append fun node member => ?_).settle
  rw [nodes] at member
  split at member
  · rw [List.mem_singleton.mp member]
    exact firm_of_not_merge rfl
  · cases member

theorem Firm.fillWithBlock {slot : Node} (firm : flow.Firm) (plain : slot.isMerge = false)
    (parts : ∀ node ∈ step.nodes, node.Firm) :
    (flow.fillWithBlock limits slot step).flow.Firm := by
  have stays := @takesJoin_of_not_merge flow slot plain
  simp only [Flow.fillWithBlock, fillHead, stays, pinHead, Bool.false_eq_true, if_false]
  exact Firm.settle (firm.without.append parts)

/-- The merge of a new block is a slot that waits. -/
theorem firm_block {kind : BlockKind} {label : Option String} {params : Option Json.Members}
    {names : List String} {slots : List NodeId} :
    ∀ node ∈ (NewStep.block kind label params names head merge slots).nodes, node.Firm := by
  intro node member
  rcases NewStep.mem_nodes_block.mp member with rfl | ⟨arm, -, rfl⟩ | rfl
  · exact firm_of_not_merge NewStep.isMerge_blockHead
  · exact firm_of_not_merge rfl
  · exact fun _ => ⟨rfl, rfl, by simp [Node.mergePlaceholder, Kind.custom, Kind.trigger]⟩

/-! ### Replacing a node -/

/-- Replacing a node by one in the same role, which names no other merge, keeps the order. -/
theorem keeps_replaceNode (nests : flow.Nests line) (named : flow.NamesOwn line)
    (firm : flow.Firm) (found : flow.node? node.id = some old) (sameHead : node.isHead = old.isHead)
    (sameMerge : node.isMerge = old.isMerge)
    (own : ∀ merge, node.content.mergeNodeId = some merge →
      ∃ block ∈ line.blocks, block.head = node.id ∧ block.merge = merge) (new : node.Firm) :
    (flow.replaceNode node).flow.Ordered ∧ (flow.replaceNode node).flow.Firm :=
  ⟨⟨line, nests.replaceNode found sameHead sameMerge, named.replaceNode own⟩,
    firm.replaceNode new⟩

/-- A node names a merge only if it is the head of its block. -/
theorem NamesOwn.of_node? (named : flow.NamesOwn line) (found : flow.node? id = some node) :
    ∀ merge, node.content.mergeNodeId = some merge →
      ∃ block ∈ line.blocks, block.head = node.id ∧ block.merge = merge :=
  named node (mem_of_node?_eq_some found)

/-- Giving the slot of a step back keeps the order. -/
theorem keeps_emptied (nests : flow.Nests line) (named : flow.NamesOwn line) (firm : flow.Firm)
    (found : flow.node? node.id = some node) (closed : node.isHead = false)
    (plain : node.isMerge = false) :
    (flow.replaceNode { node with
      kind := some Kind.custom, content := node.content.emptied }).flow.Ordered ∧
    (flow.replaceNode { node with
      kind := some Kind.custom, content := node.content.emptied }).flow.Firm := by
  have unmarked : node.content.isMergeNode = false := (Bool.or_eq_false_iff.mp plain).2
  have still : Node.isMerge { node with
      kind := some Kind.custom, content := node.content.emptied } = false := unmarked
  refine keeps_replaceNode nests named firm found (closed ▸ rfl) (still.trans plain.symm)
    (fun merge names => named.of_node? found merge names) (firm_of_not_merge still)

/-- Taking out an item keeps the order. -/
theorem keeps_excise (nests : flow.Nests (context.plug (.cons item out rest)))
    (named : flow.NamesOwn (context.plug (.cons item out rest))) (firm : flow.Firm)
    (h : flow.Excises context item rest slot change) (fresh : change.FreshFor flow) :
    change.flow.Ordered ∧ change.flow.Firm :=
  ⟨⟨_, h.nests nests fun id inside old => fresh.unused id inside (.inl old),
    h.namesOwn nests named⟩, firm.excise h⟩

end Flow

namespace Edit

/-- An edit that swaps no merge and fills neither head nor merge. Names of branches are not
set. -/
def Suits (edit : Edit) (flow : Flow) : Prop :=
  match edit with
  | insert .. => True
  | swap id .. => flow.isMerge id = false
  | fill id .. => flow.isMerge id = false ∧ flow.isHead id = false
  | delete _ => True
  | setBranches .. => False

variable {flow : Flow} {limits : Limits} {supply left : Supply} {change : Change} {edit : Edit}
  {line : Line} {id source target : NodeId} {kind : String} {label : Option String}
  {params : Option Json.Members} {branches : Option (List String)} {node : Node}

section Kinds

variable (nests : flow.Nests line) (named : flow.NamesOwn line) (firm : flow.Firm)
include nests named firm

/-- Inserting a step keeps the order. -/
theorem keeps_order_insert
    (done : (insert source target kind label branches).run flow limits supply = .ok (change, left))
    (fresh : change.FreshFor flow) : change.flow.Ordered ∧ change.flow.Firm := by
  obtain ⟨edge, found, rfl⟩ := insert_cases done
  rcases NewStep.make_cases kind label none branches supply with
    ⟨own, made, plain⟩ | ⟨block, names, head, merge, slots, made, some', full⟩
  · rw [made] at fresh ⊢
    refine ⟨nests.splice named found (NewStep.forms_plain plain) fresh,
      Flow.Firm.settle (Flow.Firm.append firm fun node member => ?_)⟩
    obtain rfl := List.mem_singleton.mp member
    exact Flow.firm_of_not_merge rfl
  · rw [made] at fresh ⊢
    exact ⟨nests.splice named found (NewStep.forms_block some' full) fresh,
      Flow.Firm.settle (Flow.Firm.append firm Flow.firm_block)⟩

/-- Swapping a step that is no merge keeps the order. -/
theorem keeps_order_swap (covers : limits.Covers flow) (plain : flow.isMerge id = false)
    (done : (swap id kind label params).run flow limits supply = .ok (change, left)) :
    change.flow.Ordered ∧ change.flow.Firm := by
  obtain ⟨node, found, alike, rfl⟩ := swap_cases done
  obtain rfl := Flow.id_of_node?_eq_some found
  have single : node.isMerge = false := (Flow.isMerge_of_node? found).symm.trans plain
  have same := @Flow.isMerge_refill flow limits node kind label params
  refine Flow.keeps_replaceNode nests named firm found alike.symm same ?_
    (Flow.firm_of_not_merge (same.trans single))
  intro merge names
  rcases Flow.names_pinMerge names with ⟨opens, present⟩ | kept
  · have isHead : flow.isHead node.id = true := (Flow.isHead_of_node? found).trans opens
    exact nests.names_of_merge? named covers isHead present
  · exact named.of_node? found merge kept

/-- Filling a slot that is neither head nor merge keeps the order. -/
theorem keeps_order_fill (plain : flow.isMerge id = false) (closed : flow.isHead id = false)
    (done : (fill id kind label params branches).run flow limits supply = .ok (change, left))
    (fresh : change.FreshFor flow) : change.flow.Ordered ∧ change.flow.Firm := by
  obtain ⟨slot, found, -, ⟨straight, rfl⟩ | ⟨block, -, -, rfl⟩⟩ := fill_cases done
  · obtain rfl := Flow.id_of_node?_eq_some found
    have isPlain : slot.isMerge = false := (Flow.isMerge_of_node? found).symm.trans plain
    have isClosed : slot.isHead = false := (Flow.isHead_of_node? found).symm.trans closed
    refine Flow.keeps_replaceNode nests named firm found ?_ rfl
      (fun merge names => named.of_node? found merge names) (Flow.firm_of_not_merge isPlain)
    rw [isClosed, Node.isHead, Node.blockKind?, Option.bind_some, straight]
    rfl
  · obtain rfl := Flow.id_of_node?_eq_some found
    obtain ⟨names, head, merge, slots, made, some', full⟩ :=
      NewStep.makeBlock_cases block label params branches supply
    have isPlain : slot.isMerge = false := (Flow.isMerge_of_node? found).symm.trans plain
    rw [made] at fresh ⊢
    exact ⟨nests.fillWithBlock named ⟨closed, plain⟩ found (NewStep.forms_block some' full) fresh,
      firm.fillWithBlock isPlain Flow.firm_block⟩

/-- Deleting the head of a block keeps the order. -/
theorem keeps_order_delete_head (covers : limits.Covers flow) (opens : flow.isHead id = true)
    (done : (delete id).run flow limits supply = .ok (change, left))
    (fresh : change.FreshFor flow) : change.flow.Ordered ∧ change.flow.Firm := by
  obtain ⟨context, lanes, merge, out, rest, rfl⟩ := nests.exists_block_of_isHead opens
  -- There is one outcome, and it takes out the block.
  obtain ⟨made, remaining, doneToo, -, excises⟩ := nests.exists_delete_head covers named supply
  rw [doneToo, Except.ok.injEq, Prod.mk.injEq] at done
  obtain ⟨rfl, -⟩ := done
  exact Flow.keeps_excise nests named firm excises fresh

/-- Deleting a node that opens no block keeps the order: a merge is not deleted, and a step
gives its slot back or goes. -/
theorem keeps_order_delete_step (covers : limits.Covers flow) (found : flow.node? id = some node)
    (closed : node.isHead = false) (deletes : DeletesStep flow limits supply node change)
    (fresh : change.FreshFor flow) : change.flow.Ordered ∧ change.flow.Firm := by
  obtain rfl := Flow.id_of_node?_eq_some found
  have member := Flow.mem_of_node?_eq_some found
  have known : node.id ∈ flow.ids := List.mem_map_of_mem member
  -- Merges wait, so a node that does not wait is none.
  have plain : node.content.isPlaceholder = false → node.isMerge = false := by
    intro filled
    rw [Bool.eq_false_iff]
    intro joins
    rw [(firm node member joins).1] at filled
    cases filled
  rcases nests.place_cases known with
    ⟨context, out, rest, rfl, -⟩ | ⟨_, _, _, _, _, -, plays⟩ | ⟨context, head, lanes, out, rest, rfl, plays⟩
  · cases deletes with
    | join joins filled =>
      -- A plain step is no join.
      have few : (flow.edgesTo node.id).length ≤ 1 := nests.length_edgesTo_first_le
      omega
    | slot _ filled => exact Flow.keeps_emptied nests named firm found closed (plain filled)
    | gone closes =>
      have same : ∀ other, other ∈ [node.id] ↔ other ∈ (Item.step node.id).ids := fun _ => Iff.rfl
      have excises := nests.leavesGap_step.excises nests same [node.id] supply
      exact Flow.keeps_excise nests named firm excises fresh
  · have opens : node.isHead = true := (Flow.isHead_of_node? found).symm.trans plays.1
    exact absurd (closed.symm.trans opens) Bool.false_ne_true
  · have joins : node.isMerge = true := (Flow.isMerge_of_node? found).symm.trans plays.2
    cases deletes with
    | join _ filled => exact absurd joins (Bool.eq_false_iff.mp (plain filled))
    | slot _ filled => exact absurd joins (Bool.eq_false_iff.mp (plain filled))
    | gone closes =>
      -- The merge closes the block of a head, so its deletion was refused.
      have closing := nests.closingHead?_eq covers named
      rw [closes joins] at closing
      cases closing

/-- Deleting a node keeps the order. -/
theorem keeps_order_delete (covers : limits.Covers flow)
    (done : (delete id).run flow limits supply = .ok (change, left))
    (fresh : change.FreshFor flow) : change.flow.Ordered ∧ change.flow.Firm := by
  obtain ⟨node, found, ⟨starts, rfl⟩ | ⟨-, opens, -⟩ | ⟨-, closed, deletes⟩⟩ := delete_cases done
  · -- A merge is not of the kind that starts a flow, so the reset node is none.
    obtain rfl := Flow.id_of_node?_eq_some found
    have plain : node.isMerge = false := by
      rw [Bool.eq_false_iff]
      exact fun joins => (firm node (Flow.mem_of_node?_eq_some found) joins).2.2 starts
    refine Flow.keeps_replaceNode nests named firm found rfl plain.symm ?_
      (Flow.firm_of_not_merge rfl)
    intro merge names
    cases names
  · have isHead : flow.isHead id = true := (Flow.isHead_of_node? found).trans opens
    exact keeps_order_delete_head nests named firm covers isHead done fresh
  · exact keeps_order_delete_step nests named firm covers found closed deletes fresh

end Kinds

/-- An edit that is made keeps the order of a flow whose merges are slots that wait, if it
swaps no merge and fills neither head nor merge. -/
theorem keeps_order (ordered : flow.Ordered) (firm : flow.Firm) (covers : limits.Covers flow)
    (suits : edit.Suits flow) (done : edit.run flow limits supply = .ok (change, left))
    (fresh : change.FreshFor flow) : change.flow.Ordered ∧ change.flow.Firm := by
  obtain ⟨line, nests, named⟩ := ordered
  cases edit with
  | insert source target kind label branches =>
    exact keeps_order_insert nests named firm done fresh
  | swap id kind label params => exact keeps_order_swap nests named firm covers suits done
  | fill id kind label params branches =>
    exact keeps_order_fill nests named firm suits.1 suits.2 done fresh
  | delete id => exact keeps_order_delete nests named firm covers done fresh
  | setBranches id names => cases suits

end Edit

end Workflow
