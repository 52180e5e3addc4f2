import Workflow.Edit.Basic
import Workflow.Proofs.Editing.Excision
import Workflow.Proofs.Nesting.Resolution

/-!
# Deleting a block

In a well-nested flow whose heads name their own merges, if any, the head of a block is
deleted with exactly the nodes of the block. What stays is the flow of the sequence without
the block.

## Main results

* `Nests.removeBlock_eq` — the merge of a block is not shared, so the block goes as a whole
* `Nests.delete_head` — the deletion of a block
-/

namespace Workflow

namespace Flow

variable {flow : Flow} {context : Line.Context} {out : Option String} {rest : Line}
  {head merge id : NodeId} {lanes : List Lane} {limits : Limits} {supply : Supply} {node : Node}

/-- The deletion of a head is that of a block. -/
theorem plan_delete_eq_deleteBlock (found : flow.node? head = some node)
    (opens : node.isHead = true) :
    (Edit.delete head).plan flow limits = flow.deleteBlock limits node := by
  -- A head is of a block kind, so the deletion does not reset it.
  have later : node.kind ≠ some Kind.trigger := by
    intro starts
    rw [Node.isHead, Node.blockKind?, starts] at opens
    exact absurd opens (by decide)
  rw [Edit.plan, delete, found]
  simp only [if_neg later, opens, if_true]

/-- The deletion of a head takes out its block, if there is a merge that closes it. -/
theorem plan_delete_head (found : flow.node? head = some node) (opens : node.isHead = true)
    (present : flow.presentMerge? limits head = some merge) (apart : merge ≠ head) :
    (Edit.delete head).plan flow limits = .ok (flow.removeBlock limits node merge) := by
  rw [plan_delete_eq_deleteBlock found opens, deleteBlock, id_of_node?_eq_some found, present]
  simp only [if_neg apart]
  rfl

/-- The deletion of a head that no merge closes is refused. -/
theorem plan_delete_open (found : flow.node? head = some node) (opens : node.isHead = true)
    (absent : flow.presentMerge? limits head = none) :
    (Edit.delete head).plan flow limits = .error (.openBlock head) := by
  rw [plan_delete_eq_deleteBlock found opens, deleteBlock, id_of_node?_eq_some found, absent]
  rfl

section Block

variable (nests : flow.Nests (context.plug (.cons (.block head lanes merge) out rest)))
include nests

/-- The body of a block and its merge are the nodes of the block. -/
theorem Nests.mem_whole_iff (covers : limits.Covers flow) (id : NodeId) :
    id ∈ flow.body limits head merge ++ [merge] ↔ id ∈ (Item.block head lanes merge).ids := by
  rw [List.mem_append, nests.mem_body_iff covers, Item.ids_block, List.mem_append]

variable (covers : limits.Covers flow)
  (named : flow.NamesOwn (context.plug (.cons (.block head lanes merge) out rest)))
include covers named

/-- A node that names the merge of a block is the head of the block. -/
theorem Nests.eq_head_of_names (member : node ∈ flow.nodes)
    (names : node.content.mergeNodeId = some merge) : node.id = head := by
  obtain ⟨block, inside, same, last⟩ := named node member merge names
  obtain ⟨around, arms, name, behind, whole⟩ := Line.exists_context_of_mem_blocks inside
  -- The way up from the merge ends at one head only.
  have own := (whole ▸ nests).starter?_eq covers
  rw [last, nests.starter?_eq covers, Option.some.injEq, same] at own
  exact own.symm

/-- The head whose block a merge closes at present is that of its block. -/
theorem Nests.closingHead?_eq : flow.closingHead? limits merge = some head := by
  rw [closingHead?]
  split
  · rename_i opener found
    have closes := List.find?_some found
    obtain ⟨-, -, names⟩ := of_decide_eq_true closes
    rw [nests.eq_head_of_names covers named (List.mem_of_find?_eq_some found) names]
  · rw [nests.starter?_eq covers, Option.filter_some, nests.merge?_eq covers named]
    simp

/-- The merge that closes a block at present is its own. -/
theorem Nests.presentMerge?_eq : flow.presentMerge? limits head = some merge := by
  have present := has_iff_mem_ids.mpr nests.mem_ids_ends.2
  rw [presentMerge?, nests.merge?_eq covers named]
  simp [present]

/-- Nothing outside a block depends on its merge. -/
theorem Nests.sharesMerge_eq_false :
    flow.sharesMerge merge (flow.body limits head merge) = false := by
  have body : ∀ {id}, id ∈ flow.body limits head merge ↔ id ∈ head :: laneIds lanes :=
    nests.mem_body_iff covers
  have headIn : head ∈ flow.body limits head merge := body.mpr List.mem_cons_self
  rw [sharesMerge, nests.plays_ends.2.1, Bool.or_eq_false_iff, Bool.or_eq_false_iff]
  refine ⟨⟨rfl, ?_⟩, ?_⟩
  · -- A head that names the merge is the head of the block.
    rw [List.any_eq_false]
    intro other member shares
    obtain ⟨outside, -, names⟩ := of_decide_eq_true shares
    exact outside (nests.eq_head_of_names covers named member names ▸ headIn)
  · -- Edges into the merge come from the block.
    rw [List.any_eq_false]
    intro edge member outside
    have target := (mem_edgesTo.mp member).2
    have leads : flow.Leads edge.source merge := ⟨edge, (mem_edgesTo.mp member).1, rfl, target⟩
    obtain ⟨wire, inside, source, -⟩ := nests.hosts.inward (by simp) nests.hosts.merge_ne_head leads
    have within := Item.source_mem_ids inside
    have short := Item.source_ne_last nests.hosts.distinct inside
    rw [Item.ids_block, List.mem_append, List.mem_singleton] at within
    have inBody := body.mpr (within.resolve_right short)
    rw [source] at inBody
    exact of_decide_eq_true outside inBody

/-- A block is taken out of a well-nested flow as a whole. -/
theorem Nests.removeBlock_eq (found : flow.node? head = some node) :
    flow.removeBlock limits node merge =
      flow.removeAndBridge (flow.body limits head merge ++ [merge])
        (flow.idsIn (Item.block head lanes merge).ids)
        (flow.gaps (flow.body limits head merge ++ [merge]) head
          ((flow.children merge).filter (· ∉ flow.body limits head merge ++ [merge])))
        fun merge => merge := by
  have single : node.isMerge = false := (isMerge_of_node? found).symm.trans nests.plays_ends.1.2
  have same : flow.idsIn (flow.body limits head merge ++ [merge]) =
      flow.idsIn (Item.block head lanes merge).ids :=
    idsIn_congr (nests.mem_whole_iff covers)
  rw [removeBlock, id_of_node?_eq_some found, single, nests.sharesMerge_eq_false covers named]
  simp only [Bool.or_false, Bool.false_eq_true, if_false, same]

/-- Deleting the head of a block takes out the block. -/
theorem Nests.exists_delete_head (supply : Supply) : ∃ change left,
    (Edit.delete head).run flow limits supply = .ok (change, left) ∧
      change.removed = flow.idsIn (Item.block head lanes merge).ids ∧
      flow.Excises context (.block head lanes merge) rest (supply.upcoming 0) change := by
  obtain ⟨node, found⟩ : ∃ node, flow.node? head = some node :=
    Option.isSome_iff_exists.mp (has_iff_mem_ids.mpr nests.mem_ids_ends.1)
  have opens : node.isHead = true := (isHead_of_node? found).symm.trans nests.plays_ends.1.1
  have planned := plan_delete_head found opens (nests.presentMerge?_eq covers named)
    nests.hosts.merge_ne_head
  rw [nests.removeBlock_eq covers named found] at planned
  have whole := nests.mem_whole_iff covers
  have excises := (nests.leavesGap_block whole).excises nests whole
    (flow.idsIn (Item.block head lanes merge).ids) supply
  exact ⟨_, _, Edit.run_eq_ok_iff.mpr ⟨_, planned, rfl⟩, rfl, excises⟩

end Block

/-- The head of a block is deleted with exactly the nodes of the block. What stays is the flow
of the sequence without the block, with a new slot in its place if it was alone on its branch,
and all other nodes are as they were. -/
theorem Nests.delete_head
    (nests : flow.Nests (context.plug (.cons (.block head lanes merge) out rest)))
    (covers : limits.Covers flow)
    (named : flow.NamesOwn (context.plug (.cons (.block head lanes merge) out rest)))
    (fresh : supply.upcoming 0 ∉ flow.ids) : ∃ change left,
      (Edit.delete head).run flow limits supply = .ok (change, left) ∧
        change.removed = flow.ids.filter (· ∈ (Item.block head lanes merge).ids) ∧
        (context.opens = true ∧ rest = .done →
          change.added = [supply.upcoming 0] ∧
          change.flow.wires.Perm
            ((context.plug (.cons (.step (supply.upcoming 0)) none .done)).wires none none) ∧
          ∃ text, change.flow.nodes =
            flow.nodes.filter (·.id ∉ (Item.block head lanes merge).ids) ++
              [.branchPlaceholder (supply.upcoming 0) text]) ∧
        (¬ (context.opens = true ∧ rest = .done) →
          change.added = [] ∧
          change.flow.wires.Perm ((context.plug rest).wires none none) ∧
          change.flow.nodes = flow.nodes.filter (·.id ∉ (Item.block head lanes merge).ids)) := by
  obtain ⟨change, left, done, removed, excises⟩ := nests.exists_delete_head covers named supply
  have added := excises.added_eq
  have unused : ∀ id ∈ change.added, id ∉ flow.ids := by
    intro id inside
    rw [added] at inside
    split at inside
    · rwa [List.mem_singleton.mp inside]
    · cases inside
  -- The slot, if there is one, is new, so what stays is settled already.
  obtain ⟨text, nodes⟩ := excises.nodes_eq nests named unused
  have wires := (excises.nests nests unused).wires
  refine ⟨change, left, done, removed, fun alone => ?_, fun accompanied => ?_⟩
  · have empties := Line.Context.empties_iff.mpr alone
    rw [if_pos empties] at added nodes
    rw [Line.Context.remnant, if_pos empties] at wires
    exact ⟨added, wires, text, nodes⟩
  · rw [← Line.Context.empties_iff] at accompanied
    rw [if_neg accompanied] at added nodes
    rw [Line.Context.remnant, if_neg accompanied] at wires
    rw [List.append_nil] at nodes
    exact ⟨added, wires, nodes⟩

/-- The sample around its condition. -/
def sampleContext : Line.Context :=
  [.after (.step "start") none,
    .within "outer" [] (some "A") [(some "B", .done)] "join" none (.cons (.step "end") none .done)]

/-- The condition in the sample, alone on its branch, gives way to a slot. -/
theorem Nests.delete_head_sample : sample.Nests (sampleContext.plug (.cons sampleInner none .done)) ∧
    ∃ change left, (Edit.delete "inner").run sample {} .numbered = .ok (change, left) ∧
      change.removed = ["inner", "close", "slot"] ∧ change.added = ["000000000001"] ∧
      change.flow.wires.Perm ((sampleContext.plug
        (.cons (.step "000000000001") none .done)).wires none none) := by
  have nests : sample.Nests (sampleContext.plug (.cons sampleInner none .done)) := by
    decide +kernel
  have covers : ({} : Limits).Covers sample := by decide +kernel
  have named : sample.NamesOwn (sampleContext.plug (.cons sampleInner none .done)) := by
    decide +kernel
  have fresh : Supply.numbered.upcoming 0 ∉ sample.ids := by decide +kernel
  obtain ⟨change, left, done, removed, alone, -⟩ := nests.delete_head covers named fresh
  obtain ⟨added, wires, -⟩ := alone ⟨rfl, rfl⟩
  have slot : Supply.numbered.upcoming 0 = "000000000001" := by decide +kernel
  have whole : sample.ids.filter (· ∈ sampleInner.ids) = ["inner", "close", "slot"] := by
    decide +kernel
  rw [slot] at added wires
  exact ⟨nests, change, left, done, removed.trans whole, added, wires⟩

end Flow

end Workflow
