import Workflow.Proofs.Editing.Guarding
import Workflow.Proofs.Editing.Withdrawal
import Workflow.Settings.Basic

/-!
# A new merge in the place of an old one

A slot at which branches come together is filled with a block, and then the block is deleted. The
head of the block takes over the role of the slot, and hands it on to its own merge when it goes.
What is left is the flow with the new merge in the place of the slot. The edges of the slot are its
edges, and it is named by what named the slot, and by the head whose block the slot closed.

## Main definitions

* `Wire.renew`, `Node.renew` — an edge and a node, once a merge has given way to another
* `Flow.Renews` — a flow with a new merge in the place of one

## Main results

* `exists_removeBlock_fillWithBlock` — a block that filled a join leaves its merge in its place
* `Session.fill_delete` — a join is filled with a block, which is deleted
-/

namespace Workflow

/-- The edge once one node has given way to another. The branch of an edge that led on from there is
lost. -/
def Wire.renew (before after : NodeId) (wire : Wire) : Wire :=
  ⟨handOver before after wire.source, handOver before after wire.target,
    if wire.source = before then none else wire.branch⟩

/-- The node once a merge has given way to another. What named the one names the other, and so does
the head whose block was closed there. -/
def Node.renew (closed : Option NodeId) (before after : NodeId) (node : Node) : Node :=
  node.mapContent fun content => content.withMerge
    (if some node.id = closed then some after else content.mergeNodeId.map (handOver before after))

/-- A flow is another one with a new merge in the place of one of its nodes, behind all others. -/
structure Flow.Renews (flow renewed : Flow) (limits : Limits) (before after : NodeId) : Prop where
  flowId : renewed.flowId = flow.flowId
  nodes : renewed.nodes = (flow.nodes.filter (·.id ≠ before)).map
    (Node.renew (flow.closingHead? limits before) before after) ++ [.mergePlaceholder after]
  wires : renewed.wires.Perm (flow.wires.map (Wire.renew before after))

namespace Node

variable {node : Node} {closed : Option NodeId} {rename next : NodeId → NodeId}
  {before opener after : NodeId} {alive still : List NodeId}

/-- A node that is settled twice names what the name was sent to, if that was there both times. -/
theorem settle_settle (own : ∀ merge, node.content.mergeNodeId = some merge →
    rename merge ∈ alive ∧ next (rename merge) ∈ still) :
    (node.settle rename alive).settle next still = node.mapContent fun content =>
      content.withMerge (content.mergeNodeId.map fun merge => next (rename merge)) := by
  cases names : node.content.mergeNodeId with
  | none => simp [settle, mapContent, Content.withMerge, names]
  | some merge =>
    obtain ⟨here, there⟩ := own merge names
    simp [settle, mapContent, Content.withMerge, names, here, there]

/-- A head was told to name an opener, and the role of a merge went to the opener. Once that has
handed it on, the node is renewed. -/
theorem settle_pin_eq_renew (here : opener ∈ alive) (there : after ∈ still)
    (own : ∀ merge, node.content.mergeNodeId = some merge →
      merge ≠ opener ∧ (merge ≠ before → merge ∈ alive ∧ merge ∈ still)) :
    ((node.pin closed opener).settle (handOver before opener) alive).settle
      (handOver opener after) still = node.renew closed before after := by
  by_cases closes : some node.id = closed
  · rw [renew, pin_of_closes closes, settle_settle]
    · simp only [mapContent, Content.withMerge, Option.map_some, handOver_heir, handOver_self,
        if_pos closes]
    · intro merge names
      obtain rfl : opener = merge := Option.some.inj names
      rw [handOver_heir, handOver_self]
      exact ⟨here, there⟩
  · rw [renew, pin_of_not_closes closes, settle_settle]
    · cases names : node.content.mergeNodeId with
      | none => simp only [mapContent, names, Option.map_none, if_neg closes]
      | some merge =>
        simp only [mapContent, names, Option.map_some, handOver_handOver (own merge names).1,
          if_neg closes]
    · intro merge names
      obtain ⟨apart, stays⟩ := own merge names
      rw [handOver_handOver apart]
      by_cases same : merge = before
      · rw [same, handOver_self, handOver_self]
        exact ⟨here, there⟩
      · rw [handOver_of_ne same, handOver_of_ne same]
        exact stays same

end Node

namespace Flow

open scoped List

variable {flow : Flow} {slot node : Node} {step : NewStep} {limits : Limits} {supply : Supply}
  {id head merge : NodeId} {slots removed : List NodeId}

/-- Where no edge leads from a node to itself, the edges are those that do not touch it, those that
enter it and those that leave it. -/
theorem edges_perm_of_no_loop (straight : ∀ edge ∈ flow.edgesTo id, edge.source ≠ id) :
    flow.edges.Perm ((flow.without [id]).edges ++ (flow.edgesTo id ++ flow.edgesFrom id)) := by
  have out : (flow.edges.filter fun edge => !decide (edge.target = id)).filter
      (fun edge => decide (edge.source = id)) = flow.edgesFrom id := by
    rw [List.filter_filter, edgesFrom]
    refine List.filter_congr fun edge member => ?_
    by_cases leaves : edge.source = id
    · -- What leaves the node does not enter it.
      have off : edge.target ≠ id := fun enters =>
        straight edge (mem_edgesTo.mpr ⟨member, enters⟩) leaves
      simp [leaves, off]
    · simp [leaves]
  have rest : (flow.edges.filter fun edge => !decide (edge.target = id)).filter
      (fun edge => !decide (edge.source = id)) = (flow.without [id]).edges := by
    rw [List.filter_filter, without]
    exact List.filter_congr fun edge _ => by simp
  have first := List.filter_append_perm (fun edge : Edge => decide (edge.target = id)) flow.edges
  have second := List.filter_append_perm (fun edge : Edge => decide (edge.source = id))
    (flow.edges.filter fun edge => !decide (edge.target = id))
  rw [out, rest] at second
  calc flow.edges
    _ ~ flow.edgesTo id ++ flow.edges.filter (fun edge => !decide (edge.target = id)) := first.symm
    _ ~ flow.edgesTo id ++ (flow.edgesFrom id ++ (flow.without [id]).edges) :=
      second.symm.append_left _
    _ = flow.edgesTo id ++ flow.edgesFrom id ++ (flow.without [id]).edges :=
      (List.append_assoc _ _ _).symm
    _ ~ (flow.without [id]).edges ++ (flow.edgesTo id ++ flow.edgesFrom id) :=
      List.perm_append_comm

/-- The edges once a node has given way to another. -/
theorem wires_renew (straight : ∀ edge ∈ flow.edgesTo id, edge.source ≠ id) (after : NodeId) :
    (flow.wires.map (Wire.renew id after)).Perm ((flow.without [id]).wires ++
      ((flow.edgesTo id).map (fun edge => ⟨edge.source, after, edge.branch⟩) ++
        (flow.edgesFrom id).map fun edge => ⟨after, edge.target, none⟩)) := by
  have others : (flow.without [id]).edges.map (Wire.renew id after ∘ Edge.wire) =
      (flow.without [id]).wires := List.map_congr_left fun edge member => by
    obtain ⟨-, starts, ends⟩ := mem_edges_without.mp member
    simp only [List.mem_singleton] at starts ends
    simp [Wire.renew, Edge.wire, handOver_of_ne starts, handOver_of_ne ends, starts]
  have into : (flow.edgesTo id).map (Wire.renew id after ∘ Edge.wire) =
      (flow.edgesTo id).map fun edge => ⟨edge.source, after, edge.branch⟩ :=
    List.map_congr_left fun edge member => by
      have starts := straight edge member
      simp [Wire.renew, Edge.wire, (mem_edgesTo.mp member).2, handOver_self, handOver_of_ne starts,
        starts]
  have out : (flow.edgesFrom id).map (Wire.renew id after ∘ Edge.wire) =
      (flow.edgesFrom id).map fun edge => ⟨after, edge.target, none⟩ :=
    List.map_congr_left fun edge member => by
      obtain ⟨known, starts⟩ := mem_edgesFrom.mp member
      have ends : edge.target ≠ id := fun enters =>
        straight edge (mem_edgesTo.mpr ⟨known, enters⟩) starts
      simp [Wire.renew, Edge.wire, starts, handOver_self, handOver_of_ne ends]
  -- Each edge is of one of the three kinds, and each kind is turned in its own way.
  have split := (edges_perm_of_no_loop straight).map (Wire.renew id after ∘ Edge.wire)
  rwa [List.map_append, List.map_append, others, into, out, ← List.map_map] at split

/-! ### A block in the place of a join -/

/-- In a list of nodes with distinct identities, one of which stays, that is what is left. -/
theorem filter_eq_singleton {nodes : List Node} (distinct : (nodes.map (·.id)).Nodup)
    (member : node ∈ nodes) (only : ∀ other ∈ nodes, other.id ∉ removed ↔ other.id = node.id) :
    nodes.filter (·.id ∉ removed) = [node] := by
  have same : nodes.filter (·.id ∉ removed) = nodes.filter (· = node) :=
    List.filter_congr fun other inside => by
      rw [decide_eq_decide, only other inside]
      exact ⟨List.inj_on_of_nodup_map distinct inside member, congrArg _⟩
  rw [same, List.filter_eq, List.count_eq_one_of_mem (List.Nodup.of_map _ distinct) member]
  rfl

@[simp] theorem flowId_pinHead (flow : Flow) (closed : Option NodeId) (merge : NodeId) :
    (flow.pinHead closed merge).flowId = flow.flowId := by
  cases closed <;> rfl

theorem flowId_fillWithBlock (flow : Flow) (limits : Limits) (slot : Node) (step : NewStep) :
    (flow.fillWithBlock limits slot step).flow.flowId = flow.flowId :=
  flowId_pinHead _ _ _

theorem mem_ids_fillWithBlock_of_mem (inside : id ∈ step.nodes.map (·.id)) :
    id ∈ (flow.fillWithBlock limits slot step).flow.ids := by
  rw [(flow.retouches_fillWithBlock limits slot step).ids_eq]
  exact List.mem_append_right _ inside

theorem mem_ids_fillWithBlock_of_ne (old : id ∈ flow.ids) (apart : id ≠ slot.id) :
    id ∈ (flow.fillWithBlock limits slot step).flow.ids := by
  rw [(flow.retouches_fillWithBlock limits slot step).ids_eq]
  refine List.mem_append_left _ (List.mem_filter.mpr ⟨old, decide_eq_true fun gone => ?_⟩)
  exact apart (List.mem_singleton.mp gone)

/-- A block in the place of a join has a head that is a merge itself, and the head above names
that. -/
theorem retouches_fillWithBlock_join (joins : flow.takesJoin slot = true) (limits : Limits)
    (step : NewStep) : (flow.fillWithBlock limits slot step).Retouches flow
      (Node.pin (flow.closingHead? limits slot.id) step.head.id) (handOver slot.id step.head.id)
      ((step.head.markMerge :: step.parts).map
        (Node.pin (flow.closingHead? limits slot.id) step.head.id)) := by
  have retouches := flow.retouches_fillWithBlock limits slot step
  have above : flow.headAbove? limits slot = flow.closingHead? limits slot.id := if_pos joins
  have head : flow.fillHead slot step.head = step.head.markMerge := if_pos joins
  rwa [above, head, if_pos joins] at retouches

/-- The head and the slots of a block are nodes of it. -/
theorem mem_of_body (whole : ∀ id, id ∈ removed ↔ id = head ∨ id ∈ slots) :
    ∀ id ∈ removed, id ∈ head :: (slots ++ [merge]) := by
  intro id gone
  rcases (whole id).mp gone with rfl | slot
  · exact List.mem_cons_self
  · exact List.mem_cons_of_mem _ (List.mem_append_left _ slot)

/-! ### The edges without the block -/

section Edges

variable (ladder : step.Ladder head merge slots)
  (fresh : (flow.fillWithBlock limits slot step).FreshFor flow)
  (whole : ∀ id, id ∈ removed ↔ id = head ∨ id ∈ slots)
include ladder fresh whole

/-- No node from before is taken out with the block. -/
theorem notMem_of_mem_ids (old : id ∈ flow.ids) : id ∉ removed := fun gone => by
  have inside : id ∈ step.nodes.map (·.id) := ladder.ids ▸ mem_of_body whole id gone
  exact fresh.unused id inside (.inl old)

/-- No gap needs a slot, since no head led to the join. -/
theorem run_bridgeAll_fillWithBlock
    (plain : ∀ edge ∈ flow.edgesTo slot.id, flow.isHead edge.source = false) (supply : Supply) :
    StateT.run ((flow.fillWithBlock limits slot step).flow.bridgeAll
      ((flow.fillWithBlock limits slot step).flow.gaps removed head [merge])) supply =
      ({ edges := (flow.edgesTo slot.id).map fun edge =>
          .connect edge.source merge edge.branch }, supply) := by
  have distinct : (head :: (slots ++ [merge])).Nodup := ladder.ids ▸ fresh.distinct
  have within : ∀ id ∈ removed, id ∈ head :: (slots ++ [merge]) := mem_of_body whole
  have gaps : (flow.fillWithBlock limits slot step).flow.gaps removed head [merge] =
      (flow.edgesTo slot.id).map fun edge => ⟨.connect edge.source step.head.id edge.branch, merge,
        (flow.fillWithBlock limits slot step).flow.isJoin removed merge⟩ := by
    rw [(seats_fillWithBlock fresh).gaps_eq ladder distinct within, List.flatMap_map]
    exact List.map_eq_flatMap.symm
  rw [gaps, run_bridgeAll_of_none, List.map_map]
  · rfl
  · intro gap member
    obtain ⟨edge, enters, rfl⟩ := List.mem_map.mp member
    refine slotHead?_eq_none (.inr (Bool.eq_false_iff.mpr fun opens => ?_))
    have still := (recasts_fillWithBlock fresh).isHead_of_mentions
      (mentions_source (mem_edgesTo.mp enters).1) opens
    exact Bool.false_ne_true ((plain edge enters).symm.trans still)

/-- The edges once the block has gone and the gaps are closed. -/
theorem wires_renewed (loopless : ∀ edge ∈ flow.edgesTo slot.id, edge.source ≠ slot.id)
    (single : (flow.edgesFrom slot.id).length ≤ 1) :
    (((flow.fillWithBlock limits slot step).flow.without removed).append
      { edges := (flow.edgesTo slot.id).map fun edge =>
          .connect edge.source merge edge.branch }).wires ~
      flow.wires.map (Wire.renew slot.id merge) := by
  have distinct : (head :: (slots ++ [merge])).Nodup := ladder.ids ▸ fresh.distinct
  have within : ∀ id ∈ removed, id ∈ head :: (slots ++ [merge]) := mem_of_body whole
  have stays : merge ∉ removed := by
    rw [whole]
    grind
  -- The merge stays, so the edge out of it does, and the gaps are closed by edges into it.
  have edges := (seats_fillWithBlock fresh).edges_without ladder within fun id => (whole id).mpr
  rw [if_neg stays, List.take_of_length_le single, ladder.last] at edges
  have into : (flow.edgesTo slot.id).map (Edge.wire ∘ fun edge =>
      Edge.connect edge.source merge edge.branch) =
      (flow.edgesTo slot.id).map fun edge => ⟨edge.source, merge, edge.branch⟩ := rfl
  have out : (flow.edgesFrom slot.id).map (Edge.wire ∘ fun edge =>
      Edge.connect merge edge.target none) =
      (flow.edgesFrom slot.id).map fun edge => ⟨merge, edge.target, none⟩ := rfl
  rw [wires_append, wires, edges, List.map_append, List.map_map, List.map_map, into, out,
    List.append_assoc]
  exact (List.perm_append_comm.append_left _).trans (wires_renew loopless merge).symm

end Edges

/-! ### The nodes without the block -/

section Nodes

variable (known : slot.id ∈ flow.ids) (ladder : step.Ladder head merge slots)
  (fresh : (flow.fillWithBlock limits slot step).FreshFor flow)
include known ladder fresh

/-- The nodes of the new block stay as they are when merges that are named are mended. -/
theorem settle_pin_fillWithBlock (member : node ∈ step.head.markMerge :: step.parts) :
    (node.pin (flow.closingHead? limits slot.id) step.head.id).settle
      (handOver slot.id step.head.id) (flow.fillWithBlock limits slot step).flow.ids = node := by
  have inside : node.id ∈ step.nodes.map (·.id) :=
    (List.mem_map_of_mem member : node.id ∈ (step.head.markMerge :: step.parts).map (·.id))
  have unpinned : ¬ some node.id = flow.closingHead? limits slot.id := fun closes =>
    fresh.unused node.id inside (.inl (mem_ids_of_closingHead? closes.symm))
  have own : ∀ name, node.content.mergeNodeId = some name → name = merge := by
    intro name names
    rcases List.mem_cons.mp member with rfl | part
    · exact (ladder.of_names List.mem_cons_self names).2
    · exact (ladder.of_names (List.mem_cons_of_mem _ part) names).2
  have last : merge ∈ step.nodes.map (·.id) := List.mem_map_of_mem ladder.merge_mem_nodes
  rw [Node.pin_of_not_closes unpinned, Node.settle_eq_self]
  intro name names
  obtain rfl := own name names
  -- The merge of the block is new, so it is not the join that hands its role over.
  refine ⟨handOver_of_ne ?_, mem_ids_fillWithBlock_of_mem last⟩
  rintro rfl
  exact fresh.unused _ last (.inl known)

variable (joins : flow.takesJoin slot = true)
include joins

/-- The nodes once a join was filled. -/
theorem nodes_fillWithBlock : (flow.fillWithBlock limits slot step).flow.nodes =
    (flow.nodes.filter (·.id ≠ slot.id)).map (fun node =>
      (node.pin (flow.closingHead? limits slot.id) head).settle
        (handOver slot.id head) (flow.fillWithBlock limits slot step).flow.ids) ++
      (step.head.markMerge :: step.parts) := by
  have kept : flow.nodes.filter (·.id ∉ (flow.fillWithBlock limits slot step).removed) =
      flow.nodes.filter (·.id ≠ slot.id) :=
    List.filter_congr fun node _ => by simp [fillWithBlock]
  have new : (step.head.markMerge :: step.parts).map (fun node =>
      (node.pin (flow.closingHead? limits slot.id) step.head.id).settle
        (handOver slot.id step.head.id) (flow.fillWithBlock limits slot step).flow.ids) =
      step.head.markMerge :: step.parts :=
    (List.map_congr_left fun _ => settle_pin_fillWithBlock known ladder fresh).trans (List.map_id' _)
  rw [(retouches_fillWithBlock_join joins limits step).nodes, kept, List.map_append, List.map_map,
    List.map_map, ← ladder.first]
  exact congrArg _ new

/-- The head of the block is found. It is a merge itself, and names the merge of the block. -/
theorem node?_fillWithBlock_head :
    (flow.fillWithBlock limits slot step).flow.node? head = some step.head.markMerge := by
  have found := (retouches_fillWithBlock_join joins limits step).node?_new fresh
    (List.mem_map_of_mem List.mem_cons_self)
  rwa [settle_pin_fillWithBlock known ladder fresh List.mem_cons_self, Node.id_pin,
    Node.id_markMerge, ladder.first] at found

/-- The head of a block that filled a join is deleted as that of a block with its merge. -/
theorem plan_delete_fillWithBlock (nonempty : merge ≠ "") :
    (Edit.delete head).plan (flow.fillWithBlock limits slot step).flow limits = .ok
      ((flow.fillWithBlock limits slot step).flow.removeBlock limits step.head.markMerge merge) := by
  have first := node?_fillWithBlock_head known ladder fresh joins
  have last : merge ∈ step.nodes.map (·.id) := List.mem_map_of_mem ladder.merge_mem_nodes
  have distinct : (head :: (slots ++ [merge])).Nodup := ladder.ids ▸ fresh.distinct
  have apart : merge ≠ head := by grind
  exact plan_delete_head first ladder.opens.1
    (presentMerge?_of_node? first ladder.own nonempty (mem_ids_fillWithBlock_of_mem last)) apart

/-- Without the head and the slots of the block, its merge is left. -/
theorem nodes_without_fillWithBlock (whole : ∀ id, id ∈ removed ↔ id = head ∨ id ∈ slots) :
    ((flow.fillWithBlock limits slot step).flow.without removed).nodes =
      (flow.nodes.filter (·.id ≠ slot.id)).map (fun node =>
        (node.pin (flow.closingHead? limits slot.id) head).settle
          (handOver slot.id head) (flow.fillWithBlock limits slot step).flow.ids) ++
        [.mergePlaceholder merge] := by
  have distinct : (head :: (slots ++ [merge])).Nodup := ladder.ids ▸ fresh.distinct
  have all : (step.head.markMerge :: step.parts).map (·.id) = head :: (slots ++ [merge]) :=
    ladder.ids
  have last : (step.head.markMerge :: step.parts).filter (·.id ∉ removed) =
      [.mergePlaceholder merge] := by
    refine filter_eq_singleton (all ▸ distinct) (List.mem_cons_of_mem _ ladder.closes)
      fun other member => ?_
    have inside : other.id ∈ head :: (slots ++ [merge]) := all ▸ List.mem_map_of_mem member
    change other.id ∉ removed ↔ other.id = merge
    rw [whole]
    grind
  change (flow.fillWithBlock limits slot step).flow.nodes.filter (·.id ∉ removed) = _
  rw [nodes_fillWithBlock known ladder fresh joins, List.filter_append, last,
    List.filter_eq_self.mpr]
  intro node member
  obtain ⟨before, stays, rfl⟩ := List.mem_map.mp member
  rw [Node.id_settle, Node.id_pin]
  have old : before.id ∈ flow.ids := List.mem_map_of_mem (List.mem_filter.mp stays).1
  exact decide_eq_true (notMem_of_mem_ids ladder fresh whole old)

/-- Once the head has handed its role on, the nodes that stay are renewed. -/
theorem nodes_renewed (whole : ∀ id, id ∈ removed ↔ id = head ∨ id ∈ slots)
    (present : flow.NamesPresent) {still : List NodeId} (there : merge ∈ still)
    (stays : ∀ id ∈ flow.ids, id ≠ slot.id → id ∈ still) :
    ((flow.fillWithBlock limits slot step).flow.without removed).nodes.map
        (Node.settle (handOver head merge) still) =
      (flow.nodes.filter (·.id ≠ slot.id)).map
        (Node.renew (flow.closingHead? limits slot.id) slot.id merge) ++
        [.mergePlaceholder merge] := by
  have first : head ∈ step.nodes.map (·.id) := by simp [ladder.ids]
  have last : (Node.mergePlaceholder merge).settle (handOver head merge) still =
      .mergePlaceholder merge := Node.settle_eq_self fun name names => by cases names
  rw [nodes_without_fillWithBlock known ladder fresh joins whole, List.map_append, List.map_map,
    List.map_singleton, last]
  refine congrArg (· ++ _) (List.map_congr_left fun node member => ?_)
  refine Node.settle_pin_eq_renew (mem_ids_fillWithBlock_of_mem first) there fun name names => ?_
  -- A merge that was named before is not the new head, and it is still there unless it was filled.
  have old := present node (List.mem_filter.mp member).1 name names
  refine ⟨?_, fun apart => ⟨mem_ids_fillWithBlock_of_ne old apart, stays name old apart⟩⟩
  rintro rfl
  exact fresh.unused _ first (.inl old)

/-- A block that filled a join goes, and leaves its merge in the place of the join. -/
theorem exists_removeBlock_fillWithBlock (present : flow.NamesPresent)
    (plain : ∀ edge ∈ flow.edgesTo slot.id,
      edge.source ≠ slot.id ∧ flow.isHead edge.source = false)
    (single : (flow.edgesFrom slot.id).length ≤ 1) (admits : 0 < limits.scanLimit)
    (supply : Supply) : ∃ change,
      StateT.run ((flow.fillWithBlock limits slot step).flow.removeBlock limits
        step.head.markMerge merge) supply = (change, supply) ∧
      change.added = [] ∧ flow.Renews change.flow limits slot.id merge := by
  have distinct : (head :: (slots ++ [merge])).Nodup := ladder.ids ▸ fresh.distinct
  obtain ⟨removed, is, whole⟩ : ∃ removed,
      (flow.fillWithBlock limits slot step).flow.body limits head merge = removed ∧
        ∀ id, id ∈ removed ↔ id = head ∨ id ∈ slots :=
    ⟨_, rfl, fun id => (seats_fillWithBlock fresh).mem_body_iff ladder distinct admits⟩
  have removes : (flow.fillWithBlock limits slot step).flow.removeBlock limits
      step.head.markMerge merge = (flow.fillWithBlock limits slot step).flow.removeAndBridge removed
        ((flow.fillWithBlock limits slot step).flow.idsIn removed)
        ((flow.fillWithBlock limits slot step).flow.gaps removed head [merge])
        (handOver head merge) := by
    rw [removeBlock, Node.id_markMerge, ladder.first, Node.isMerge_markMerge, is]
    simp only [Bool.true_or, if_true]
  have bridges := run_bridgeAll_fillWithBlock ladder fresh whole
    (fun edge enters => (plain edge enters).2) supply
  let base := ((flow.fillWithBlock limits slot step).flow.without removed).append
    { edges := (flow.edgesTo slot.id).map fun edge => .connect edge.source merge edge.branch }
  have stays : ∀ id ∈ (flow.fillWithBlock limits slot step).flow.ids, id ∉ removed →
      id ∈ base.ids := fun id inside off => by
    rw [ids_append, Flow.ids_without]
    exact List.mem_append_left _ (List.mem_filter.mpr ⟨inside, decide_eq_true off⟩)
  -- The head was a join, so the flow goes on at its merge, which takes the role over.
  refine ⟨{
    flow := base.settle (handOver head merge)
    removed := (flow.fillWithBlock limits slot step).flow.idsIn removed }, ?_, rfl,
    flowId_fillWithBlock flow limits slot step, ?_, ?_⟩
  · rw [removes, removeAndBridge, Fresh.run_bind, bridges]
    rfl
  · have last : merge ∈ step.nodes.map (·.id) := List.mem_map_of_mem ladder.merge_mem_nodes
    have there : merge ∈ base.ids := stays merge (mem_ids_fillWithBlock_of_mem last) fun gone => by
      have := (whole merge).mp gone
      grind
    have renewed := nodes_renewed known ladder fresh joins whole present there fun id old apart =>
      stays id (mem_ids_fillWithBlock_of_ne old apart) (notMem_of_mem_ids ladder fresh whole old)
    exact (congrArg (List.map _) (List.append_nil _)).trans renewed
  · exact wires_renewed ladder fresh whole (fun edge enters => (plain edge enters).1) single

end Nodes

end Flow

/-- A block that fills a slot takes the first two identities for its head and its merge. -/
theorem Edit.exists_fill_block {flow : Flow} {id : NodeId} {slot : Node} {kind : String}
    (found : flow.node? id = some slot) (waits : slot.content.isPlaceholder = true)
    (entered : flow.edgesTo id ≠ []) (opens : (BlockKind.ofName? kind).isSome)
    (label : Option String) (params : Option Json.Members) (branches : Option (List String))
    (limits : Limits) (supply : Supply) :
    ∃ step slots left, step.Ladder (supply.upcoming 0) (supply.upcoming 1) slots ∧
      (fill id kind label params branches).run flow limits supply =
        .ok (flow.fillWithBlock limits slot step, left) := by
  obtain ⟨block, known⟩ := Option.isSome_iff_exists.mp opens
  obtain ⟨slots, ladder⟩ := NewStep.exists_ladder_makeBlock block label params branches supply
  exact ⟨_, slots, _, ladder, run_eq_ok_iff.mpr
    ⟨_, plan_fill_block found waits known entered, Fresh.run_map _ _ _⟩⟩

namespace Session

variable {session filled last : Session} {id : NodeId} {slot : Node} {kind : String}
  {label : Option String} {params : Option Json.Members} {branches : Option (List String)}
  {lookup : String → Option String} {filling deletion : Except Refusal Change}

/-- A slot at which branches come together is filled with a block, and then the head of the block is
deleted. The slot is entered by several edges, none of them from a head or from the slot itself, and
one edge leaves it at most. The settings limit the scan, and the new merge has a name that counts.
Both edits are made, and what is left is the flow with the merge of the block in the place of the
slot. -/
theorem fill_delete (present : session.flow.NamesPresent)
    (found : session.flow.node? id = some slot) (waits : slot.content.isPlaceholder = true)
    (merges : slot.isMerge = true) (several : 1 < (session.flow.edgesTo id).length)
    (plain : ∀ edge ∈ session.flow.edgesTo id,
      edge.source ≠ id ∧ session.flow.isHead edge.source = false)
    (single : (session.flow.edgesFrom id).length ≤ 1) (opens : (BlockKind.ofName? kind).isSome)
    (configured : session.limits.scanLimit = (Settings.ofVariables lookup).scanLimit)
    (nonempty : session.supply.upcoming 1 ≠ "")
    (fills : session.perform (.fill id kind label params branches) = (filling, filled))
    (deletes : filled.perform (.delete (session.supply.upcoming 0)) = (deletion, last))
    (fresh : session.flow.DrawsFresh filling) :
    ∃ made gone, filling = .ok made ∧ deletion = .ok gone ∧
      made.added.head? = some (session.supply.upcoming 0) ∧
      made.added.getLast? = some (session.supply.upcoming 1) ∧ gone.added = [] ∧
      session.flow.Renews last.flow session.limits id (session.supply.upcoming 1) := by
  obtain rfl := Flow.id_of_node?_eq_some found
  have known := Flow.mem_ids_of_node? found
  have admits : 0 < session.limits.scanLimit := configured ▸ Settings.scanLimit_ofVariables_pos _
  have entered : session.flow.edgesTo slot.id ≠ [] := List.ne_nil_of_length_pos (by omega)
  have joins : session.flow.takesJoin slot = true := by
    rw [Flow.takesJoin, merges, Bool.true_and]
    exact decide_eq_true several
  obtain ⟨step, slots, left, ladder, done⟩ := Edit.exists_fill_block found waits entered opens label
    params branches session.limits session.supply
  rw [perform_of_ok done, Prod.mk.injEq] at fills
  obtain ⟨rfl, rfl⟩ := fills
  obtain ⟨gone, removes, added, renews⟩ := Flow.exists_removeBlock_fillWithBlock known ladder fresh
    joins present plain single admits left
  have undone := Edit.run_eq_ok_iff.mpr
    ⟨_, Flow.plan_delete_fillWithBlock known ladder fresh joins nonempty, removes⟩
  rw [perform_of_ok undone, Prod.mk.injEq] at deletes
  obtain ⟨rfl, rfl⟩ := deletes
  have ids : (session.flow.fillWithBlock session.limits slot step).added =
      session.supply.upcoming 0 :: (slots ++ [session.supply.upcoming 1]) := ladder.ids
  refine ⟨_, gone, rfl, rfl, ?_, ?_, added, renews⟩
  · rw [ids]
    rfl
  · rw [ids, ← List.cons_append]
    exact List.getLast?_concat

/-- A parallel step that names no merge, and a merge that another node names. -/
def fan : Session where
  flow := {
    nodes := [{ id := "start", kind := some "trigger" }, { id := "fork", kind := some "parallel" },
      .branchPlaceholder "a" "A", .branchPlaceholder "b" "B", .mergePlaceholder "join",
      { id := "end", kind := some "end", content := { mergeNodeId := some "join" } }]
    edges := [.connect "start" "fork" none, .connect "fork" "a" (some "A"),
      .connect "fork" "b" (some "B"), .connect "a" "join" none, .connect "b" "join" (some "out"),
      .connect "join" "end" (some "on")] }
  supply := .numbered

/-- The merge is filled with a loop. -/
def fanFilled : Except Refusal Change × Session := fan.perform (.fill "join" "loop" none none none)

/-- Then the loop is deleted. -/
def fanDeleted : Except Refusal Change × Session :=
  fanFilled.2.perform (.delete (fan.supply.upcoming 0))

/-- The merge of the loop is in the place of the merge, and the parallel step names it. -/
theorem fill_delete_fan : fan.flow.closingHead? fan.limits "join" = some "fork" ∧
    (∃ made, fanFilled.1 = .ok made) ∧ (∃ gone, fanDeleted.1 = .ok gone) ∧
    fan.flow.Renews fanDeleted.2.flow fan.limits "join" (fan.supply.upcoming 1) ∧
    ∀ node ∈ fanDeleted.2.flow.nodes, node.id = "fork" ∨ node.id = "end" →
      node.content.mergeNodeId = some (fan.supply.upcoming 1) := by
  have present : fan.flow.NamesPresent := by decide +kernel
  have found : fan.flow.node? "join" = some (.mergePlaceholder "join") := by decide +kernel
  have plain : ∀ edge ∈ fan.flow.edgesTo "join",
      edge.source ≠ "join" ∧ fan.flow.isHead edge.source = false := by decide +kernel
  have configured : fan.limits.scanLimit = (Settings.ofVariables fun _ => none).scanLimit := by
    decide +kernel
  have nonempty : fan.supply.upcoming 1 ≠ "" := by decide +kernel
  have fills : fan.perform (.fill "join" "loop" none none none) = (fanFilled.1, fanFilled.2) := rfl
  have deletes : fanFilled.2.perform (.delete (fan.supply.upcoming 0)) =
      (fanDeleted.1, fanDeleted.2) := rfl
  have fresh : fan.flow.DrawsFresh fanFilled.1 := by decide +kernel
  obtain ⟨made, gone, filled, deleted, -, -, -, renews⟩ := fill_delete present found rfl rfl
    (by decide +kernel) plain (by decide +kernel) (by decide +kernel) configured nonempty fills
    deletes fresh
  exact ⟨by decide +kernel, ⟨made, filled⟩, ⟨gone, deleted⟩, renews, by decide +kernel⟩

end Session

end Workflow
