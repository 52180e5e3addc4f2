import Workflow.Edit.Insert
import Workflow.Proofs.Editing.Branching
import Workflow.Proofs.Editing.Replacement

/-!
# Nodes that are retouched

An edit takes nodes out of a flow, retouches some of those that stay, each where it is, and puts new
ones in behind them. Last, the merges that nodes name are mended. Here that form is stated, with
what follows from it alone, and found in each way of changing a flow.

## Main definitions

* `Change.Retouches` — the nodes of a result, told by those of the flow
* `Flow.Labels` — what names on the branches of a head do to nodes

## Main results

* `Change.Retouches.ids_eq` — the identities of a result
* `Change.Retouches.node?_eq` — what is found in a result
-/

namespace Workflow

/-- The nodes of a result are those of the flow that were not removed, retouched where they are,
and new ones behind them. All of them are settled. -/
structure Change.Retouches (change : Change) (flow : Flow) (touch : Node → Node)
    (rename : NodeId → NodeId) (new : List Node) : Prop where
  nodes : change.flow.nodes =
    ((flow.nodes.filter (·.id ∉ change.removed)).map touch ++ new).map
      (Node.settle rename change.flow.ids)
  same : ∀ node, (touch node).id = node.id
  added : change.added = new.map (·.id)

/-- The node, told to name a merge if it is the head of a block that was closed elsewhere. -/
def Node.pin (closed : Option NodeId) (merge : NodeId) (node : Node) : Node :=
  if some node.id = closed then node.mapContent (Content.withMerge (some merge)) else node

@[simp] theorem Node.id_pin (closed : Option NodeId) (merge : NodeId) (node : Node) :
    (node.pin closed merge).id = node.id := by
  rw [pin]
  split <;> rfl

theorem Node.pin_of_closes {node : Node} {closed : Option NodeId} {merge : NodeId}
    (closes : some node.id = closed) :
    node.pin closed merge = node.mapContent (Content.withMerge (some merge)) := if_pos closes

theorem Node.pin_of_not_closes {node : Node} {closed : Option NodeId} {merge : NodeId}
    (elsewhere : ¬ some node.id = closed) : node.pin closed merge = node := if_neg elsewhere

/-- Retouching nodes without changing their identities retouches what is found. -/
theorem find?_map_of_same {touch : Node → Node} (same : ∀ node, (touch node).id = node.id)
    (nodes : List Node) (id : NodeId) :
    (nodes.map touch).find? (·.id = id) = (nodes.find? (·.id = id)).map touch := by
  have alike : (fun node : Node => decide (node.id = id)) ∘ touch =
      fun node => decide (node.id = id) :=
    funext fun node => by simp [same]
  rw [List.find?_map, alike]

namespace Change.Retouches

variable {change : Change} {flow base : Flow} {touch : Node → Node} {rename : NodeId → NodeId}
  {new : List Node} {node : Node} {id : NodeId}

/-- The nodes are told by those before they were settled. -/
theorem of_settle (settles : change.flow = base.settle rename)
    (nodes : base.nodes = (flow.nodes.filter (·.id ∉ change.removed)).map touch ++ new)
    (same : ∀ node, (touch node).id = node.id) (added : change.added = new.map (·.id)) :
    change.Retouches flow touch rename new := by
  refine ⟨?_, same, added⟩
  rw [settles, Flow.ids_settle, ← nodes]
  rfl

variable (h : change.Retouches flow touch rename new)
include h

/-- What was not removed stays in order, and what was added stands behind it. -/
theorem ids_eq : change.flow.ids = flow.ids.filter (· ∉ change.removed) ++ change.added := by
  have touched : ((·.id) ∘ touch) = (·.id) := funext h.same
  have settled : ((·.id) ∘ Node.settle rename change.flow.ids) = (·.id) := rfl
  calc change.flow.ids
    _ = ((flow.nodes.filter (·.id ∉ change.removed)).map touch ++ new).map (·.id) := by
      rw [Flow.ids, h.nodes, List.map_map, settled]
    _ = (flow.nodes.filter (·.id ∉ change.removed)).map (·.id) ++ change.added := by
      rw [List.map_append, List.map_map, touched, h.added]
    _ = flow.ids.filter (· ∉ change.removed) ++ change.added := by
      rw [Flow.ids, List.filter_map]
      rfl

/-- Identities stay distinct. -/
theorem nodup (distinct : flow.ids.Nodup) (fresh : change.FreshFor flow) :
    change.flow.ids.Nodup := by
  rw [h.ids_eq]
  refine (distinct.filter _).append fresh.distinct fun id kept new => ?_
  exact fresh.unused id new (.inl (List.mem_filter.mp kept).1)

/-- A node that was not removed is found retouched and settled. -/
theorem node?_eq (found : flow.node? id = some node) (stays : id ∉ change.removed) :
    change.flow.node? id = some ((touch node).settle rename change.flow.ids) := by
  have kept : (flow.nodes.filter (·.id ∉ change.removed)).find? (·.id = id) = some node :=
    (Flow.node?_without stays).trans found
  rw [Flow.node?, h.nodes, find?_map_of_same (Node.id_settle rename change.flow.ids),
    List.find?_append, find?_map_of_same h.same, kept]
  rfl

/-- A new node is found settled. -/
theorem node?_new (fresh : change.FreshFor flow) (member : node ∈ new) :
    change.flow.node? node.id = some (node.settle rename change.flow.ids) := by
  have put : node.id ∈ change.added := h.added ▸ List.mem_map_of_mem member
  have absent : (flow.nodes.filter (·.id ∉ change.removed)).find? (·.id = node.id) = none :=
    List.find?_eq_none.mpr fun other kept same => fresh.unused node.id put
      (.inl (of_decide_eq_true same ▸ List.mem_map_of_mem (List.mem_filter.mp kept).1))
  have own := Flow.find?_eq_some_of_mem (h.added ▸ fresh.distinct) member
  rw [Flow.node?, h.nodes, find?_map_of_same (Node.id_settle rename change.flow.ids),
    List.find?_append, find?_map_of_same h.same, absent, own]
  rfl

/-- Each node of the result is a node that stayed, or a new one. -/
theorem mem_nodes_cases (member : node ∈ change.flow.nodes) :
    (∃ before ∈ flow.nodes, before.id ∉ change.removed ∧
      node = (touch before).settle rename change.flow.ids) ∨
    ∃ before ∈ new, node = before.settle rename change.flow.ids := by
  rw [h.nodes] at member
  obtain ⟨before, inside, rfl⟩ := List.mem_map.mp member
  rcases List.mem_append.mp inside with kept | put
  · obtain ⟨origin, known, rfl⟩ := List.mem_map.mp kept
    obtain ⟨known, stays⟩ := List.mem_filter.mp known
    exact .inl ⟨origin, known, by simpa using stays, rfl⟩
  · exact .inr ⟨before, put, rfl⟩

/-- A node that is found in the result is one that was found and stays, or a new one. -/
theorem node?_cases (found : change.flow.node? id = some node) :
    (∃ before, flow.node? id = some before ∧ id ∉ change.removed ∧
      node = (touch before).settle rename change.flow.ids) ∨
    ∃ before ∈ new, before.id = id ∧ node = before.settle rename change.flow.ids := by
  by_cases stays : ∃ before, flow.node? id = some before ∧ id ∉ change.removed
  · obtain ⟨before, known, stays⟩ := stays
    rw [h.node?_eq known stays, Option.some.injEq] at found
    exact .inl ⟨before, known, stays, found.symm⟩
  · obtain rfl := Flow.id_of_node?_eq_some found
    rcases h.mem_nodes_cases (Flow.mem_of_node?_eq_some found) with
      ⟨before, known, kept, rfl⟩ | ⟨before, put, rfl⟩
    · have there : before.id ∈ flow.ids := List.mem_map_of_mem known
      obtain ⟨first, known⟩ := Option.isSome_iff_exists.mp (Flow.has_iff_mem_ids.mpr there)
      rw [Node.id_settle, h.same] at stays
      exact absurd ⟨first, known, kept⟩ stays
    · exact .inr ⟨before, put, rfl, rfl⟩

/-- A merge that a node of the result names is a node of the result. -/
theorem named_mem_ids {merge : NodeId} (member : node ∈ change.flow.nodes)
    (names : node.content.mergeNodeId = some merge) : merge ∈ change.flow.ids := by
  rw [h.nodes] at member
  obtain ⟨before, -, rfl⟩ := List.mem_map.mp member
  exact of_decide_eq_true (Option.filter_eq_some_iff.mp names).2

end Change.Retouches

namespace Flow

variable {flow : Flow} {node head slot : Node} {removed told : List NodeId} {gaps : List Gap}
  {rename : NodeId → NodeId} {supply : Supply} {edge : Edge} {step : NewStep} {limits : Limits}
  {merge : NodeId} {names : List String} {slots : List NodeId}

theorem retouches_replaceNode (flow : Flow) (node : Node) : (flow.replaceNode node).Retouches flow
    (fun other => if other.id = node.id then node else other) id [] := by
  refine .of_settle rfl ?_ (fun other => ?_) rfl
  · simp [replaceNode, withNode]
  · split
    · rename_i same
      exact same.symm
    · rfl

/-- The nodes told of as removed are those of the flow that are taken out. -/
theorem retouches_removeAndBridge (tells : ∀ id ∈ flow.ids, id ∈ told ↔ id ∈ removed) :
    (StateT.run (flow.removeAndBridge removed told gaps rename) supply).1.Retouches flow id rename
      (StateT.run (flow.bridgeAll gaps) supply).1.nodes := by
  have kept : flow.nodes.filter (·.id ∉ told) = flow.nodes.filter (·.id ∉ removed) :=
    List.filter_congr fun node member => by simp [tells node.id (List.mem_map_of_mem member)]
  refine .of_settle rfl ?_ (fun _ => rfl) rfl
  change _ = List.map _ (flow.nodes.filter (·.id ∉ told)) ++ _
  rw [kept, List.map_id]
  rfl

theorem retouches_splice (flow : Flow) (edge : Edge) (step : NewStep) :
    (flow.splice edge step).Retouches flow id id step.nodes := by
  refine .of_settle rfl ?_ (fun _ => rfl) rfl
  simp [splice, append, cut]

/-! ### A block in the place of a slot -/

theorem nodes_pinHead (flow : Flow) (closed : Option NodeId) (merge : NodeId) :
    (flow.pinHead closed merge).nodes = flow.nodes.map (Node.pin closed merge) := by
  cases closed with
  | none =>
    have still : Node.pin none merge = id := funext fun node => if_neg (by simp)
    rw [still, List.map_id]
    rfl
  | some head => simp [pinHead, Node.pin, Option.some.injEq]

@[simp] theorem id_fillHead (flow : Flow) (slot head : Node) :
    (flow.fillHead slot head).id = head.id := by
  rw [fillHead]
  split <;> rfl

/-- The head whose block a slot closes, if a block in the place of the slot becomes a join. -/
def headAbove? (flow : Flow) (limits : Limits) (slot : Node) : Option NodeId :=
  if flow.takesJoin slot then flow.closingHead? limits slot.id else none

/-- The head whose block a join closed is told to name the head in the place of the join. -/
theorem retouches_fillWithBlock (flow : Flow) (limits : Limits) (slot : Node) (step : NewStep) :
    (flow.fillWithBlock limits slot step).Retouches flow
      (Node.pin (flow.headAbove? limits slot) step.head.id)
      (if flow.takesJoin slot then handOver slot.id step.head.id else fun id => id)
      ((flow.fillHead slot step.head :: step.parts).map
        (Node.pin (flow.headAbove? limits slot) step.head.id)) := by
  obtain ⟨edges, settles⟩ : ∃ edges, (flow.fillWithBlock limits slot step).flow =
      (((flow.without [slot.id]).append ⟨flow.fillHead slot step.head :: step.parts, edges⟩).pinHead
        (flow.headAbove? limits slot) step.head.id).settle
      (if flow.takesJoin slot then handOver slot.id step.head.id else fun id => id) :=
    ⟨_, by rw [fillWithBlock, id_fillHead]; rfl⟩
  refine .of_settle settles ?_ (Node.id_pin _ _) ?_
  · rw [nodes_pinHead, ← List.map_append]
    rfl
  · simp [fillWithBlock, NewStep.nodes]

/-! ### Names on branches -/

/-- What names on the branches of a head do to the nodes: a slot on which a branch starts gets a
text, and no other node changes. -/
structure Labels (flow : Flow) (head : NodeId) (touch : Node → Node) : Prop where
  same : ∀ node, (touch node).id = node.id
  cases : ∀ node, touch node = node ∨ ∃ slot text, flow.node? node.id = some slot ∧
    slot.content.isBranchPlaceholder = true ∧ flow.Leads head node.id ∧
      touch node = slot.mapContent (Content.withSubLabel text)

/-- A slot that gets a name is retouched besides those that were. -/
theorem exists_labels_relabelSlot {base : Flow} {touch : Node → Node} {name : String} {id : NodeId}
    (labels : flow.Labels id touch) (nodes : base.nodes = flow.nodes.map touch)
    (starts : edge ∈ flow.branchEdges id) :
    ∃ touch, flow.Labels id touch ∧
      (flow.relabelSlot base name edge).nodes = flow.nodes.map touch := by
  rw [relabelSlot]
  split
  · rename_i slot found
    split
    · exact ⟨touch, labels, nodes⟩
    · obtain ⟨known, isSlot⟩ := Option.filter_eq_some_iff.mp found
      have target := id_of_node?_eq_some known
      obtain ⟨present, source⟩ := source_of_mem_branchEdges starts
      refine ⟨fun node => if node.id = slot.id then slot.mapContent (Content.withSubLabel name)
        else touch node, ⟨fun node => ?_, fun node => ?_⟩, ?_⟩
      · split
        · rename_i here
          exact here.symm
        · exact labels.same node
      · split
        · rename_i here
          exact .inr ⟨slot, name, by rw [here, target, known], isSlot,
            ⟨edge, present, source, here.trans target ▸ rfl⟩, rfl⟩
        · exact labels.cases node
      · simp [withNode, nodes, labels.same, Function.comp_def]
  · exact ⟨touch, labels, nodes⟩

theorem exists_labels_relabelSlots (flow : Flow) (id : NodeId) (names : List String) :
    ∃ touch, flow.Labels id touch ∧
      (flow.relabelSlots id names).nodes = flow.nodes.map touch := by
  rw [relabelSlots]
  have start : ∃ touch, flow.Labels id touch ∧ flow.nodes = flow.nodes.map touch :=
    ⟨fun node => node, ⟨fun _ => rfl, fun _ => .inl rfl⟩, (List.map_id' _).symm⟩
  refine List.foldlRecOn (motive := fun base : Flow => ∃ touch, flow.Labels id touch ∧
    base.nodes = flow.nodes.map touch) _ _ start ?_
  rintro base ⟨touch, labels, nodes⟩ arm member
  exact exists_labels_relabelSlot labels nodes (List.of_mem_zip member).2

/-- A slot that is cut off is there, and a branch of the head that is dropped starts on it. -/
theorem mem_surplusSlots {id : NodeId} : id ∈ flow.surplusSlots head.id names ↔
    flow.Drops head.id names.length id ∧
      ∃ slot, flow.node? id = some slot ∧ slot.content.isBranchPlaceholder = true := by
  simp only [surplusSlots, branchSlot?, Drops, List.mem_filterMap, Option.map_eq_some_iff,
    Option.filter_eq_some_iff]
  constructor
  · rintro ⟨edge, beyond, slot, ⟨found, isSlot⟩, rfl⟩
    obtain target := id_of_node?_eq_some found
    exact ⟨⟨edge, beyond, target.symm⟩, slot, target ▸ found, isSlot⟩
  · rintro ⟨⟨edge, beyond, rfl⟩, slot, found, isSlot⟩
    exact ⟨edge, beyond, slot, ⟨found, isSlot⟩, id_of_node?_eq_some found⟩

theorem mem_removed_withBranches {id : NodeId} :
    id ∈ (flow.withBranches head merge names slots).removed ↔
      id ∈ flow.surplusSlots head.id names := by
  refine List.mem_filter.trans ⟨fun h => of_decide_eq_true h.2, fun h => ?_⟩
  obtain ⟨-, slot, found, -⟩ := mem_surplusSlots.mp h
  exact ⟨mem_ids_of_node? found, decide_eq_true h⟩

/-- Slots that start branches get names, the head gets the list of names, and the slots of new
branches are put in. -/
theorem exists_retouches_withBranches (found : flow.node? head.id = some head)
    (fresh : (flow.withBranches head merge names slots).FreshFor flow) :
    ∃ touch, flow.Labels head.id touch ∧ (flow.withBranches head merge names slots).Retouches flow
      (fun node => if node.id = head.id then head.mapContent (Content.withBranches names)
        else touch node) (fun id => id)
      (newBranches head.id merge (names.drop (flow.branchEdges head.id).length) slots).nodes := by
  obtain ⟨touch, labels, nodes⟩ := flow.exists_labels_relabelSlots head.id names
  refine ⟨touch, labels, .of_settle rfl ?_ (fun node => ?_) rfl⟩
  · have known : head.id ∈ flow.ids := mem_ids_of_node? found
    have added : (flow.withBranches head merge names slots).added = (newBranches head.id merge
      (names.drop (flow.branchEdges head.id).length) slots).nodes.map (·.id) := rfl
    -- The slots of new branches are none that are cut off, and none is the head.
    have new : ∀ node ∈ (newBranches head.id merge
        (names.drop (flow.branchEdges head.id).length) slots).nodes, node.id ∉ flow.ids :=
      fun node member old => fresh.unused node.id (List.mem_map_of_mem member) (.inl old)
    generalize newBranches head.id merge (names.drop (flow.branchEdges head.id).length) slots =
      patch at *
    have stay : patch.nodes.filter (·.id ∉ flow.surplusSlots head.id names) = patch.nodes :=
      List.filter_eq_self.mpr fun node member => decide_eq_true fun cut => by
        obtain ⟨-, slot, there, -⟩ := mem_surplusSlots.mp cut
        exact new node member (mem_ids_of_node? there)
    have apart : patch.nodes.map (fun node => if node.id = head.id then
        head.mapContent (Content.withBranches names) else node) = patch.nodes :=
      (List.map_congr_left fun node member =>
        if_neg fun here : node.id = head.id => new node member (here ▸ known)).trans
          (List.map_id' _)
    have kept : flow.nodes.filter (fun node =>
        (touch node).id ∉ flow.surplusSlots head.id names) = flow.nodes.filter
          (·.id ∉ (flow.withBranches head merge names slots).removed) :=
      List.filter_congr fun node _ => by simp [labels.same, mem_removed_withBranches]
    have touched : ∀ node, (if (touch node).id = head.id then
        head.mapContent (Content.withBranches names) else touch node) =
        if node.id = head.id then head.mapContent (Content.withBranches names) else touch node :=
      fun node => by rw [labels.same]
    change (((flow.relabelSlots head.id names).nodes ++ patch.nodes).filter
      (·.id ∉ flow.surplusSlots head.id names)).map _ = _
    rw [nodes, List.filter_append, List.map_append, stay, ← kept, List.filter_map, List.map_map]
    exact congrArg₂ _ (List.map_congr_left fun node _ => touched node) apart
  · split
    · rename_i here
      exact here.symm
    · exact labels.same node

end Flow

end Workflow
