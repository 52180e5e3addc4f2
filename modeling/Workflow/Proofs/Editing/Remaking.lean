import Workflow.Proofs.Editing.Form
import Workflow.Proofs.Editing.Outcome
import Workflow.Proofs.Editing.Retouching

/-!
# What edits do to nodes

For each edit it is told here which nodes it retouches, and how: the node that it is about, a head
that is told to name another merge, and slots that get the names of their branches. What edits keep
of the nodes is read off from there.

## Main definitions

* `Node.SlotWaits` — a node that is flagged as a slot waits for a step
* `Edit.subject?` — the node that an edit is about
* `Edit.heir?` — the node that takes over the role of a join
* `Edit.Touches` — what an edit may do to a node that stays
* `Edit.Remakes` — the nodes of a result, with what became of each

## Main results

* `Edit.exists_remakes` — each edit that is made remakes the nodes of its flow
-/

namespace Workflow

/-- A node that is flagged as the slot of a branch waits for a step. -/
def Node.SlotWaits (node : Node) : Prop :=
  node.content.isBranchPlaceholder = true → node.content.isPlaceholder = true

instance (node : Node) : Decidable node.SlotWaits := inferInstanceAs (Decidable (_ → _))

/-- The slots of a new block wait. -/
theorem NewStep.slotWaits_block {kind : BlockKind} {label : Option String}
    {params : Option Json.Members} {names : List String} {head merge : NodeId}
    {slots : List NodeId} :
    ∀ node ∈ (block kind label params names head merge slots).nodes, node.SlotWaits := by
  intro node member flagged
  rcases mem_nodes_block.mp member with rfl | ⟨arm, -, rfl⟩ | rfl
  · by_cases parallel : kind = .parallel <;>
      simp [blockHead, Content.withBranches, parallel] at flagged
  · rfl
  · cases flagged

/-- The slots of a new step wait. -/
theorem NewStep.slotWaits_make (name : String) (label : Option String)
    (params : Option Json.Members) (branches : Option (List String)) (supply : Supply) :
    ∀ node ∈ (StateT.run (make name label params branches) supply).1.nodes, node.SlotWaits := by
  intro node member
  obtain ⟨new, made, -⟩ | ⟨kind, names, head, merge, slots, made, -, -⟩ :=
    make_cases name label params branches supply
  · rw [made] at member
    obtain rfl := List.mem_singleton.mp member
    intro flagged
    cases flagged
  · rw [made] at member
    exact slotWaits_block node member

theorem Node.SlotWaits.pin {node : Node} (waits : node.SlotWaits) (closed : Option NodeId)
    (merge : NodeId) : (node.pin closed merge).SlotWaits := by
  rw [Node.pin]
  split <;> exact waits

/-! ### The node of an edit, and what becomes of it -/

namespace Edit

/-- The node that an edit is about. An insertion is about an edge only. -/
def subject? : Edit → Option NodeId
  | delete id | swap id .. | fill id .. | setBranches id _ => some id
  | insert .. => none

/-- Whether an edit takes out a join whose role another node takes over: a slot in the place of
which a block is put, or a head that is a join itself. -/
def movesJoin (edit : Edit) (flow : Flow) : Bool :=
  match edit with
  | delete id => flow.isHead id && flow.isMerge id
  | fill id kind .. =>
    (BlockKind.ofName? kind).isSome && (flow.isMerge id && 1 < (flow.edgesTo id).length)
  | swap .. | insert .. | setBranches .. => false

/-- The node that takes over the role of a join: the merge of a head that was a join itself, or the
head of the block in the place of a slot. -/
def heir? (edit : Edit) (flow : Flow) (limits : Limits) (change : Change) (id : NodeId) :
    Option NodeId :=
  if edit.subject? = some id ∧ edit.movesJoin flow then
    match edit with
    | delete id => flow.presentMerge? limits id
    | fill .. => change.added.head?
    | swap .. | insert .. | setBranches .. => none
  else none

/-- The head that goes on to name the block in the place of the slot that closed its own. -/
def repointed? (edit : Edit) (flow : Flow) (limits : Limits) : Option NodeId :=
  match edit with
  | fill id .. => if edit.movesJoin flow then flow.closingHead? limits id else none
  | delete _ | swap .. | insert .. | setBranches .. => none

/-- What an edit makes of a node that stays. The node that it is about is told here by its flags as
a slot. -/
inductive Touches (flow : Flow) (limits : Limits) : Edit → Node → Node → Prop
  | still {edit : Edit} {node : Node} (other : edit.subject? ≠ some node.id) :
      Touches flow limits edit node node
  | repointed {edit : Edit} {node : Node} {merge : NodeId}
      (above : edit.repointed? flow limits = some node.id) :
      Touches flow limits edit node (node.mapContent (Content.withMerge (some merge)))
  | labelled {id : NodeId} {names : List String} {node slot : Node} {text : String}
      (found : flow.node? node.id = some slot) (isSlot : slot.content.isBranchPlaceholder = true)
      (leads : flow.Leads id node.id) :
      Touches flow limits (setBranches id names) node
        (slot.mapContent (Content.withSubLabel text))
  | named {names : List String} {node old : Node} (found : flow.node? node.id = some old) :
      Touches flow limits (setBranches node.id names) node
        (old.mapContent (Content.withBranches names))
  | swapped {kind : String} {label : Option String} {params : Option Json.Members}
      {node old after : Node} (found : flow.node? node.id = some old)
      (flag : after.content.isBranchPlaceholder = old.content.isBranchPlaceholder)
      (taken : after.content.isPlaceholder = false) :
      Touches flow limits (swap node.id kind label params) node after
  | filled {kind : String} {label : Option String} {params : Option Json.Members}
      {branches : Option (List String)} {node old after : Node}
      (found : flow.node? node.id = some old) (waits : old.content.isPlaceholder = true)
      (plain : after.content.isBranchPlaceholder = false) :
      Touches flow limits (fill node.id kind label params branches) node after
  | emptied {node after : Node} (plain : after.content.isBranchPlaceholder = false) :
      Touches flow limits (delete node.id) node after

variable {flow : Flow} {limits : Limits} {supply rest : Supply} {change : Change} {edit : Edit}
  {id : NodeId} {node old : Node} {kind : String} {label : Option String}
  {params : Option Json.Members} {branches : Option (List String)} {names : List String}

/-- Where no join is taken out, none takes over its role. -/
theorem heir?_eq_none (stays : edit.movesJoin flow = false) (id : NodeId) :
    edit.heir? flow limits change id = none :=
  if_neg fun moves => Bool.false_ne_true (stays.symm.trans moves.2)

/-- The nodes of a result, told by those of the flow, with what becomes of each. -/
structure Remakes (edit : Edit) (flow : Flow) (limits : Limits) (change : Change)
    (touch : Node → Node) (new : List Node) : Prop
    extends change.Retouches flow touch
      (fun id => (edit.heir? flow limits change id).getD id) new where
  touches : ∀ node, node.id ∉ change.removed → edit.Touches flow limits node (touch node)
  slots : ∀ node ∈ new, node.SlotWaits

/-- Replacing the node that an edit is about changes no other. -/
theorem remakes_replaceNode (stays : edit.movesJoin flow = false)
    (about : edit.subject? = some node.id)
    (touches : ∀ other : Node, other.id = node.id → edit.Touches flow limits other node) :
    edit.Remakes flow limits (flow.replaceNode node)
      (fun other => if other.id = node.id then node else other) [] where
  toRetouches := by
    have keeps : (fun id => (edit.heir? flow limits (flow.replaceNode node) id).getD id) = id :=
      funext fun id => by rw [heir?_eq_none stays]; rfl
    rw [keeps]
    exact flow.retouches_replaceNode node
  touches other _ := by
    split
    · rename_i here
      exact touches other here
    · rename_i apart
      exact .still fun same => apart (Option.some.inj (same.symm.trans about))
  slots node member := by cases member

/-- A deletion moves a join exactly if its node is head and merge at once. -/
theorem movesJoin_delete (found : flow.node? id = some node) :
    (delete id).movesJoin flow = (node.isHead && node.isMerge) := by
  rw [movesJoin, Flow.isHead_of_node? found, Flow.isMerge_of_node? found]

/-- Taking nodes out and closing the gaps leaves the other nodes as they are. -/
theorem remakes_removeAndBridge {removed told : List NodeId} {gaps : List Gap}
    {rename : NodeId → NodeId} (tells : ∀ id ∈ flow.ids, id ∈ told ↔ id ∈ removed)
    (made : change = (StateT.run (flow.removeAndBridge removed told gaps rename) supply).1)
    (about : ∀ id, edit.subject? = some id → id ∈ told)
    (heirs : ∀ id, (edit.heir? flow limits change id).getD id = rename id) :
    edit.Remakes flow limits change (fun node => node)
      (StateT.run (flow.bridgeAll gaps) supply).1.nodes where
  toRetouches := by
    rw [funext heirs, made]
    exact Flow.retouches_removeAndBridge tells
  touches node stays := by
    rw [made] at stays
    exact .still fun same => stays (about _ same)
  slots node member _ := by
    obtain ⟨text, slot⟩ := (Flow.bridges_bridgeAll flow gaps supply).slots node member
    rw [slot]
    rfl

/-- The merge of a deleted block takes over the role of a head that was a join. -/
theorem heir?_delete_head {head : Node} {merge : NodeId} (found : flow.node? head.id = some head)
    (opens : head.isHead = true) (present : flow.presentMerge? limits head.id = some merge)
    (id : NodeId) : ((delete head.id).heir? flow limits change id).getD id =
      (if head.isMerge then handOver head.id merge else fun id => id) id := by
  rw [heir?, movesJoin_delete found, opens, Bool.true_and]
  cases joins : head.isMerge with
  | false => simp
  | true =>
    by_cases here : id = head.id
    · simp [subject?, here, present]
    · simp [subject?, handOver_of_ne here, Ne.symm here]

theorem exists_remakes_delete (done : (delete id).run flow limits supply = .ok (change, rest)) :
    ∃ touch new, (delete id).Remakes flow limits change touch new := by
  obtain ⟨node, found, cases⟩ := delete_cases done
  rcases cases with ⟨starts, rfl⟩ | ⟨-, opens, merge, present, -, made⟩ | ⟨-, closed, deletes⟩
  · obtain rfl := Flow.id_of_node?_eq_some found
    have closed : node.isHead = false := by
      rw [Node.isHead, Node.blockKind?, starts]
      rfl
    have stays : (delete node.id).movesJoin flow = false := by
      rw [movesJoin_delete found, closed, Bool.false_and]
    exact ⟨_, _, remakes_replaceNode stays rfl fun other here => here ▸ .emptied rfl⟩
  · obtain rfl := Flow.id_of_node?_eq_some found
    rw [Flow.removeBlock] at made
    refine ⟨_, _, remakes_removeAndBridge (fun id known => ?_) made (fun id same => ?_)
      (heir?_delete_head found opens present)⟩
    · rw [Flow.idsIn, List.mem_filter, decide_eq_true_iff, and_iff_right known]
    · obtain rfl := Option.some.inj same
      refine List.mem_filter.mpr ⟨Flow.mem_ids_of_node? found, decide_eq_true ?_⟩
      split
      · exact Flow.head_mem_body
      · exact List.mem_append_left _ Flow.head_mem_body
  · obtain rfl := Flow.id_of_node?_eq_some found
    have stays : (delete node.id).movesJoin flow = false := by
      rw [movesJoin_delete found, closed, Bool.false_and]
    cases deletes with
    | join joins filled =>
      exact ⟨_, _, remakes_replaceNode stays rfl fun other here => here ▸ .emptied rfl⟩
    | slot lone filled =>
      exact ⟨_, _, remakes_replaceNode stays rfl fun other here => here ▸ .emptied rfl⟩
    | gone closes =>
      refine ⟨_, _, remakes_removeAndBridge (fun _ _ => Iff.rfl) rfl (fun id same => ?_)
        fun id => ?_⟩
      · exact List.mem_singleton.mpr (Option.some.inj same).symm
      · rw [heir?_eq_none stays]
        rfl

theorem exists_remakes_swap
    (done : (swap id kind label params).run flow limits supply = .ok (change, rest)) :
    ∃ touch new, (swap id kind label params).Remakes flow limits change touch new := by
  obtain ⟨node, found, -, rfl⟩ := swap_cases done
  obtain rfl := Flow.id_of_node?_eq_some found
  -- The merge that a head is told to name has no part in its flags.
  have flags : ∀ content : Content, (flow.pinMerge limits node content).isBranchPlaceholder =
      content.isBranchPlaceholder ∧ (flow.pinMerge limits node content).isPlaceholder =
        content.isPlaceholder := by
    intro content
    rw [Flow.pinMerge]
    split
    · split <;> exact ⟨rfl, rfl⟩
    · exact ⟨rfl, rfl⟩
  refine ⟨_, _, remakes_replaceNode rfl rfl fun other here => ?_⟩
  have same : other.id = node.id := here
  rw [← same] at found ⊢
  exact .swapped found (flags _).1 (flags _).2

theorem exists_remakes_insert {source target : NodeId}
    (done : (insert source target kind label branches).run flow limits supply =
      .ok (change, rest)) :
    ∃ touch new,
      (insert source target kind label branches).Remakes flow limits change touch new := by
  obtain ⟨edge, -, rfl⟩ := insert_cases done
  exact ⟨_, _, Flow.retouches_splice flow edge _, fun _ _ => .still nofun,
    NewStep.slotWaits_make kind label none branches supply⟩

/-- A block takes a join out exactly if its slot was one. -/
theorem movesJoin_fill {slot : Node} {block : BlockKind} (found : flow.node? slot.id = some slot)
    (opens : BlockKind.ofName? kind = some block) :
    (fill slot.id kind label params branches).movesJoin flow = flow.takesJoin slot := by
  rw [movesJoin, opens, Flow.isMerge_of_node? found, Flow.takesJoin]
  rfl

/-- The head of a block takes over the role of the join in the place of which the block is put. -/
theorem heir?_fill_block {slot : Node} {block : BlockKind} {step : NewStep}
    (found : flow.node? slot.id = some slot) (opens : BlockKind.ofName? kind = some block)
    (id : NodeId) :
    ((fill slot.id kind label params branches).heir? flow limits
        (flow.fillWithBlock limits slot step) id).getD id =
      (if flow.takesJoin slot then handOver slot.id step.head.id else fun id => id) id := by
  rw [heir?, movesJoin_fill found opens]
  cases joins : flow.takesJoin slot with
  | false => simp
  | true =>
    by_cases here : id = slot.id
    · simp [subject?, here, Flow.fillWithBlock, NewStep.nodes]
    · simp [subject?, handOver_of_ne here, Ne.symm here]

theorem exists_remakes_fill
    (done : (fill id kind label params branches).run flow limits supply = .ok (change, rest)) :
    ∃ touch new, (fill id kind label params branches).Remakes flow limits change touch new := by
  obtain ⟨slot, found, waits, ⟨plain, rfl⟩ | ⟨block, opens, -, made⟩⟩ := fill_cases done
  · obtain rfl := Flow.id_of_node?_eq_some found
    have stays : (fill slot.id kind label params branches).movesJoin flow = false := by
      rw [movesJoin, plain]
      rfl
    refine ⟨_, _, remakes_replaceNode stays rfl fun other here => ?_⟩
    have same : other.id = slot.id := here
    rw [← same] at found ⊢
    exact .filled found waits rfl
  · obtain rfl := Flow.id_of_node?_eq_some found
    obtain ⟨names, head, merge, slots, form, -, -⟩ :=
      NewStep.makeBlock_cases block label params branches supply
    rw [form] at made
    have retouches := flow.retouches_fillWithBlock limits slot
      (.block block label params names head merge slots)
    have heirs := @heir?_fill_block flow limits kind label params branches slot block
      (.block block label params names head merge slots) found opens
    rw [← funext heirs, ← made] at retouches
    refine ⟨_, _, retouches, fun node stays => ?_, fun node member => ?_⟩
    · -- Only the head whose block the slot closed is told what to name.
      rw [Node.pin]
      split
      · rename_i above
        refine .repointed ?_
        rw [repointed?, movesJoin_fill found opens, above]
        rfl
      · refine .still fun same => stays ?_
        rw [made]
        exact List.mem_singleton.mpr (Option.some.inj same).symm
    · obtain ⟨part, inside, rfl⟩ := List.mem_map.mp member
      refine Node.SlotWaits.pin ?_ _ _
      rcases List.mem_cons.mp inside with rfl | other
      · have first := @NewStep.slotWaits_block block label params names head merge slots _
          List.mem_cons_self
        rw [Flow.fillHead]
        split <;> exact first
      · exact NewStep.slotWaits_block part (List.mem_cons_of_mem _ other)

theorem exists_remakes_setBranches
    (done : (setBranches id names).run flow limits supply = .ok (change, rest))
    (fresh : change.FreshFor flow) :
    ∃ touch new, (setBranches id names).Remakes flow limits change touch new := by
  obtain ⟨head, merge, found, -, -, -, slots, -, rfl⟩ := setBranches_cases done
  obtain rfl := Flow.id_of_node?_eq_some found
  obtain ⟨touch, labels, retouches⟩ := Flow.exists_retouches_withBranches found fresh
  have keeps : (fun id => ((setBranches head.id names).heir? flow limits
      (flow.withBranches head merge names slots) id).getD id) = fun id => id :=
    funext fun id => by rw [heir?_eq_none rfl]; rfl
  refine ⟨_, _, ⟨keeps ▸ retouches, fun node _ => ?_, fun node member => ?_⟩⟩
  · split
    · rename_i here
      rw [← here] at found ⊢
      exact .named found
    · rename_i apart
      rcases labels.cases node with still | ⟨slot, text, there, isSlot, leads, written⟩
      · rw [still]
        exact .still fun same => apart (Option.some.inj same).symm
      · rw [written]
        exact .labelled there isSlot leads
  · obtain ⟨arm, -, rfl⟩ := List.mem_map.mp member
    exact fun _ => rfl

/-- What an edit that is made does to the nodes of a flow. -/
theorem exists_remakes (done : edit.run flow limits supply = .ok (change, rest))
    (fresh : change.FreshFor flow) : ∃ touch new, edit.Remakes flow limits change touch new := by
  cases edit with
  | delete id => exact exists_remakes_delete done
  | swap id kind label params => exact exists_remakes_swap done
  | insert source target kind label branches => exact exists_remakes_insert done
  | fill id kind label params branches => exact exists_remakes_fill done
  | setBranches id names => exact exists_remakes_setBranches done fresh

end Edit

end Workflow
