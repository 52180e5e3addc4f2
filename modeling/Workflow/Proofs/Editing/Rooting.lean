import Workflow.Proofs.Editing.Acyclicity
import Workflow.Proofs.Editing.Retouching
import Workflow.Proofs.Editing.Succession
import Workflow.Proofs.Walk.Spread

/-!
# What is reached after a block has gone

In a flow without cycles a block is deleted. What its head names as its merge may be missing or
wrong, its branches may be entered from outside, and they may lead on past the merge. Whatever was
reached from a root and stays is reached from it afterwards, as long as the root stays and the
collection of the body came to its end.

A way from the root to a node that stays may go through the removed part. Where it leaves the part
for the last time, it comes to one of the places where the flow goes on. These are reached past the
part from all that leads to the head, and such a way never meets the part before.

## Main definitions

* `Flow.Rooted` — all nodes are reached from a root
* `Flow.Heals` — a flow from which a part was taken out, and closed over it

## Main results

* `Heals.rooted` — a flow that is closed over a part stays rooted
* `Edit.rooted_delete` — the deletion of a block strands no node
-/

namespace Workflow

namespace Flow

/-- All nodes are reached from a root. -/
def Rooted (flow : Flow) (root : NodeId) : Prop :=
  ∀ id ∈ flow.ids, Relation.ReflTransGen flow.Leads root id

/-- A part of a flow was taken out, and the flow closed over it: from what led to its entry to the
targets, at which each way out of the part ends. What is new is led to from what led to the entry. -/
structure Heals (flow after : Flow) (removed : List NodeId) (entry : NodeId)
    (targets : List NodeId) : Prop where
  ids_cases : ∀ id ∈ after.ids, id ∈ flow.ids ∧ id ∉ removed ∨ ∃ source ∈ flow.ids,
    flow.Leads source entry ∧ after.Leads source id
  kept : ∀ {id child}, flow.Leads id child → id ∉ removed → child ∉ removed → after.Leads id child
  crosses : ∀ {id target}, flow.Leads id entry → id ∉ removed → target ∈ targets →
    Relation.ReflTransGen after.Leads id target
  exits : ∀ {id child}, flow.Leads id child → id ∈ removed → child ∉ removed → child ∈ targets

variable {flow after : Flow} {root id child head merge entry : NodeId} {removed told : List NodeId}
  {targets order : List NodeId} {limits : Limits} {supply : Supply} {rename : NodeId → NodeId}

/-- Where each node but the root is led to from one before it in a list, all nodes are reached. -/
theorem rooted_of_order (order : List NodeId)
    (enters : ∀ id ∈ flow.ids, id = root ∨ ∃ parent ∈ flow.parents id,
      parent ∈ flow.ids ∧ order.idxOf parent < order.idxOf id) : flow.Rooted root := by
  intro id known
  induction place : order.idxOf id using Nat.strongRecOn generalizing id with
  | _ place ih =>
    rcases enters id known with rfl | ⟨parent, isParent, there, before⟩
    · exact .refl
    · exact (ih _ (place ▸ before) parent there rfl).tail (leads_iff_mem_parents.mpr isParent)

namespace Heals

variable (heals : flow.Heals after removed entry targets)
include heals

/-- A way to the entry that keeps off the part is still there. -/
theorem reaches_of_above (path : Relation.ReflTransGen flow.Leads root id)
    (above : Relation.TransGen flow.Leads id entry)
    (off : ∀ {id}, Relation.ReflTransGen flow.Leads root id →
      Relation.TransGen flow.Leads id entry → id ∉ removed) :
    Relation.ReflTransGen after.Leads root id := by
  induction path with
  | refl => exact .refl
  | @tail id child path leads ih =>
    have before := above.head leads
    exact (ih before).tail (heals.kept leads (off path before) (off (path.tail leads) above))

/-- What was reached from the root and is not in the part is reached past the part. -/
theorem reaches (path : Relation.ReflTransGen flow.Leads root id) (stays : id ∉ removed)
    (goes : ∀ target ∈ targets, Relation.ReflTransGen after.Leads root target) :
    Relation.ReflTransGen after.Leads root id := by
  induction path with
  | refl => exact .refl
  | @tail id child path leads ih =>
    by_cases gone : id ∈ removed
    · exact goes child (heals.exits leads gone stays)
    · exact (ih gone).tail (heals.kept leads gone stays)

/-- A flow that is closed over a part stays rooted, if no way from the root to the entry meets the
part before. -/
theorem rooted (rooted : flow.Rooted root) (entered : entry ∈ flow.ids) (below : entry ≠ root)
    (off : ∀ {id}, Relation.ReflTransGen flow.Leads root id →
      Relation.TransGen flow.Leads id entry → id ∉ removed) :
    after.Rooted root := by
  -- Some node leads to the entry, and from there the flow is closed over the part.
  obtain ⟨parent, path, into⟩ : ∃ parent, Relation.ReflTransGen flow.Leads root parent ∧
      flow.Leads parent entry :=
    (rooted entry entered).cases_tail.resolve_left below
  have goes : ∀ target ∈ targets, Relation.ReflTransGen after.Leads root target :=
    fun target member => (heals.reaches_of_above path (.single into) off).trans
      (heals.crosses into (off path (.single into)) member)
  intro id present
  rcases heals.ids_cases id present with ⟨known, stays⟩ | ⟨source, known, into, enters⟩
  · exact heals.reaches (rooted id known) stays goes
  · exact (heals.reaches_of_above (rooted source known) (.single into) off).tail enters

end Heals

/-! ### The deletion of a block -/

/-- A flow is closed over removed nodes from each edge into the entry to each target. -/
theorem heals_removeAndBridge (tells : ∀ id ∈ flow.ids, id ∈ told ↔ id ∈ removed)
    (exits : ∀ {id child}, flow.Leads id child → id ∈ removed → child ∉ removed →
      child ∈ targets) :
    flow.Heals (StateT.run
      (flow.removeAndBridge removed told (flow.gaps removed entry targets) rename) supply).1.flow
      removed entry targets where
  ids_cases id present := by
    rw [(retouches_removeAndBridge tells).ids_eq] at present
    rcases List.mem_append.mp present with kept | slot
    · obtain ⟨known, stays⟩ := List.mem_filter.mp kept
      have stays : id ∉ told := of_decide_eq_true stays
      exact .inl ⟨known, fun gone => stays ((tells id known).mpr gone)⟩
    · obtain ⟨gap, member, known, enters⟩ := exists_gap_of_slot slot
      exact .inr ⟨gap.edge.source, known, (of_mem_gaps member).2.2,
        leads_removeAndBridge.mpr (.inr enters)⟩
  kept leads here there := leads_removeAndBridge.mpr (.inl ⟨leads, here, there⟩)
  crosses leads stays goes := by
    obtain ⟨gap, member, rfl, rfl⟩ := exists_gap leads stays goes
    rcases (bridges_bridgeAll flow (flow.gaps removed entry targets) supply).crosses gap member with
      direct | ⟨slot, -, enters, onward⟩
    · exact .single (leads_removeAndBridge.mpr (.inr direct))
    · exact .head (leads_removeAndBridge.mpr (.inr enters))
        (.single (leads_removeAndBridge.mpr (.inr onward)))
  exits := exits

/-- What a body reaches in a flow without cycles does not lead to its head. -/
theorem Acyclic.notMem_body (acyclic : flow.Acyclic) (apart : head ≠ merge)
    (above : Relation.TransGen flow.Leads id head) : id ∉ flow.body limits head merge := by
  intro inside
  rw [body_eq apart] at inside
  have around := (flow.scanned_body limits head merge).around id inside
  have path : Relation.ReflTransGen flow.Leads head id :=
    Relation.ReflTransGen.mono (fun _ _ leads => leads.1) head id around
  exact acyclic head (above.trans_right path)

/-- The nodes of a body lead to each other or to the merge, if the collection came to its end. -/
theorem eq_merge_of_leaves_body (apart : head ≠ merge)
    (clear : flow.waiting limits head merge = []) (leads : flow.Leads id child)
    (inside : id ∈ flow.body limits head merge) (outside : child ∉ flow.body limits head merge) :
    child = merge := by
  rw [mem_body_iff_of_waiting apart clear] at inside outside
  by_contra off
  exact outside (inside.tail ⟨leads, off⟩)

/-- The deletion of a block strands no node, if the collection of its body came to its end. -/
theorem Rooted.removeBlock {node : Node} (rooted : flow.Rooted root) (acyclic : flow.Acyclic)
    (known : node.id ∈ flow.ids) (below : node.id ≠ root) (apart : node.id ≠ merge)
    (present : merge ∈ flow.ids) (clear : flow.waiting limits node.id merge = [])
    (stays : root ∉ (StateT.run (flow.removeBlock limits node merge) supply).1.removed) :
    (StateT.run (flow.removeBlock limits node merge) supply).1.flow.Rooted root := by
  have tells : ∀ removed : List NodeId, ∀ id ∈ flow.ids, id ∈ flow.idsIn removed ↔ id ∈ removed :=
    fun removed id known => by simp [idsIn, known]
  have leaves : ∀ {id child}, flow.Leads id child → id ∈ flow.body limits node.id merge →
      child ∉ flow.body limits node.id merge → child = merge :=
    eq_merge_of_leaves_body apart clear
  rw [Flow.removeBlock] at stays ⊢
  by_cases keeps : (node.isMerge || flow.sharesMerge merge (flow.body limits node.id merge)) = true
  · -- The merge stays, and each way out of the body ends there.
    simp only [keeps, if_true] at stays ⊢
    refine (heals_removeAndBridge (tells _) fun leads inside outside => ?_).rooted rooted known
      below fun _ above => acyclic.notMem_body apart above
    exact List.mem_singleton.mpr (leaves leads inside outside)
  · simp only [keeps, if_false, Bool.false_eq_true] at stays ⊢
    rw [Bool.or_eq_true, not_or, Bool.not_eq_true, Bool.not_eq_true] at keeps
    obtain ⟨-, -, inward⟩ := sharesMerge_eq_false_iff.mp keeps.2
    have other : merge ≠ root := by
      rintro rfl
      exact stays ((tells _ merge present).mpr (by simp))
    refine (heals_removeAndBridge (tells _) fun leads inside outside => ?_).rooted rooted known
      below fun path above gone => ?_
    · rw [List.mem_append, List.mem_singleton, not_or] at outside
      rcases List.mem_append.mp inside with body | last
      · exact absurd (leaves leads body outside.1) outside.2
      · obtain rfl := List.mem_singleton.mp last
        refine List.mem_filter.mpr ⟨leads_iff_mem_children.mp leads, ?_⟩
        simpa using outside
    · rcases List.mem_append.mp gone with body | last
      · exact acyclic.notMem_body apart above body
      · -- The merge is entered from the body only, so it does not lead back to the head.
        obtain rfl := List.mem_singleton.mp last
        obtain ⟨parent, -, into⟩ := path.cases_tail.resolve_left other
        exact acyclic.notMem_body apart (above.head into) (inward parent into)

end Flow

namespace Edit

variable {flow : Flow} {limits : Limits} {supply rest : Supply} {change : Change}
  {root head : NodeId}

/-- In a flow without cycles in which all nodes are reached from a root, a block is deleted, and the
root stays. If the collection of the body came to its end, all nodes that are left are reached from
the root. -/
theorem rooted_delete (acyclic : flow.Acyclic) (rooted : flow.Rooted root)
    (opens : flow.isHead head = true) (below : head ≠ root)
    (uncut : ∀ merge, flow.presentMerge? limits head = some merge →
      flow.waiting limits head merge = [])
    (done : (delete head).run flow limits supply = .ok (change, rest))
    (stays : root ∉ change.removed) : change.flow.Rooted root := by
  obtain ⟨node, found, ⟨starts, -⟩ | ⟨-, -, merge, present, apart, rfl⟩ | ⟨-, closed, -⟩⟩ :=
    delete_cases done
  · rw [Flow.isHead_of_node? found, Node.isHead, Node.blockKind?, starts] at opens
    cases opens
  · obtain rfl := Flow.id_of_node?_eq_some found
    exact rooted.removeBlock acyclic (Flow.mem_ids_of_node? found) below apart.symm
      (Flow.mem_ids_of_presentMerge? present) (uncut merge present) stays
  · exact absurd ((Flow.isHead_of_node? found).symm.trans opens) (by simp [closed])

/-- A block whose head names a merge that is not there, with a branch that is entered from
outside. -/
def breached : Flow where
  nodes := [{ id := "start", kind := some "trigger" }, { id := "outer", kind := some "condition" },
    { id := "inner", kind := some "parallel", content := { mergeNodeId := some "gone" } },
    { id := "step", kind := some "action" }, .branchPlaceholder "slot" "B",
    .mergePlaceholder "close", .mergePlaceholder "join", { id := "end", kind := some "end" }]
  edges := [.connect "start" "outer" none, .connect "outer" "inner" (some "true"),
    .connect "outer" "step" (some "false"), .connect "inner" "step" (some "A"),
    .connect "inner" "slot" (some "B"), .connect "step" "close" none,
    .connect "slot" "close" none, .connect "close" "join" none, .connect "join" "end" none]

/-- The block is taken out with the branch that is entered from outside. -/
def breachedDeleted : Change where
  flow := {
    nodes := [{ id := "start", kind := some "trigger" },
      { id := "outer", kind := some "condition" }, .mergePlaceholder "join",
      { id := "end", kind := some "end" }, .branchPlaceholder "000000000001" "True Path"]
    edges := [.connect "start" "outer" none, .connect "join" "end" none,
      .connect "outer" "000000000001" (some "true"), .connect "000000000001" "join" none] }
  removed := ["inner", "step", "slot", "close"]
  added := ["000000000001"]

/-- All that is left is reached from the start. -/
theorem rooted_delete_breached : (delete "inner").run breached {} .numbered =
    .ok (breachedDeleted, Supply.numbered.skip 1) ∧ breachedDeleted.flow.Rooted "start" := by
  have done : (delete "inner").run breached {} .numbered =
      .ok (breachedDeleted, Supply.numbered.skip 1) := by rfl
  have acyclic : breached.Acyclic := Flow.acyclic_of_order breached.ids (by decide +kernel)
  have rooted : breached.Rooted "start" := Flow.rooted_of_order breached.ids (by decide +kernel)
  have uncut : ∀ merge, breached.presentMerge? {} "inner" = some merge →
      breached.waiting {} "inner" merge = [] := by
    have present : breached.presentMerge? {} "inner" = some "close" := by decide +kernel
    intro merge found
    obtain rfl := Option.some.inj (present.symm.trans found)
    decide +kernel
  exact ⟨done, rooted_delete acyclic rooted (by decide +kernel) (by decide) uncut done (by decide)⟩

end Edit

end Workflow
