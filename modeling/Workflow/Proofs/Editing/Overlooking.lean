import Workflow.Proofs.Editing.BlockRemoval
import Workflow.Proofs.Editing.Succession
import Workflow.Proofs.Walk.Spread

/-!
# Nodes that the deletion of a block overlooks

When a block is deleted, its body is collected in so many steps, each of which follows one node.
When the steps run out, the nodes that are still waiting go with the body, but not what only they
lead to. That is left behind, although walks from the head reach it around the merge. The deletion
is made all the same, with any limit on the steps.

## Main definitions

* `Flow.Overlooks` — a node can be reached from a head, but no followed node leads to it

## Main results

* `Edit.mem_ids_delete_iff` — exactly the overlooked nodes are left behind
-/

namespace Workflow

namespace Flow

/-- A node can be reached from a head around the merge, but no node that is followed when the body is
collected leads to it. -/
structure Overlooks (flow : Flow) (limits : Limits) (head merge id : NodeId) : Prop where
  around : flow.Around merge head id
  behind : id ≠ head
  unfollowed : ∀ parent ∈ flow.followed limits head merge, ¬ flow.Leads parent id

variable {flow : Flow} {limits : Limits} {head merge id : NodeId} {supply : Supply} {node : Node}

/-- What is overlooked is what can be reached and is not in the body. -/
theorem overlooks_iff (apart : head ≠ merge) : flow.Overlooks limits head merge id ↔
    flow.Around merge head id ∧ id ∉ flow.body limits head merge := by
  rw [mem_body_iff apart]
  constructor
  · rintro ⟨around, behind, unfollowed⟩
    refine ⟨around, fun inside => ?_⟩
    obtain ⟨-, parent, followed, leads⟩ := inside.resolve_left behind
    exact unfollowed parent followed leads
  · rintro ⟨around, outside⟩
    rw [not_or] at outside
    exact ⟨around, outside.1, fun parent followed leads =>
      outside.2 ⟨around.ne apart, parent, followed, leads⟩⟩

/-- Where a node is overlooked, more nodes can be reached than there are steps: the followed ones,
one that is left waiting, and the overlooked one. -/
theorem Overlooks.exists_reached (overlooks : flow.Overlooks limits head merge id)
    (apart : head ≠ merge) : ∃ reached : List NodeId, reached.Nodup ∧
      (∀ id ∈ reached, flow.Around merge head id) ∧ limits.scanSteps + 1 < reached.length := by
  have scanned := flow.scanned_body limits head merge
  obtain ⟨around, outside⟩ := (overlooks_iff apart).mp overlooks
  rw [body_eq apart] at outside
  have left : flow.waiting limits head merge ≠ [] := by
    intro clear
    rw [clear] at scanned
    exact outside (List.mem_append_left _ (scanned.mem_of_around around))
  refine ⟨id :: (flow.followed limits head merge ++ flow.waiting limits head merge),
    List.nodup_cons.mpr ⟨outside, scanned.distinct⟩, ?_, ?_⟩
  · rintro other member
    rcases List.mem_cons.mp member with rfl | inside
    · exact around
    · exact scanned.around other inside
  · have some' := List.length_pos_of_ne_nil left
    rw [List.length_cons, List.length_append, length_followed left]
    omega

/-- A node other than the merge goes with a block exactly if it is in the body. -/
theorem mem_removed_removeBlock (off : id ≠ merge) :
    id ∈ (StateT.run (flow.removeBlock limits node merge) supply).1.removed ↔
      id ∈ flow.ids ∧ id ∈ flow.body limits node.id merge := by
  have removed : (StateT.run (flow.removeBlock limits node merge) supply).1.removed =
      flow.idsIn (if node.isMerge || flow.sharesMerge merge (flow.body limits node.id merge) then
        flow.body limits node.id merge else flow.body limits node.id merge ++ [merge]) := rfl
  rw [removed, idsIn, List.mem_filter, decide_eq_true_iff]
  refine and_congr_right fun _ => ?_
  split
  · exact Iff.rfl
  · simp [off]

end Flow

namespace Edit

variable {flow : Flow} {limits : Limits} {supply rest : Supply} {change : Change}
  {head merge : NodeId}

/-- A block is deleted, with the merge that closes it at present. Of the nodes that can be reached
from its head around the merge, exactly those are left behind that were overlooked. That happens only
if more nodes can be reached than there are steps, and one besides. With any other number of steps
the deletion is made as well. -/
theorem mem_ids_delete_iff (opens : flow.isHead head = true)
    (present : flow.presentMerge? limits head = some merge)
    (done : (delete head).run flow limits supply = .ok (change, rest))
    (fresh : change.FreshFor flow) :
    (∀ id ∈ flow.ids, flow.Around merge head id →
      (id ∈ change.flow.ids ↔ flow.Overlooks limits head merge id)) ∧
    (∀ id, flow.Overlooks limits head merge id → ∃ reached : List NodeId, reached.Nodup ∧
      (∀ id ∈ reached, flow.Around merge head id) ∧ limits.scanSteps + 1 < reached.length) ∧
    ∀ scanLimit, ∃ other left,
      (delete head).run flow { limits with scanLimit } supply = .ok (other, left) := by
  obtain ⟨touch, new, remakes⟩ := exists_remakes done fresh
  obtain ⟨node, found, ⟨starts, -⟩ | ⟨-, isHead, own, closes, apart, rfl⟩ | ⟨-, closed, -⟩⟩ :=
    delete_cases done
  · rw [Flow.isHead_of_node? found, Node.isHead, Node.blockKind?, starts] at opens
    cases opens
  · obtain rfl := Flow.id_of_node?_eq_some found
    obtain rfl := Option.some.inj (closes.symm.trans present)
    refine ⟨fun id known around => ?_, fun id overlooks => overlooks.exists_reached apart.symm,
      fun scanLimit => ?_⟩
    · have old : id ∉ (StateT.run (flow.removeBlock limits node own) supply).1.added :=
        fun inside => fresh.unused id inside (.inl known)
      rw [remakes.ids_eq, List.mem_append, or_iff_left old, List.mem_filter, decide_eq_true_iff,
        Flow.mem_removed_removeBlock (around.ne apart.symm), Flow.overlooks_iff apart.symm]
      simp [known, around]
    · -- The limit on the steps has no part in the search for the merge.
      have still : flow.presentMerge? { limits with scanLimit } node.id = some own := present
      exact ⟨_, _, run_eq_ok_iff.mpr ⟨_, Flow.plan_delete_head found isHead still apart, rfl⟩⟩
  · exact absurd ((Flow.isHead_of_node? found).symm.trans opens) (by simp [closed])

/-- A condition with two steps on its branch, one behind the other. -/
def shaft : Flow where
  nodes := [{ id := "head", kind := some "condition" }, { id := "first", kind := some "action" },
    { id := "second", kind := some "action" }, .mergePlaceholder "merge",
    { id := "end", kind := some "end" }]
  edges := [.connect "head" "first" (some "true"), .connect "first" "second" none,
    .connect "second" "merge" none, .connect "merge" "end" none]

/-- The condition is taken out with the first step. -/
def shaftDeleted : Change where
  flow := { shaft with
    nodes := [{ id := "second", kind := some "action" }, .mergePlaceholder "merge",
      { id := "end", kind := some "end" }]
    edges := [.connect "second" "merge" none, .connect "merge" "end" none] }
  removed := ["head", "first"]

theorem around_shaft : shaft.Around "merge" "head" "second" := by
  have first : shaft.Leads "head" "first" := Flow.leads_iff_mem_children.mpr (by decide +kernel)
  have second : shaft.Leads "first" "second" := Flow.leads_iff_mem_children.mpr (by decide +kernel)
  exact .tail (.single ⟨first, by decide⟩) ⟨second, by decide⟩

/-- With one step to take, the second step is overlooked. -/
theorem mem_ids_delete_iff_shaft : "second" ∈ shaftDeleted.flow.ids ∧
    ∃ reached : List NodeId, reached.Nodup ∧ (∀ id ∈ reached, shaft.Around "merge" "head" id) ∧
      2 < reached.length := by
  have done : (delete "head").run shaft { scanLimit := 1 } .numbered =
      .ok (shaftDeleted, .numbered) := by rfl
  have fresh : shaftDeleted.FreshFor shaft := by decide
  have present : shaft.presentMerge? { scanLimit := 1 } "head" = some "merge" := by decide +kernel
  obtain ⟨stays, reached, -⟩ := mem_ids_delete_iff (by decide +kernel) present done fresh
  have overlooks : shaft.Overlooks { scanLimit := 1 } "head" "merge" "second" := by
    refine ⟨around_shaft, by decide, fun parent followed leads => ?_⟩
    have only : shaft.followed { scanLimit := 1 } "head" "merge" = ["head"] := by decide +kernel
    rw [only, List.mem_singleton] at followed
    rw [followed, Flow.leads_iff_mem_children] at leads
    exact absurd leads (by decide +kernel)
  exact ⟨(stays "second" (by decide) around_shaft).mpr overlooks, reached "second" overlooks⟩

/-- The deletion is made, and of the two steps between head and merge one is left behind. -/
theorem not_mem_ids_delete_shaft : shaft.ids.Nodup ∧ shaft.isHead "head" = true ∧
    shaft.presentMerge? { scanLimit := 1 } "head" = some "merge" ∧
    (delete "head").run shaft { scanLimit := 1 } .numbered = .ok (shaftDeleted, .numbered) ∧
    shaft.Around "merge" "head" "second" ∧ "first" ∉ shaftDeleted.flow.ids ∧
    "second" ∈ shaftDeleted.flow.ids :=
  ⟨by decide, by decide +kernel, by decide +kernel, rfl, around_shaft, by decide, by decide⟩

end Edit

end Workflow
