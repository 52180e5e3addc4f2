import Workflow.Proofs.Editing.Remaking
import Workflow.Proofs.Walk.Search

/-!
# The merges that nodes name after an edit

A node may name a merge, and nothing forces that to be right: it may name a node that is no merge,
or none at all. After an edit each merge that is named is a node of the flow. A name is kept if its
node stays. It passes to the node that took over the role of a join that was moved, and else it is
dropped.

## Main definitions

* `Change.UnseenIn` — an edit used identities that occur nowhere in the flow
* `Edit.successor?` — the node that goes on in the role of a merge that was named

## Main results

* `Edit.names_successor` — what nodes name after an edit
-/

namespace Workflow

/-- The identities that an edit put in are distinct, and occur nowhere in the flow before it: not
even as the name of a merge. -/
structure Change.UnseenIn (change : Change) (flow : Flow) : Prop extends change.FreshFor flow where
  unnamed : ∀ node ∈ flow.nodes, ∀ merge ∈ change.added, node.content.mergeNodeId ≠ some merge

instance (change : Change) (flow : Flow) : Decidable (change.UnseenIn flow) :=
  decidable_of_iff (change.FreshFor flow ∧
      ∀ node ∈ flow.nodes, ∀ merge ∈ change.added, node.content.mergeNodeId ≠ some merge)
    ⟨fun h => ⟨h.1, h.2⟩, fun h => ⟨h.toFreshFor, h.unnamed⟩⟩

namespace Flow

variable {flow : Flow} {limits : Limits} {head merge : NodeId}

/-- The merge that is deleted with a block, or kept for others, is a node. -/
theorem mem_ids_of_presentMerge? (present : flow.presentMerge? limits head = some merge) :
    merge ∈ flow.ids := by
  rw [presentMerge?] at present
  split at present
  · cases present
  · split at present
    · rename_i known
      cases present
      exact has_iff_mem_ids.mp known
    · exact mem_ids_of_isMerge (isMerge_of_searchMerge? present)

/-- A merge is outside the body of its block, unless the head is its own merge. -/
theorem merge_notMem_body (apart : merge ≠ head) : merge ∉ flow.body limits head merge := by
  rw [body, if_neg apart.symm]
  exact merge_notMem_spread (by simpa using apart)

end Flow

/-- A node that is settled names the merge that it named, or the one that took over its role, if
that is there. -/
theorem Node.mergeNodeId_settle (rename : NodeId → NodeId) (alive : List NodeId) (node : Node) :
    (node.settle rename alive).content.mergeNodeId =
      (node.content.mergeNodeId.map rename).filter (· ∈ alive) :=
  rfl

namespace Edit

variable {edit : Edit} {flow : Flow} {limits : Limits} {supply rest : Supply} {change : Change}
  {node after : Node} {id old heir merge : NodeId}

/-- The node that goes on in the role of a merge that was named: that merge if it stays, and else
the node that took over its role. -/
def successor? (edit : Edit) (flow : Flow) (limits : Limits) (change : Change) (merge : NodeId) :
    Option NodeId :=
  if merge ∈ flow.ids ∧ merge ∉ change.removed then some merge
  else edit.heir? flow limits change merge

/-- An edit leaves what a node names, unless it is about the node or tells it what to name. -/
theorem Touches.names_eq (touches : edit.Touches flow limits node after)
    (found : flow.node? node.id = some node) (other : edit.subject? ≠ some node.id)
    (still : edit.repointed? flow limits ≠ some node.id) :
    after.content.mergeNodeId = node.content.mergeNodeId := by
  cases touches with
  | still => rfl
  | repointed above => exact absurd above still
  | labelled there =>
    obtain rfl := Option.some.inj (found.symm.trans there)
    rfl
  | named | swapped | filled | emptied => exact absurd rfl other

/-! ### The node that takes over -/

/-- The head that goes on in the place of a slot is new. -/
theorem heir?_fill_eq_some {kind : String} {label : Option String} {params : Option Json.Members}
    {branches : Option (List String)}
    (done : (fill id kind label params branches).run flow limits supply = .ok (change, rest))
    (moves : (fill id kind label params branches).movesJoin flow = true) :
    ∃ heir, (fill id kind label params branches).heir? flow limits change id = some heir ∧
      id ∈ change.removed ∧ heir ∈ change.added := by
  obtain ⟨slot, found, -, ⟨plain, -⟩ | ⟨block, opens, -, rfl⟩⟩ := fill_cases done
  · rw [movesJoin, plain] at moves
    cases moves
  · obtain rfl := Flow.id_of_node?_eq_some found
    exact ⟨_, if_pos ⟨rfl, moves⟩, List.mem_singleton.mpr rfl, List.mem_cons_self⟩

/-- The merge that goes on in the place of a head was there and stays. -/
theorem heir?_delete_eq_some (done : (delete id).run flow limits supply = .ok (change, rest))
    (moves : (delete id).movesJoin flow = true) :
    ∃ heir, (delete id).heir? flow limits change id = some heir ∧ id ∈ change.removed ∧
      heir ∈ flow.ids ∧ heir ∉ change.removed := by
  obtain ⟨node, found, cases⟩ := delete_cases done
  obtain rfl := Flow.id_of_node?_eq_some found
  obtain ⟨opens, joins⟩ : node.isHead = true ∧ node.isMerge = true := by
    rw [movesJoin_delete found, Bool.and_eq_true] at moves
    exact moves
  rcases cases with ⟨starts, -⟩ | ⟨-, -, merge, present, apart, rfl⟩ | ⟨-, closed, -⟩
  · rw [Node.isHead, Node.blockKind?, starts] at opens
    cases opens
  · -- A head that is a join leaves its merge where it is.
    have removed : (StateT.run (flow.removeBlock limits node merge) supply).1.removed =
        flow.idsIn (flow.body limits node.id merge) := by
      simp only [Flow.removeBlock, joins, Bool.true_or, if_true]
      rfl
    have known := Flow.mem_ids_of_node? found
    have there := Flow.mem_ids_of_presentMerge? present
    refine ⟨merge, ?_, ?_, there, ?_⟩
    · rw [heir?, if_pos ⟨rfl, moves⟩, present]
    · rw [removed, Flow.idsIn, List.mem_filter]
      exact ⟨known, decide_eq_true Flow.head_mem_body⟩
    · rw [removed, Flow.idsIn, List.mem_filter, decide_eq_true_iff]
      exact fun inside => Flow.merge_notMem_body apart inside.2
  · exact absurd opens (by simp [closed])

/-- When an edit takes out a join whose role another node takes over, the join is gone and the other
is there. -/
theorem heir?_eq_some (done : edit.run flow limits supply = .ok (change, rest))
    (fresh : change.FreshFor flow) (moves : edit.movesJoin flow = true) :
    ∃ old heir, edit.subject? = some old ∧ edit.heir? flow limits change old = some heir ∧
      old ∈ change.removed ∧ heir ∈ change.flow.ids := by
  obtain ⟨touch, new, remakes⟩ := exists_remakes done fresh
  rw [remakes.ids_eq]
  cases edit with
  | delete id =>
    obtain ⟨heir, takes, gone, known, stays⟩ := heir?_delete_eq_some done moves
    exact ⟨id, heir, rfl, takes, gone,
      List.mem_append_left _ (List.mem_filter.mpr ⟨known, decide_eq_true stays⟩)⟩
  | fill id kind label params branches =>
    obtain ⟨heir, takes, gone, new⟩ := heir?_fill_eq_some done moves
    exact ⟨id, heir, rfl, takes, gone, List.mem_append_right _ new⟩
  | swap | insert | setBranches => cases moves

/-- A node takes over only from one that is gone, and is there itself. -/
theorem of_heir?_eq_some (done : edit.run flow limits supply = .ok (change, rest))
    (fresh : change.FreshFor flow) (takes : edit.heir? flow limits change merge = some heir) :
    merge ∈ change.removed ∧ heir ∈ change.flow.ids := by
  obtain ⟨about, moves⟩ : edit.subject? = some merge ∧ edit.movesJoin flow = true := by
    by_contra other
    have none : edit.heir? flow limits change merge = none := if_neg other
    rw [none] at takes
    cases takes
  obtain ⟨old, other, about', takes', gone, there⟩ := heir?_eq_some done fresh moves
  obtain rfl := Option.some.inj (about.symm.trans about')
  obtain rfl := Option.some.inj (takes.symm.trans takes')
  exact ⟨gone, there⟩

/-! ### What nodes name -/

/-- Settling passes each name to its successor. -/
theorem filter_getD_heir?_eq (done : edit.run flow limits supply = .ok (change, rest))
    (fresh : change.FreshFor flow) (old : merge ∉ change.added) :
    (some ((edit.heir? flow limits change merge).getD merge)).filter (· ∈ change.flow.ids) =
      edit.successor? flow limits change merge := by
  obtain ⟨touch, new, remakes⟩ := exists_remakes done fresh
  -- Of the nodes of the flow, those are there that were not removed.
  have there : merge ∈ change.flow.ids ↔ merge ∈ flow.ids ∧ merge ∉ change.removed := by
    rw [remakes.ids_eq, List.mem_append, or_iff_left old, List.mem_filter, decide_eq_true_iff]
  simp only [successor?, ← there]
  cases takes : edit.heir? flow limits change merge with
  | none =>
    by_cases stays : merge ∈ change.flow.ids <;> simp [stays, Option.filter]
  | some heir =>
    obtain ⟨gone, alive⟩ := of_heir?_eq_some done fresh takes
    have left : merge ∉ change.flow.ids := fun stays => (there.mp stays).2 gone
    simp [left, alive, Option.filter]

/-- After an edit that is made, each merge that a node names is a node of the flow. A node that
stays names the successor of the merge that it named, unless the edit is about the node or it is
the head whose merge is replaced. If the edit moves a join, that is gone, and the node that takes
over its role is there. -/
theorem names_successor (distinct : flow.ids.Nodup)
    (done : edit.run flow limits supply = .ok (change, rest)) (fresh : change.UnseenIn flow) :
    (∀ node ∈ change.flow.nodes, ∀ merge, node.content.mergeNodeId = some merge →
      merge ∈ change.flow.ids) ∧
    (∀ before ∈ flow.nodes, before.id ∉ change.removed → edit.subject? ≠ some before.id →
      edit.repointed? flow limits ≠ some before.id →
      ∃ after, change.flow.node? before.id = some after ∧ after.content.mergeNodeId =
        before.content.mergeNodeId.bind (edit.successor? flow limits change)) ∧
    (edit.movesJoin flow = true → ∃ old heir, edit.subject? = some old ∧
      edit.heir? flow limits change old = some heir ∧ old ∈ change.removed ∧
        heir ∈ change.flow.ids) := by
  obtain ⟨touch, new, remakes⟩ := exists_remakes done fresh.toFreshFor
  refine ⟨fun node member merge names => remakes.named_mem_ids member names,
    fun before member stays other still => ?_, heir?_eq_some done fresh.toFreshFor⟩
  have found := Flow.node?_eq_some_of_mem distinct member
  refine ⟨_, remakes.node?_eq found stays, ?_⟩
  rw [Node.mergeNodeId_settle, (remakes.touches before stays).names_eq found other still]
  cases names : before.content.mergeNodeId with
  | none => rfl
  | some merge =>
    exact filter_getD_heir?_eq done fresh.toFreshFor fun added =>
      fresh.unnamed before member merge added names

/-- A block whose merge is the head of another, a head that names a node that is not there, and one
that names a node that is no merge. -/
def misled : Flow where
  nodes := [{ id := "outer", kind := some "parallel", content := { mergeNodeId := some "join" } },
    { id := "step", kind := some "action" },
    { id := "stale", kind := some "condition", content := { mergeNodeId := some "gone" } },
    { id := "wrong", kind := some "loop", content := { mergeNodeId := some "end" } },
    { id := "join", kind := some "condition",
      content := { isMergeNode := true, mergeNodeId := some "close" } },
    .mergePlaceholder "close", { id := "end", kind := some "end" }]
  edges := [.connect "outer" "step" (some "A"), .connect "outer" "join" (some "B"),
    .connect "step" "join" none, .connect "join" "close" (some "true"),
    .connect "close" "end" none]

/-- The inner block is taken out, and its merge closes the outer block. -/
def misledDeleted : Change where
  flow := {
    nodes := [{ id := "outer", kind := some "parallel", content := { mergeNodeId := some "close" } },
      { id := "step", kind := some "action" }, { id := "stale", kind := some "condition" },
      { id := "wrong", kind := some "loop", content := { mergeNodeId := some "end" } },
      .mergePlaceholder "close", { id := "end", kind := some "end" },
      .branchPlaceholder "000000000001" "B"]
    edges := [.connect "outer" "step" (some "A"), .connect "close" "end" none,
      .connect "outer" "000000000001" (some "B"), .connect "000000000001" "close" none,
      .connect "step" "close" none] }
  removed := ["join"]
  added := ["000000000001"]

/-- When the inner block is deleted, the outer head names the merge that took over, the stale name
is dropped, and the wrong one is kept. -/
theorem names_successor_misled : ∃ outer stale wrong,
    misledDeleted.flow.node? "outer" = some outer ∧ outer.content.mergeNodeId = some "close" ∧
    misledDeleted.flow.node? "stale" = some stale ∧ stale.content.mergeNodeId = none ∧
    misledDeleted.flow.node? "wrong" = some wrong ∧ wrong.content.mergeNodeId = some "end" := by
  have done : (delete "join").run misled {} .numbered =
      .ok (misledDeleted, Supply.numbered.skip 1) := by rfl
  have fresh : misledDeleted.UnseenIn misled := by decide +kernel
  obtain ⟨-, passes, -⟩ := names_successor (by decide) done fresh
  obtain ⟨outer, foundOuter, namesOuter⟩ := passes _
    (@Flow.mem_of_node?_eq_some misled "outer" _ rfl) (by decide) (by decide) (by decide +kernel)
  obtain ⟨stale, foundStale, namesStale⟩ := passes _
    (@Flow.mem_of_node?_eq_some misled "stale" _ rfl) (by decide) (by decide) (by decide +kernel)
  obtain ⟨wrong, foundWrong, namesWrong⟩ := passes _
    (@Flow.mem_of_node?_eq_some misled "wrong" _ rfl) (by decide) (by decide) (by decide +kernel)
  refine ⟨outer, stale, wrong, foundOuter, namesOuter.trans ?_, foundStale, namesStale.trans ?_,
    foundWrong, namesWrong.trans ?_⟩ <;> decide +kernel

end Edit

end Workflow
