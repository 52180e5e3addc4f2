import Workflow.Edit.Basic
import Workflow.Proofs.Editing.Lookup
import Workflow.Proofs.Walk.Ascent

/-!
# Merges that may not be deleted

A slot that is the merge of a block may not be deleted while some head is closed by it. The deletion
looks for such a head in two places: among the heads that name the merge, and at the end of the way
up along first parents. A head that is closed along another way is not seen, nor one above a node
that is head and merge at once, and the merge is taken from it.

## Main definitions

* `Flow.Guards` — a head for which a merge is kept is seen from the merge
* `Flow.ClosesInLine` — a head is closed along a way that is the way up reversed

## Main results

* `closingHead?_eq_none_iff` — no head is found for a merge if and only if none is seen
* `Session.perform_delete_eq_error_iff` — exactly when a merge is guarded, its deletion is refused
-/

namespace Workflow

namespace Flow

/-- A head is seen from a merge: it names the merge, or it is at the end of the way up along first
parents and resolves to the merge. -/
def Guards (flow : Flow) (limits : Limits) (merge : NodeId) : Prop :=
  (∃ node ∈ flow.nodes, node.id ≠ merge ∧ node.isHead = true ∧
    node.content.mergeNodeId = some merge) ∨
  ∃ chain opener, flow.Climbs merge chain opener ∧ flow.merge? limits opener = some merge

/-- A head is closed at a merge along a way on which each node is the first parent of the next, and
none is head and merge at once. -/
def ClosesInLine (flow : Flow) (head merge : NodeId) : Prop :=
  ∃ before, flow.ClosesAlong (before ++ [merge]) head merge ∧ (before ++ [merge]).Nodup ∧
    (before ++ [merge]).IsChain (fun parent child => flow.firstParent? child = some parent) ∧
    ∀ id ∈ before ++ [merge], ¬ (flow.isHead id = true ∧ flow.isMerge id = true)

variable {flow : Flow} {limits : Limits} {merge head : NodeId} {node : Node}

/-- No head is found for a merge if and only if none is seen from it. -/
theorem closingHead?_eq_none_iff (enough : (flow.edges.length : Int) ≤ limits.maxIterations) :
    flow.closingHead? limits merge = none ↔ ¬ flow.Guards limits merge := by
  rw [closingHead?]
  cases named : flow.nodes.find? fun node =>
      node.id ≠ merge ∧ node.isHead ∧ node.content.mergeNodeId = some merge with
  | some node =>
    have names := List.find?_some named
    refine iff_of_false (by simp) fun unguarded => unguarded (.inl ⟨node, ?_, by simpa using names⟩)
    exact List.mem_of_find?_eq_some named
  | none =>
    have unnamed := List.find?_eq_none.mp named
    dsimp only
    rw [Option.filter_eq_none_iff]
    constructor
    · rintro unseen (⟨node, member, names⟩ | ⟨chain, opener, climbs, resolves⟩)
      · exact unnamed node member (by simpa using names)
      · have found := (starter?_eq_some_iff_climbs enough).mpr ⟨chain, climbs⟩
        exact unseen opener found (by simpa using resolves)
    · intro unguarded opener found resolves
      obtain ⟨chain, climbs⟩ := (starter?_eq_some_iff_climbs enough).mp found
      exact unguarded (.inr ⟨chain, opener, climbs, by simpa using resolves⟩)

/-- The head whose block a merge closes at present is a node of the flow. -/
theorem mem_ids_of_closingHead? (closes : flow.closingHead? limits merge = some head) :
    head ∈ flow.ids := by
  rw [closingHead?] at closes
  split at closes
  · rename_i node named
    obtain rfl := Option.some.inj closes
    exact List.mem_map_of_mem (List.mem_of_find?_eq_some named)
  · obtain ⟨chain, -, climbs⟩ :=
      starter?_eq_some_iff.mp (Option.filter_eq_some_iff.mp closes).1
    exact mem_ids_of_isHead climbs.level.2.1

/-- A head that names a merge, or is closed at it in line and resolves to it, is seen from it. -/
theorem guards_of_resolves (opens : flow.isHead head = true) (apart : head ≠ merge)
    (resolves : flow.merge? limits head = some merge)
    (near : flow.rememberedMerge? head = some merge ∨ flow.ClosesInLine head merge) :
    flow.Guards limits merge := by
  rcases near with names | ⟨before, closed, distinct, parents, single⟩
  · left
    rw [rememberedMerge?, Option.bind_eq_some_iff] at names
    obtain ⟨node, found, names⟩ := names
    rw [Content.rememberedMerge?, Option.filter_eq_some_iff] at names
    rw [isHead_of_node? found] at opens
    obtain rfl := id_of_node?_eq_some found
    exact ⟨node, mem_of_node?_eq_some found, apart, opens, names.1⟩
  · exact .inr ⟨_, head, closed.climbs opens distinct parents single, resolves⟩

/-- The deletion of a slot that is a merge looks for a head first. -/
theorem delete_eq_of_slot (found : flow.node? merge = some node) (merges : node.isMerge = true)
    (waits : node.content.isPlaceholder = true) (plain : node.isHead = false)
    (later : node.kind ≠ some Kind.trigger) :
    flow.delete limits merge = match flow.closingHead? limits merge with
      | some head => .error (.closesBlock merge head)
      | none => .ok (flow.removeStep merge) := by
  obtain rfl := id_of_node?_eq_some found
  rw [delete, found]
  dsimp only
  rw [if_neg later, if_neg (by simp [plain]), deleteStep, if_neg (by simp [waits]),
    if_neg (by simp [waits]), if_pos merges]
  rfl

end Flow

namespace Session

variable {session : Session} {merge head : NodeId} {node : Node}

/-- A slot that is the merge of a block is deleted, or its deletion is refused and all stays as it
was. It is refused if and only if a head is seen from the merge. Of the heads that resolve to the
merge, one is seen for sure if it names the merge or is closed in line. -/
theorem perform_delete_eq_error_iff (found : session.flow.node? merge = some node)
    (merges : node.isMerge = true) (waits : node.content.isPlaceholder = true)
    (plain : node.isHead = false) (later : node.kind ≠ some Kind.trigger)
    (enough : (session.flow.edges.length : Int) ≤ session.limits.maxIterations)
    (opens : session.flow.isHead head = true) (apart : head ≠ merge)
    (resolves : session.flow.merge? session.limits head = some merge) :
    ((∃ refusal, session.perform (.delete merge) = (.error refusal, session)) ↔
      session.flow.Guards session.limits merge) ∧
    (¬ session.flow.Guards session.limits merge →
      ∃ change, (session.perform (.delete merge)).1 = .ok change ∧ change.removed = [merge]) ∧
    (session.flow.rememberedMerge? head = some merge ∨ session.flow.ClosesInLine head merge →
      session.flow.Guards session.limits merge) := by
  have plan : (Edit.delete merge).plan session.flow session.limits = _ :=
    Flow.delete_eq_of_slot found merges waits plain later
  have seen : session.flow.closingHead? session.limits merge = none ↔ _ :=
    Flow.closingHead?_eq_none_iff enough
  have removed : session.flow.closingHead? session.limits merge = none →
      ∃ change, (session.perform (.delete merge)).1 = .ok change ∧ change.removed = [merge] := by
    intro unseen
    rw [unseen] at plan
    rw [perform_of_ok (Edit.run_eq_ok_iff.mpr ⟨_, plan, rfl⟩)]
    exact ⟨_, rfl, rfl⟩
  refine ⟨⟨?_, fun guarded => ?_⟩, fun unguarded => removed (seen.mpr unguarded),
    Flow.guards_of_resolves opens apart resolves⟩
  · rintro ⟨refusal, refused⟩
    by_contra unguarded
    obtain ⟨change, made, -⟩ := removed (seen.mpr unguarded)
    rw [refused] at made
    cases made
  · cases closing : session.flow.closingHead? session.limits merge with
    | none => exact absurd guarded (seen.mp closing)
    | some opener =>
      rw [closing] at plan
      exact ⟨_, perform_of_error (Edit.run_eq_error_iff.mpr plan)⟩

/-- A condition in a condition, with slots as merges. -/
def stacked : Session where
  flow := {
    nodes := [{ id := "outer", kind := some "condition" },
      { id := "inner", kind := some "condition" }, .mergePlaceholder "close",
      .mergePlaceholder "exit", { id := "end", kind := some "end" }]
    edges := [.connect "outer" "inner" (some "true"), .connect "inner" "close" (some "true"),
      .connect "inner" "close" (some "false"), .connect "close" "exit" none,
      .connect "exit" "end" none] }
  supply := .numbered

/-- The merge of the outer condition may not be deleted. -/
theorem perform_delete_eq_error_iff_stacked :
    stacked.flow.merge? stacked.limits "outer" = some "exit" ∧
    ∃ refusal, stacked.perform (.delete "exit") = (.error refusal, stacked) := by
  have resolves : stacked.flow.merge? stacked.limits "outer" = some "exit" := by decide +kernel
  have enough : (stacked.flow.edges.length : Int) ≤ stacked.limits.maxIterations := by
    decide +kernel
  have found : stacked.flow.node? "exit" = some (.mergePlaceholder "exit") := by decide +kernel
  have above : stacked.flow.starter? stacked.limits "exit" = some "outer" := by decide +kernel
  obtain ⟨chain, climbs⟩ := (Flow.starter?_eq_some_iff_climbs enough).mp above
  obtain ⟨refused, -⟩ := perform_delete_eq_error_iff found (by decide) (by decide) (by decide)
    (by decide) enough (by decide +kernel) (by decide) resolves
  exact ⟨resolves, refused.mpr (.inr ⟨chain, "outer", climbs, resolves⟩)⟩

/-- The sample after the inner merge was filled with a condition, which is head and merge at once. -/
def restacked : Session := (stacked.perform (.fill "close" "condition" none none none)).2

/-- The merge of the outer condition may be deleted then, and the outer condition is open. -/
theorem not_perform_delete_eq_error_restacked :
    restacked.flow.ids.Nodup ∧
    (∃ node, restacked.flow.node? "exit" = some node ∧ node.isMerge = true ∧
      node.content.isPlaceholder = true ∧ node.isHead = false ∧ node.kind ≠ some Kind.trigger) ∧
    (restacked.flow.nodes.length + restacked.flow.edges.length : Int) <
      restacked.limits.maxIterations ∧
    restacked.flow.isHead "outer" = true ∧
    restacked.flow.merge? restacked.limits "outer" = some "exit" ∧
    (∃ change, (restacked.perform (.delete "exit")).1 = .ok change ∧ change.removed = ["exit"]) ∧
    (restacked.perform (.delete "exit")).2.flow.merge? restacked.limits "outer" = none :=
  ⟨by decide +kernel, ⟨.mergePlaceholder "exit", by decide +kernel⟩, by decide +kernel,
    by decide +kernel, by decide +kernel, ⟨_, rfl, rfl⟩, by decide +kernel⟩

end Session

end Workflow
