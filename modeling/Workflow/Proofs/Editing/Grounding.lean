import Workflow.Proofs.Editing.Succession

/-!
# Branches that lead nowhere

A new branch leads to the merge to which its head resolves. What the search finds is a node of the
flow. But a head that names a merge is believed, and where that is gone, each new branch leads to it
all the same: the one way in which naming the branches of a head leaves an edge without a node at
its end.

## Main definitions

* `Flow.Grounded` — each edge joins two nodes

## Main results

* `ends_withBranches` — after branches were set, edges join nodes or lead to a merge that is gone
* `Edit.grounded_setBranches_iff` — exactly when each edge joins two nodes after branches were set
-/

namespace Workflow

namespace Flow

/-- Each edge of a flow joins two of its nodes. -/
def Grounded (flow : Flow) : Prop :=
  ∀ edge ∈ flow.edges, edge.source ∈ flow.ids ∧ edge.target ∈ flow.ids

instance (flow : Flow) : Decidable flow.Grounded :=
  inferInstanceAs (Decidable (∀ _ ∈ _, _ ∧ _))

variable {flow : Flow} {head : Node} {id child merge : NodeId} {names : List String}
  {slots : List NodeId} {limits : Limits}

theorem Grounded.of_leads (grounded : flow.Grounded) (leads : flow.Leads id child) :
    id ∈ flow.ids ∧ child ∈ flow.ids := by
  obtain ⟨edge, known, rfl, rfl⟩ := leads
  exact grounded edge known

/-- A merge to which a head resolves, and which is not there, is the one that the head names. -/
theorem rememberedMerge?_of_missing (resolved : flow.merge? limits id = some merge)
    (missing : merge ∉ flow.ids) : flow.rememberedMerge? id = some merge := by
  cases own : flow.rememberedMerge? id with
  | none =>
    rw [merge?_of_not_remembered own] at resolved
    exact absurd (mem_ids_of_isMerge (isMerge_of_searchMerge? resolved)) missing
  | some remembered => rw [← resolved, merge?_of_remembered own]

section Branches

variable (found : flow.node? head.id = some head)
  (fresh : (flow.withBranches head merge names slots).FreshFor flow)
include found fresh

/-- The nodes after branches were set: those before but for the slots that were cut off, and those
that are new. -/
theorem mem_ids_withBranches : id ∈ (flow.withBranches head merge names slots).flow.ids ↔
    id ∈ flow.ids ∧ id ∉ flow.surplusSlots head.id names ∨
      id ∈ (flow.withBranches head merge names slots).added := by
  obtain ⟨touch, -, retouches⟩ := exists_retouches_withBranches found fresh
  rw [retouches.ids_eq, List.mem_append, List.mem_filter, decide_eq_true_iff,
    mem_removed_withBranches]

/-- After branches were set in a flow in which each edge joins two nodes, an edge joins two nodes,
or leads from a new slot to the merge that the head names, which is gone. -/
theorem ends_withBranches (grounded : flow.Grounded)
    (resolved : flow.merge? limits head.id = some merge) {edge : Edge}
    (member : edge ∈ (flow.withBranches head merge names slots).flow.edges) :
    edge.source ∈ (flow.withBranches head merge names slots).flow.ids ∧
      (edge.target ∈ (flow.withBranches head merge names slots).flow.ids ∨
        edge.source ∈ (flow.withBranches head merge names slots).added ∧
          flow.rememberedMerge? head.id = some edge.target ∧ edge.target ∉ flow.ids) := by
  simp only [mem_ids_withBranches found fresh]
  obtain ⟨on | ⟨slot, new, ⟨source, target⟩ | ⟨source, target⟩⟩, stays, staysToo⟩ :=
    leads_withBranches.mp ⟨edge, member, rfl, rfl⟩
  · obtain ⟨known, knownToo⟩ := grounded.of_leads on.leads
    exact ⟨.inl ⟨known, stays⟩, .inl (.inl ⟨knownToo, staysToo⟩)⟩
  · exact ⟨.inl ⟨source ▸ mem_ids_of_node? found, stays⟩, .inl (.inr (target ▸ new))⟩
  · refine ⟨.inr (source ▸ new), ?_⟩
    by_cases known : edge.target ∈ flow.ids
    · exact .inl (.inl ⟨known, staysToo⟩)
    · exact .inr ⟨source ▸ new, rememberedMerge?_of_missing (target ▸ resolved) known, known⟩

omit found fresh in
/-- With more names than branches, a new slot leads to the merge. -/
theorem exists_leads_merge (more : (flow.branchEdges head.id).length < names.length)
    (full : slots.length = names.length - (flow.branchEdges head.id).length) :
    ∃ slot, (flow.withBranches head merge names slots).flow.Leads slot merge := by
  obtain ⟨slot, new⟩ : ∃ slot, slot ∈ (flow.withBranches head merge names slots).added :=
    exists_added_withBranches more full
  have none : flow.surplusSlots head.id names = [] := surplusSlots_eq_nil (Nat.le_of_lt more)
  exact ⟨slot, leads_withBranches.mpr ⟨.inr ⟨slot, new, .inr ⟨rfl, rfl⟩⟩, by simp [none]⟩⟩

end Branches

end Flow

namespace Edit

variable {flow : Flow} {limits : Limits} {supply rest : Supply} {change : Change} {id : NodeId}
  {names : List String}

/-- Branches are set for a head in a flow in which each edge joins two nodes. Then it is so again if
and only if no branch is new, or the head does not name a merge that is gone. An edge that does not
join two nodes leads from a new slot to the merge that the head names. -/
theorem grounded_setBranches_iff (grounded : flow.Grounded)
    (done : (setBranches id names).run flow limits supply = .ok (change, rest))
    (fresh : change.UnseenIn flow) :
    (change.flow.Grounded ↔ names.length ≤ (flow.branchEdges id).length ∨
      ∀ merge, flow.rememberedMerge? id = some merge → merge ∈ flow.ids) ∧
    ∀ edge ∈ change.flow.edges, edge.source ∈ change.flow.ids ∧
      (edge.target ∈ change.flow.ids ∨ edge.source ∈ change.added ∧
        flow.rememberedMerge? id = some edge.target ∧ edge.target ∉ flow.ids) := by
  obtain ⟨head, merge, found, -, -, resolved, slots, drawn, rfl⟩ := setBranches_cases done
  obtain rfl := Flow.id_of_node?_eq_some found
  have ends := fun edge member =>
    @Flow.ends_withBranches flow head merge names slots limits found fresh.toFreshFor grounded
      resolved edge member
  refine ⟨⟨fun after => ?_, fun safe edge known => ?_⟩, ends⟩
  · refine (Nat.lt_or_ge (flow.branchEdges head.id).length names.length).symm.imp_right ?_
    intro more own named
    obtain rfl := Option.some.inj ((Flow.merge?_of_remembered named).symm.trans resolved)
    have full : slots.length = names.length - (flow.branchEdges head.id).length := by
      rw [drawn, List.length_map, List.length_range]
    obtain ⟨slot, edge, known, -, target⟩ :
        ∃ slot, (flow.withBranches head own names slots).flow.Leads slot own :=
      Flow.exists_leads_merge more full
    have present : own ∈ (flow.withBranches head own names slots).flow.ids :=
      target ▸ (after edge known).2
    rcases (Flow.mem_ids_withBranches found fresh.toFreshFor).mp present with ⟨there, -⟩ | new
    · exact there
    · -- What is new is not named by a node of the flow.
      obtain ⟨node, there, names⟩ := Option.bind_eq_some_iff.mp named
      exact absurd (Option.filter_eq_some_iff.mp names).1
        (fresh.unnamed node (Flow.mem_of_node?_eq_some there) _ new)
  · refine (ends edge known).imp_right fun here => here.resolve_right ?_
    rintro ⟨new, named, missing⟩
    rcases safe with few | present
    · rw [Flow.added_withBranches_eq_nil few] at new
      cases new
    · exact missing (present _ named)

/-- A parallel step that names a merge that is gone, in front of a join that a search would find. -/
def bereft : Flow where
  nodes := [{ id := "fork", kind := some "parallel", content := { mergeNodeId := some "gone" } },
    { id := "step", kind := some "action" }, .mergePlaceholder "join",
    { id := "end", kind := some "end" }]
  edges := [.connect "fork" "step" (some "A"), .connect "step" "join" none,
    .connect "join" "end" none]

/-- A second branch leads to the merge that is gone. The head no longer names it. -/
def bereftWidened : Change where
  flow := {
    nodes := [
      { id := "fork", kind := some "parallel",
        content := { params := some [("branches", Json.ofTexts ["A", "B"])] } },
      { id := "step", kind := some "action" }, .mergePlaceholder "join",
      { id := "end", kind := some "end" }, .branchPlaceholder "000000000001" "B"]
    edges := [.connect "fork" "step" (some "A"), .connect "step" "join" none,
      .connect "join" "end" none, .connect "fork" "000000000001" (some "B"),
      .connect "000000000001" "gone" none] }
  removed := []
  added := ["000000000001"]

/-- When a second branch is named, the edge that joins no two nodes leads from the new slot. -/
theorem grounded_setBranches_iff_bereft : ¬ bereftWidened.flow.Grounded ∧
    ∀ edge ∈ bereftWidened.flow.edges, edge.target ∉ bereftWidened.flow.ids →
      edge.source ∈ bereftWidened.added ∧ bereft.rememberedMerge? "fork" = some edge.target := by
  have done : (setBranches "fork" ["A", "B"]).run bereft {} .numbered =
      .ok (bereftWidened, Supply.numbered.skip 1) := by rfl
  have fresh : bereftWidened.UnseenIn bereft := by decide +kernel
  obtain ⟨exactly, ends⟩ := grounded_setBranches_iff (by decide +kernel) done fresh
  refine ⟨fun after => ?_, fun edge known missing => ?_⟩
  · rcases exactly.mp after with few | present
    · exact absurd few (by decide +kernel)
    · exact absurd (present "gone" (by decide +kernel)) (by decide +kernel)
  · have loose := (ends edge known).2.resolve_left missing
    exact ⟨loose.1, loose.2.1⟩

/-- Each edge joins two nodes and a search finds the join, but the new branch leads to no node. -/
theorem not_grounded_setBranches_bereft : bereft.ids.Nodup ∧ bereft.Grounded ∧
    bereft.searchMerge? {} "fork" = some "join" ∧
    (setBranches "fork" ["A", "B"]).run bereft {} .numbered =
      .ok (bereftWidened, Supply.numbered.skip 1) ∧
    bereftWidened.UnseenIn bereft ∧
    .connect "000000000001" "gone" none ∈ bereftWidened.flow.edges ∧
    "gone" ∉ bereftWidened.flow.ids :=
  ⟨by decide, by decide +kernel, by decide +kernel, rfl, by decide +kernel, by decide +kernel,
    by decide +kernel⟩

end Edit

end Workflow
