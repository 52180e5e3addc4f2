import Workflow.Proofs.Editing.Outcome
import Workflow.Proofs.Editing.Replacement
import Workflow.Proofs.Walk.Likeness

/-!
# Swaps that no search sees

A swap gives a step another kind and other content, but leaves it in its roles, and its edges where
they are. A head that is swapped goes on to name the merge to which it resolved, whether it named
that before or the search found it. So whatever is asked about blocks is answered as before, within
the limits under which the swap was made, also where the search runs out of steps.

## Main results

* `resembles_replaceNode` — a flow in which a node gave way to one in the same roles looks alike
* `rememberedMerge?_swapped` — the merges that heads name after a swap
* `Edit.answersLike_swap` — a swap changes no answer
-/

namespace Workflow

namespace Flow

variable {flow : Flow} {limits : Limits} {id merge : NodeId} {node old : Node} {kind : String}
  {label : Option String} {params : Option Json.Members}

/-- A flow in which a node gave way to one in the same roles looks alike. -/
theorem resembles_replaceNode (found : flow.node? node.id = some old)
    (sameHead : node.isHead = old.isHead) (sameMerge : node.isMerge = old.isMerge) :
    flow.Resembles (flow.replaceNode node).flow where
  edges := rfl
  ids := (ids_settle _ _).trans (ids_withNode _ _)
  heads id := (isHead_settle _ _ id).trans (isHead_withNode found sameHead id)
  merges id := (isMerge_settle _ _ id).trans (isMerge_withNode found sameMerge id)

/-- Where the merges that are named are there, so is each merge to which a head resolves. -/
theorem NamesPresent.mem_ids_of_merge? (present : flow.NamesPresent)
    (resolved : flow.merge? limits id = some merge) : merge ∈ flow.ids := by
  cases own : flow.rememberedMerge? id with
  | none =>
    rw [merge?_of_not_remembered own] at resolved
    exact mem_ids_of_isMerge (isMerge_of_searchMerge? resolved)
  | some remembered =>
    rw [merge?_of_remembered own, Option.some.injEq] at resolved
    obtain ⟨node, found, names⟩ := Option.bind_eq_some_iff.mp own
    exact resolved ▸ present node (mem_of_node?_eq_some found) remembered
      (Option.filter_eq_some_iff.mp names).1

/-- The node after a swap. -/
def swapped (flow : Flow) (limits : Limits) (node : Node) (kind : String) (label : Option String)
    (params : Option Json.Members) : Node :=
  { node with
    kind := some kind
    content := flow.pinMerge limits node (node.content.refill label params) }

/-- After a swap the merges that nodes name are there, if they were before, so nothing is mended. -/
theorem replaceNode_swapped (present : flow.NamesPresent) (found : flow.node? node.id = some node) :
    (flow.replaceNode (flow.swapped limits node kind label params)).flow =
      flow.withNode (flow.swapped limits node kind label params) := by
  refine NamesPresent.settle_eq_self fun other member merge names => ?_
  rw [ids_withNode]
  rcases mem_nodes_withNode member with rfl | before
  · rcases names_pinMerge names with ⟨-, resolved⟩ | kept
    · exact present.mem_ids_of_merge? resolved
    · exact present node (mem_of_node?_eq_some found) merge kept
  · exact present other before merge names

/-- The merge that a swapped node names is the one that it named, or the one to which it resolved. -/
theorem rememberedMerge?_pinMerge (found : flow.node? node.id = some node) :
    (flow.pinMerge limits node (node.content.refill label params)).rememberedMerge? =
        flow.rememberedMerge? node.id ∨
      (flow.pinMerge limits node (node.content.refill label params)).rememberedMerge? =
        flow.merge? limits node.id := by
  have kept : (node.content.refill label params).rememberedMerge? =
      flow.rememberedMerge? node.id := by
    rw [rememberedMerge?, found]
    rfl
  rw [pinMerge]
  split
  · split
    · rename_i merge resolved
      rw [resolved]
      by_cases nameless : merge = ""
      · -- An empty name counts as none, and only the search can have come to it.
        left
        subst nameless
        cases own : flow.rememberedMerge? node.id with
        | none => rfl
        | some remembered =>
          obtain rfl := Option.some.inj ((merge?_of_remembered own).symm.trans resolved)
          obtain ⟨_, -, names⟩ := Option.bind_eq_some_iff.mp own
          simpa using (Option.filter_eq_some_iff.mp names).2
      · right
        simp [Content.rememberedMerge?, Content.withMerge, nameless]
    · exact .inl kept
  · exact .inl kept

/-- After a swap each node names the merge that it named, or the one to which it resolved. -/
theorem rememberedMerge?_swapped (present : flow.NamesPresent)
    (found : flow.node? node.id = some node) (id : NodeId) :
    (flow.replaceNode (flow.swapped limits node kind label params)).flow.rememberedMerge? id =
        flow.rememberedMerge? id ∨
      (flow.replaceNode (flow.swapped limits node kind label params)).flow.rememberedMerge? id =
        flow.merge? limits id := by
  have there : flow.node? (flow.swapped limits node kind label params).id = some node := found
  rw [replaceNode_swapped present found, rememberedMerge?, node?_withNode there]
  split
  · rename_i here
    obtain rfl : id = node.id := here
    exact rememberedMerge?_pinMerge found
  · exact .inl rfl

end Flow

namespace Edit

variable {flow : Flow} {limits caps : Limits} {supply rest : Supply} {change : Change}
  {id : NodeId} {kind : String} {label : Option String} {params : Option Json.Members}

/-- In a flow in which each merge that is named is there, a swap that is made keeps the edges and
the identities in order. What is asked about blocks is answered as before, with any limit on the
collection of bodies, as long as a search may take as many steps as when the swap was made. -/
theorem answersLike_swap (present : flow.NamesPresent)
    (done : (swap id kind label params).run flow limits supply = .ok (change, rest))
    (same : caps.maxIterations = limits.maxIterations) :
    change.flow.edges = flow.edges ∧ change.flow.ids = flow.ids ∧
      flow.AnswersLike change.flow caps := by
  obtain ⟨node, found, alike, rfl⟩ := swap_cases done
  obtain rfl := Flow.id_of_node?_eq_some found
  have resembles : flow.Resembles
      (flow.replaceNode (flow.swapped limits node kind label params)).flow :=
    Flow.resembles_replaceNode found alike.symm (Flow.isMerge_refill node kind label params)
  -- The limit on the collection of bodies has no part in the search for a merge.
  have resolves : ∀ id, flow.merge? limits id = flow.merge? caps id := fun id => by
    rw [Flow.merge?, Flow.merge?, Flow.searchMerge?, Flow.searchMerge?, Limits.searchSteps,
      Limits.searchSteps, same]
  refine ⟨resembles.edges, resembles.ids, resembles.answersLike fun id => ?_⟩
  rw [← resolves]
  exact Flow.rememberedMerge?_swapped present found id

/-- The parallel step of the sample, which names no merge, becomes a loop that does. Bodies that are
cut off after one step are cut off at the same nodes. -/
theorem answersLike_swap_sample : ∃ change,
    (swap "outer" "loop" (some "Each") none).run Flow.sample {} .numbered =
      .ok (change, .numbered) ∧
    Flow.sample.rememberedMerge? "outer" = none ∧
    change.flow.rememberedMerge? "outer" = some "join" ∧
    change.flow.edges = Flow.sample.edges ∧ change.flow.ids = Flow.sample.ids ∧
    Flow.sample.AnswersLike change.flow { scanLimit := 1 } := by
  have present : Flow.sample.NamesPresent := by decide +kernel
  obtain ⟨change, done⟩ : ∃ change, (swap "outer" "loop" (some "Each") none).run Flow.sample {}
      .numbered = .ok (change, .numbered) := ⟨_, rfl⟩
  have pinned : change.flow.rememberedMerge? "outer" = some "join" := by
    cases done
    decide +kernel
  exact ⟨change, done, by decide +kernel, pinned, answersLike_swap present done rfl⟩

end Edit

end Workflow
