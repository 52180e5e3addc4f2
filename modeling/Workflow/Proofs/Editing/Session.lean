import Workflow.Proofs.Editing.Order

/-!
# Sessions keep the order of a flow

In a session that starts at a well-nested flow, each flow that edits lead to is well-nested,
and each merge that a head names is the one that the search finds. There is one exception: a
merge of the kind that starts a flow is reset when it is deleted, and its block is open then.

## Main definitions

* `Session.Admits` — edits that may be performed one after another
* `Flow.Sound` — well-nested, and named merges are those that are found

## Main results

* `Session.keeps_order` — the order is kept over a whole session
* `Session.sound_iff_untriggered` — all flows are sound if and only if no merge is of the kind
  that starts a flow
-/

namespace Workflow

namespace Flow

/-- Each merge is a slot that waits for a step. -/
def Waiting (flow : Flow) : Prop :=
  ∀ node ∈ flow.nodes, node.isMerge = true →
    node.content.isPlaceholder = true ∧ node.content.isMergePlaceholder = true

instance (flow : Flow) : Decidable flow.Waiting := inferInstanceAs (Decidable (∀ _ ∈ _, _))

/-- A flow is well-nested, and a merge that a head names is the one that the search finds. -/
def Sound (flow : Flow) (limits : Limits) : Prop :=
  flow.WellNested ∧ ∀ node ∈ flow.nodes, node.isHead = true →
    ∀ merge, node.content.mergeNodeId = some merge →
      flow.searchMerge? limits node.id = some merge

variable {flow : Flow} {line : Line} {limits : Limits} {node : Node}

theorem Ordered.sound (ordered : flow.Ordered) (covers : limits.Covers flow) :
    flow.Sound limits := by
  obtain ⟨line, nests, named⟩ := ordered
  refine ⟨⟨line, nests⟩, fun node member _ merge names => ?_⟩
  obtain ⟨block, inside, head, rfl⟩ := named node member merge names
  obtain ⟨context, lanes, out, rest, rfl⟩ := Line.exists_context_of_mem_blocks inside
  rw [← head]
  exact nests.searchMerge?_eq covers

end Flow

/-- The identities that an edit drew, if it was made, are fresh. -/
def Flow.DrawsFresh (flow : Flow) : Except Refusal Change → Prop
  | .ok change => change.FreshFor flow
  | .error _ => True

instance (flow : Flow) : (outcome : Except Refusal Change) → Decidable (flow.DrawsFresh outcome)
  | .ok change => inferInstanceAs (Decidable (change.FreshFor flow))
  | .error _ => isTrue trivial

instance (flow : Flow) : (edit : Edit) → Decidable (edit.Suits flow)
  | .insert .. | .delete _ => isTrue trivial
  | .swap id .. => inferInstanceAs (Decidable (flow.isMerge id = false))
  | .fill id .. => inferInstanceAs (Decidable (flow.isMerge id = false ∧ flow.isHead id = false))
  | .setBranches .. => isFalse fun suits => suits

namespace Session

/-- Edits that may be performed one after another: the searches may take enough steps in each
flow on the way, no edit swaps a merge or fills a head or a merge, and the identities that an
edit draws are fresh. -/
def Admits (session : Session) : List Edit → Prop
  | [] => session.limits.Covers session.flow
  | edit :: rest =>
    session.limits.Covers session.flow ∧ edit.Suits session.flow ∧
      session.flow.DrawsFresh (session.perform edit).1 ∧ (session.perform edit).2.Admits rest

instance decidableAdmits : (session : Session) → (edits : List Edit) → Decidable (session.Admits edits)
  | session, [] => inferInstanceAs (Decidable (session.limits.Covers session.flow))
  | session, edit :: rest =>
    have : Decidable ((session.perform edit).2.Admits rest) :=
      decidableAdmits (session.perform edit).2 rest
    inferInstanceAs (Decidable (session.limits.Covers session.flow ∧ edit.Suits session.flow ∧
      session.flow.DrawsFresh (session.perform edit).1 ∧ (session.perform edit).2.Admits rest))

variable {session : Session} {edit : Edit} {edits : List Edit}

theorem limits_perform (session : Session) (edit : Edit) :
    (session.perform edit).2.limits = session.limits := by
  rw [perform]
  split <;> rfl

/-- One edit keeps the order, made or refused. -/
theorem keeps_order_perform (ordered : session.flow.Ordered) (firm : session.flow.Firm)
    (covers : session.limits.Covers session.flow) (suits : edit.Suits session.flow)
    (fresh : session.flow.DrawsFresh (session.perform edit).1) :
    (session.perform edit).2.flow.Ordered ∧ (session.perform edit).2.flow.Firm := by
  cases done : edit.run session.flow session.limits session.supply with
  | error refusal =>
    rw [perform_of_error done]
    exact ⟨ordered, firm⟩
  | ok made =>
    obtain ⟨change, supply⟩ := made
    rw [perform_of_ok done] at fresh ⊢
    exact Edit.keeps_order ordered firm covers suits done fresh

/-- Edits one after another keep the order, and the searches may take enough steps at the end. -/
theorem keeps_order (ordered : session.flow.Ordered) (firm : session.flow.Firm)
    (admits : session.Admits edits) :
    (session.performAll edits).2.flow.Ordered ∧ (session.performAll edits).2.flow.Firm ∧
      session.limits.Covers (session.performAll edits).2.flow := by
  induction edits generalizing session with
  | nil => exact ⟨ordered, firm, admits⟩
  | cons edit rest ih =>
    -- The order and the waiting merges are what carries over from one edit to the next.
    obtain ⟨covers, suits, fresh, admits⟩ := admits
    obtain ⟨orderedNext, firmNext⟩ := keeps_order_perform ordered firm covers suits fresh
    have last := ih orderedNext firmNext admits
    rw [limits_perform] at last
    exact last

end Session

/-! ### A merge that is reset -/

/-- On each sequence there are as many heads as merges. -/
theorem Line.balanced (line : Line) (depth : Int) :
    (line.spots depth).countP (·.role.isHead) = (line.spots depth).countP (·.role.isMerge) := by
  induction line generalizing depth with
  | done => rfl
  | cons item out rest lanes ih =>
    have inside : (item.spots depth).countP (·.role.isHead) =
        (item.spots depth).countP (·.role.isMerge) := by
      cases item with
      | step id => rfl
      | block head arms merge =>
        -- The ends of a block add one of each to what is on its branches.
        have onLanes : (laneSpots (depth + 1) arms).countP (·.role.isHead) =
            (laneSpots (depth + 1) arms).countP (·.role.isMerge) := by
          rw [laneSpots_eq, List.countP_flatMap, List.countP_flatMap]
          exact congrArg List.sum
            (List.map_congr_left fun lane member => lanes lane member (depth + 1))
        simpa [Item.spots, List.countP_append, Role.isHead, Role.isMerge] using onLanes
    rw [spots, List.countP_append, List.countP_append, inside, ih]

namespace Flow

variable {flow : Flow} {line : Line} {limits : Limits} {node : Node} {session : Session}

/-- In a well-nested flow there are as many heads as merges. -/
theorem WellNested.balanced (nested : flow.WellNested) :
    flow.ids.countP flow.isHead = flow.ids.countP flow.isMerge := by
  obtain ⟨line, nests⟩ := nested
  -- Nodes play the roles at their spots, so heads and merges are counted on the sequence.
  have heads : line.ids.countP flow.isHead = (line.spots 0).countP (·.role.isHead) := by
    rw [Line.ids, List.countP_map]
    exact List.countP_congr fun spot member => by
      rw [Function.comp_apply, (nests.plays spot member).1]
  have merges : line.ids.countP flow.isMerge = (line.spots 0).countP (·.role.isMerge) := by
    rw [Line.ids, List.countP_map]
    exact List.countP_congr fun spot member => by
      rw [Function.comp_apply, (nests.plays spot member).2]
  rw [nests.ids.countP_eq, nests.ids.countP_eq, heads, merges, line.balanced]

/-- A well-nested flow is no longer well-nested when a merge in it is replaced by none. -/
theorem WellNested.not_replaceNode {reset : Node} (nested : flow.WellNested)
    (found : flow.node? reset.id = some node) (joins : node.isMerge = true)
    (sameHead : reset.isHead = node.isHead) (plain : reset.isMerge = false) :
    ¬ (flow.replaceNode reset).flow.WellNested := by
  intro after
  have heads : ∀ id, (flow.replaceNode reset).flow.isHead id = flow.isHead id := by
    intro id
    rw [replaceNode, isHead_settle]
    exact isHead_withNode found sameHead id
  have merges : ∀ id, (flow.replaceNode reset).flow.isMerge id =
      if id = reset.id then false else flow.isMerge id := by
    intro id
    rw [replaceNode, isMerge_settle, isMerge, node?_withNode found]
    split
    · exact plain
    · rfl
  have same := after.balanced
  rw [replaceNode, ids_settle, ids_withNode, ← replaceNode, funext heads, nested.balanced,
    funext merges] at same
  -- Of the merges of the flow, the reset one is missing.
  have member : reset.id ∈ flow.ids := mem_ids_of_node? found
  have split := List.perm_cons_erase member
  have isMerge : flow.isMerge reset.id = true := (isMerge_of_node? found).trans joins
  have fewer : (flow.ids.erase reset.id).countP
      (fun id => if id = reset.id then false else flow.isMerge id) ≤
        (flow.ids.erase reset.id).countP flow.isMerge := by
    apply List.countP_mono_left
    intro id _ still
    split at still
    · cases still
    · exact still
  rw [split.countP_eq, split.countP_eq, List.countP_cons, List.countP_cons, isMerge, if_pos rfl,
    if_pos rfl, if_neg Bool.false_ne_true] at same
  omega

end Flow

theorem Limits.Covers.replaceNode {limits : Limits} {flow : Flow} {node : Node}
    (covers : limits.Covers flow) : limits.Covers (flow.replaceNode node).flow := by
  obtain ⟨search, scan⟩ := covers
  refine ⟨?_, ?_⟩
  · simpa [Flow.replaceNode, Flow.settle, Flow.withNode] using search
  · simpa [Flow.replaceNode, Flow.settle, Flow.withNode] using scan

namespace Session

variable {session : Session} {node : Node}

/-- Deleting a merge of the kind that starts a flow resets it. -/
theorem perform_delete_trigger (found : session.flow.node? node.id = some node)
    (starts : node.kind = some Kind.trigger) :
    session.perform (.delete node.id) =
      (.ok (session.flow.replaceNode { node with content := .triggerPlaceholder }),
        { session with
          flow := (session.flow.replaceNode { node with content := .triggerPlaceholder }).flow }) := by
  refine perform_of_ok (Edit.run_eq_ok_iff.mpr ⟨pure _, ?_, rfl⟩)
  rw [Edit.plan, Flow.delete, found]
  simp only [if_pos starts]
  rfl

/-- In a session that starts at a well-nested flow whose merges wait, all flows that edits lead
to are sound if and only if no merge is of the kind that starts a flow. -/
theorem sound_iff_untriggered (covers : session.limits.Covers session.flow)
    (ordered : session.flow.Ordered) (waiting : session.flow.Waiting) :
    (∀ edits, session.Admits edits →
      (session.performAll edits).2.flow.Sound session.limits) ↔
    ∀ node ∈ session.flow.nodes, node.isMerge = true → node.kind ≠ some Kind.trigger := by
  constructor
  · intro sound node member joins starts
    obtain ⟨line, nests, -⟩ := ordered
    -- Deleting such a merge is admitted, and leaves more heads than merges.
    have found := Flow.node?_eq_some_of_mem nests.distinct member
    have performed := perform_delete_trigger found starts
    have admits : session.Admits [.delete node.id] := by
      refine ⟨covers, trivial, ?_, ?_⟩
      · rw [performed]
        exact ⟨List.nodup_nil, fun id inside => by cases inside⟩
      · rw [performed]
        exact covers.replaceNode
    have nested := (sound [.delete node.id] admits).1
    rw [performAll, performed] at nested
    exact @Flow.WellNested.not_replaceNode session.flow node
      { node with content := .triggerPlaceholder } ⟨line, nests⟩ found joins rfl rfl nested
  · intro untriggered edits admits
    have firm : session.flow.Firm := fun node member joins =>
      ⟨(waiting node member joins).1, (waiting node member joins).2, untriggered node member joins⟩
    obtain ⟨last, -, enough⟩ := keeps_order ordered firm admits
    exact last.sound enough

/-- The sample of nested blocks, and identities that it does not have. -/
def nested : Session := { flow := .sample, supply := .numbered }

/-- All edits of the sample lead to sound flows, and there are such edits. -/
theorem sound_iff_untriggered_nested :
    (∀ edits, nested.Admits edits → (nested.performAll edits).2.flow.Sound nested.limits) ∧
    nested.Admits [.insert "start" "outer" "loop" none none, .delete "inner", .delete "close",
      .swap "outer" "condition" none none] := by
  have covers : nested.limits.Covers nested.flow := by decide +kernel
  have waiting : nested.flow.Waiting := by decide +kernel
  have ordered : nested.flow.Ordered :=
    ⟨Flow.sampleLine, by decide +kernel, by decide +kernel⟩
  have untriggered : ∀ node ∈ nested.flow.nodes, node.isMerge = true →
      node.kind ≠ some Kind.trigger := by decide +kernel
  exact ⟨(sound_iff_untriggered covers ordered waiting).mpr untriggered, by decide +kernel⟩

/-- A condition whose merge is a slot of the kind that starts a flow. -/
def trap : Session where
  flow := {
    nodes := [{ id := "head", kind := some "condition", content := { mergeNodeId := some "merge" } },
      { id := "merge", kind := some Kind.trigger,
        content := { isPlaceholder := true, isMergePlaceholder := true } }]
    edges := [.connect "head" "merge" (some "true")] }
  supply := .numbered

/-- Deleting the merge of the trap opens its block. -/
theorem not_sound_trap : trap.flow.Ordered ∧ trap.flow.Waiting ∧ trap.Admits [.delete "merge"] ∧
    ¬ (trap.performAll [.delete "merge"]).2.flow.WellNested ∧
    ¬ (trap.performAll [.delete "merge"]).2.flow.Sound trap.limits := by
  have nests : trap.flow.Nests (.cons (.block "head" [(some "true", .done)] "merge") none .done) := by
    decide +kernel
  have unbalanced : ¬ (trap.performAll [.delete "merge"]).2.flow.WellNested := fun after =>
    absurd after.balanced (by decide +kernel)
  exact ⟨⟨_, nests, by decide +kernel⟩, by decide +kernel, by decide +kernel, unbalanced,
    fun sound => unbalanced sound.1⟩

end Session

end Workflow
