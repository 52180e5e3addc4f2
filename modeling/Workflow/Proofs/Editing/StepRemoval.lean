import Workflow.Proofs.Editing.Session

/-!
# Deleting a step

In a well-nested flow a node that opens no block is deleted, or the deletion is refused. The
search from each head finds what it found before, with two exceptions: a merge of the kind that
starts a flow is reset, and a merge that is no slot, and to which one edge leads, becomes a plain
slot. It is then no merge any more, and its block is open.

## Main definitions

* `Flow.DropsMerge` — a deletion takes the role of a merge from a node

## Main results

* `Session.searchMerge?_delete_iff` — exactly when no role is taken, each search finds what it
  found before
-/

namespace Workflow

namespace Flow

/-- Deleting a node takes the role of a merge from it. It is of the kind that starts a flow, or
one edge at most leads to it, it is no slot, and only a slot's mark makes it a merge. -/
def DropsMerge (flow : Flow) (node : Node) : Prop :=
  node.isMerge = true ∧ (node.kind = some Kind.trigger ∨
    (flow.edgesTo node.id).length ≤ 1 ∧ node.content.isPlaceholder = false ∧
      node.content.isMergeNode = false)

instance (flow : Flow) (node : Node) : Decidable (flow.DropsMerge node) :=
  inferInstanceAs (Decidable (_ ∧ _))

variable {flow after : Flow} {line other rest : Line} {context : Line.Context} {out : Option String}
  {node : Node} {head id slot : NodeId} {limits : Limits} {change : Change}

/-- In two well-nested flows the search from a head finds the same merge, if the second has the
blocks of the first. -/
theorem Nests.searchMerge?_congr (nests : flow.Nests line) (covers : limits.Covers flow)
    (nestsToo : after.Nests other) (coversToo : limits.Covers after)
    (blocks : line.blocks ⊆ other.blocks) (opens : flow.isHead head = true) :
    after.searchMerge? limits head = flow.searchMerge? limits head := by
  obtain ⟨context, lanes, merge, out, rest, rfl⟩ := nests.exists_block_of_isHead opens
  have here : (⟨head, merge, lanes.length⟩ : Block) ∈
      (context.plug (.cons (.block head lanes merge) out rest)).blocks :=
    (context.blocks_plug _).mem_iff.mpr (by simp)
  obtain ⟨around, arms, name, behind, rfl⟩ := Line.exists_context_of_mem_blocks (blocks here)
  rw [nests.searchMerge?_eq covers, nestsToo.searchMerge?_eq coversToo]

/-- The search finds what it found before when a node is replaced by one in the same role. -/
theorem Nests.searchMerge?_replaceNode {old : Node} (nests : flow.Nests line)
    (covers : limits.Covers flow) (found : flow.node? node.id = some old)
    (sameHead : node.isHead = old.isHead) (sameMerge : node.isMerge = old.isMerge)
    (opens : flow.isHead head = true) :
    (flow.replaceNode node).flow.searchMerge? limits head = flow.searchMerge? limits head :=
  nests.searchMerge?_congr covers (nests.replaceNode found sameHead sameMerge)
    covers.replaceNode (List.Subset.refl _) opens

/-- The search finds what it found before when a step is taken out. -/
theorem Nests.searchMerge?_excise (nests : flow.Nests (context.plug (.cons (.step id) out rest)))
    (covers : limits.Covers flow) (h : flow.Excises context (.step id) rest slot change)
    (fresh : change.FreshFor flow) (opens : flow.isHead head = true) :
    change.flow.searchMerge? limits head = flow.searchMerge? limits head := by
  have unused : ∀ id ∈ change.added, id ∉ flow.ids := fun id new old =>
    fresh.unused id new (.inl old)
  refine nests.searchMerge?_congr covers (h.nests nests unused) (h.covers nests unused covers) ?_
    opens
  -- A step is no block, so all blocks stay.
  intro block member
  refine (context.blocks_plug _).mem_iff.mpr ?_
  rcases List.mem_append.mp ((context.blocks_plug _).mem_iff.mp member) with around | inside
  · exact List.mem_append_left _ around
  · apply List.mem_append_right _
    rw [Line.blocks_cons, Item.blocks_step, List.nil_append] at inside
    rw [Line.Context.remnant]
    split
    · rename_i empties
      obtain ⟨-, rfl⟩ := Line.Context.empties_iff.mp empties
      cases inside
    · exact inside

end Flow

namespace Edit

variable {flow : Flow} {line : Line} {limits : Limits} {supply left : Supply} {change : Change}
  {node : Node} {head id : NodeId}

/-- Deleting a node that opens no block changes no search, unless it takes the role of a merge
from the node. -/
theorem searchMerge?_delete (nests : flow.Nests line) (covers : limits.Covers flow)
    (named : flow.NamesOwn line) (found : flow.node? id = some node) (closed : node.isHead = false)
    (keeps : ¬ flow.DropsMerge node)
    (done : (delete id).run flow limits supply = .ok (change, left)) (fresh : change.FreshFor flow)
    (opens : flow.isHead head = true) :
    change.flow.searchMerge? limits head = flow.searchMerge? limits head := by
  obtain ⟨same, foundToo, outcome⟩ := delete_cases done
  obtain rfl : same = node := Option.some.inj (foundToo.symm.trans found)
  obtain rfl := Flow.id_of_node?_eq_some found
  rcases outcome with ⟨starts, rfl⟩ | ⟨-, head', -⟩ | ⟨later, -, deletes⟩
  · -- A node of the kind that starts a flow is no merge, and stays none.
    have plain : same.isMerge = false := by
      rw [Bool.eq_false_iff]
      exact fun joins => keeps ⟨joins, .inl starts⟩
    exact nests.searchMerge?_replaceNode covers found rfl plain.symm opens
  · exact absurd (closed.symm.trans head') Bool.false_ne_true
  rcases nests.place_cases (Flow.mem_ids_of_node? found) with
    ⟨context, out, rest, rfl, plays⟩ | ⟨_, _, _, _, _, -, plays⟩ | ⟨context, top, lanes, out, rest, rfl, plays⟩
  · have plain : same.isMerge = false := (Flow.isMerge_of_node? found).symm.trans plays.2
    cases deletes with
    | join joins _ =>
      -- A plain step is no join.
      have few : (flow.edgesTo same.id).length ≤ 1 := nests.length_edgesTo_first_le
      omega
    | slot _ _ =>
      have unmarked : same.content.isMergeNode = false := (Bool.or_eq_false_iff.mp plain).2
      refine nests.searchMerge?_replaceNode covers found closed.symm ?_ opens
      rw [plain]
      exact unmarked
    | gone _ =>
      have same' : ∀ other, other ∈ [same.id] ↔ other ∈ (Item.step same.id).ids := fun _ => Iff.rfl
      have excises := nests.leavesGap_step.excises nests same' [same.id] supply
      exact nests.searchMerge?_excise covers excises fresh opens
  · exact absurd ((Flow.isHead_of_node? found).symm.trans plays.1) (by simp [closed, Role.isHead])
  · have joins : same.isMerge = true := (Flow.isMerge_of_node? found).symm.trans plays.2
    cases deletes with
    | join _ _ => exact nests.searchMerge?_replaceNode covers found closed.symm joins.symm opens
    | slot lone filled =>
      -- The node keeps a mark that makes it a merge.
      have marked : same.content.isMergeNode = true := by
        by_contra unmarked
        exact keeps ⟨joins, .inr ⟨lone, filled, by simpa using unmarked⟩⟩
      refine nests.searchMerge?_replaceNode covers found closed.symm ?_ opens
      rw [joins]
      exact marked
    | gone closes =>
      -- The merge closes the block of a head, so its deletion was refused.
      have closing := nests.closingHead?_eq covers named
      rw [closes joins] at closing
      cases closing

end Edit

namespace Session

variable {session : Session} {line : Line} {node : Node} {id : NodeId}

/-- Deleting a step to which one edge at most leads, and from which one at most, gives its slot
back. -/
theorem perform_delete_lone (found : session.flow.node? node.id = some node)
    (later : node.kind ≠ some Kind.trigger) (closed : node.isHead = false)
    (lone : (session.flow.edgesTo node.id).length ≤ 1)
    (few : (session.flow.edgesFrom node.id).length ≤ 1)
    (filled : node.content.isPlaceholder = false) :
    session.perform (.delete node.id) =
      (.ok (session.flow.replaceNode
          { node with kind := some Kind.custom, content := node.content.emptied }),
        { session with
          flow := (session.flow.replaceNode
            { node with kind := some Kind.custom, content := node.content.emptied }).flow }) := by
  refine perform_of_ok (Edit.run_eq_ok_iff.mpr ⟨pure _, ?_, rfl⟩)
  have single : ¬ (1 < (session.flow.edgesTo node.id).length ∧
      (!node.content.isPlaceholder) = true) := fun joins => by omega
  have straight : (session.flow.edgesTo node.id).length ≤ 1 ∧
      (session.flow.edgesFrom node.id).length ≤ 1 ∧ (!node.content.isPlaceholder) = true :=
    ⟨lone, few, by rw [filled]; rfl⟩
  rw [Edit.plan, Flow.delete, found]
  simp only [if_neg later, closed, Bool.false_eq_true, if_false]
  rw [Flow.deleteStep]
  simp only [if_neg single, if_pos straight]
  rfl

/-- A deletion that takes the role of a merge from a node puts one in its place that is none. -/
theorem perform_delete_dropping (nests : session.flow.Nests line)
    (found : session.flow.node? node.id = some node) (closed : node.isHead = false)
    (drops : session.flow.DropsMerge node) : ∃ reset, reset.id = node.id ∧ reset.isMerge = false ∧
      (session.perform (.delete node.id)).2.flow = (session.flow.replaceNode reset).flow := by
  obtain ⟨joins, starts | ⟨lone, filled, unmarked⟩⟩ := drops
  · exact ⟨{ node with content := .triggerPlaceholder }, rfl, rfl,
      by rw [perform_delete_trigger found starts]⟩
  · by_cases starts : node.kind = some Kind.trigger
    · exact ⟨{ node with content := .triggerPlaceholder }, rfl, rfl,
        by rw [perform_delete_trigger found starts]⟩
    · refine ⟨{ node with kind := some Kind.custom, content := node.content.emptied }, rfl,
        unmarked, ?_⟩
      have few : (session.flow.edgesFrom node.id).length ≤ 1 := by
        obtain ⟨context, head, lanes, out, rest, rfl⟩ :=
          nests.exists_block_of_isMerge ((Flow.isMerge_of_node? found).trans joins)
        exact nests.length_edgesFrom_last_le
      rw [perform_delete_lone found starts closed lone few filled]

/-- In a well-nested flow the deletion of a node that opens no block, made or refused, leaves
what the search from each head finds as it was, if and only if it does not take the role of a
merge from the node. -/
theorem searchMerge?_delete_iff (nests : session.flow.Nests line)
    (covers : session.limits.Covers session.flow) (named : session.flow.NamesOwn line)
    (found : session.flow.node? id = some node) (closed : node.isHead = false)
    (fresh : session.flow.DrawsFresh (session.perform (.delete id)).1) :
    (∀ head, session.flow.isHead head = true →
      (session.perform (.delete id)).2.flow.searchMerge? session.limits head =
        session.flow.searchMerge? session.limits head) ↔
    ¬ session.flow.DropsMerge node := by
  constructor
  · intro same drops
    obtain rfl := Flow.id_of_node?_eq_some found
    obtain ⟨reset, sameId, plain, after⟩ := perform_delete_dropping nests found closed drops
    obtain ⟨context, head, lanes, out, rest, rfl⟩ :=
      nests.exists_block_of_isMerge ((Flow.isMerge_of_node? found).trans drops.1)
    -- The merge was found from the head of its block, and is no merge any more.
    have finds := same head nests.plays_ends.1.1
    rw [nests.searchMerge?_eq covers, after] at finds
    have old : session.flow.node? reset.id = some node := by rw [sameId, found]
    have joins := Flow.isMerge_of_searchMerge? finds
    rw [Flow.replaceNode, Flow.isMerge_settle, Flow.isMerge, Flow.node?_withNode old,
      if_pos sameId.symm] at joins
    exact absurd (plain.symm.trans joins) Bool.false_ne_true
  · intro keeps head opens
    cases done : (Edit.delete id).run session.flow session.limits session.supply with
    | error refusal => rw [perform_of_error done]
    | ok made =>
      obtain ⟨change, left⟩ := made
      rw [perform_of_ok done] at fresh ⊢
      exact Edit.searchMerge?_delete nests covers named found closed keeps done fresh opens

/-- In the sample, the slot on a branch of the condition is deleted, which changes no search. -/
theorem searchMerge?_delete_nested :
    (∃ change, (nested.perform (.delete "slot")).1 = .ok change ∧ change.removed = ["slot"]) ∧
    nested.flow.DrawsFresh (nested.perform (.delete "slot")).1 ∧
    ∀ head, nested.flow.isHead head = true →
      (nested.perform (.delete "slot")).2.flow.searchMerge? nested.limits head =
        nested.flow.searchMerge? nested.limits head := by
  have nests : nested.flow.Nests Flow.sampleLine := by decide +kernel
  have covers : nested.limits.Covers nested.flow := by decide +kernel
  have named : nested.flow.NamesOwn Flow.sampleLine := by decide +kernel
  have found : nested.flow.node? "slot" = some (.branchPlaceholder "slot" "True Path") := by
    decide +kernel
  have fresh : nested.flow.DrawsFresh (nested.perform (.delete "slot")).1 := by decide +kernel
  have keeps : ¬ nested.flow.DropsMerge (.branchPlaceholder "slot" "True Path") := by
    decide +kernel
  exact ⟨⟨_, rfl, rfl⟩, fresh,
    (searchMerge?_delete_iff nests covers named found rfl fresh).mpr keeps⟩

/-- A condition with one branch, whose merge was filled with an action. -/
def lapsing : Session where
  flow := {
    nodes := [{ id := "head", kind := some "condition" },
      { id := "merge", kind := some "action", content := { isMergePlaceholder := true } },
      { id := "end", kind := some "end" }]
    edges := [.connect "head" "merge" (some "true"), .connect "merge" "end" none] }
  supply := .numbered

/-- Deleting the filled merge of a block with one branch opens the block. -/
theorem not_searchMerge?_delete_lapsing :
    lapsing.flow.Nests (.cons (.block "head" [(some "true", .done)] "merge") none
      (.cons (.step "end") none .done)) ∧
    (∀ node ∈ lapsing.flow.nodes, node.content.mergeNodeId = none) ∧
    lapsing.limits.Covers lapsing.flow ∧ lapsing.flow.isHead "merge" = false ∧
    lapsing.flow.DrawsFresh (lapsing.perform (.delete "merge")).1 ∧
    lapsing.flow.isHead "head" = true ∧
    lapsing.flow.searchMerge? lapsing.limits "head" = some "merge" ∧
    (lapsing.perform (.delete "merge")).2.flow.searchMerge? lapsing.limits "head" = none :=
  ⟨by decide +kernel, by decide +kernel, by decide +kernel, by decide +kernel, by decide +kernel,
    by decide +kernel, by decide +kernel, by decide +kernel⟩

end Session

end Workflow
