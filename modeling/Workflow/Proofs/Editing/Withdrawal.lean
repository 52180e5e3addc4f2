import Workflow.Proofs.Editing.BlockRemoval
import Workflow.Proofs.Editing.Seating
import Workflow.Proofs.Editing.Session
import Workflow.Proofs.Editing.Takeover

/-!
# A new block that is taken out again

A block is put in the place of an edge, and then it is deleted. Whatever the flow is like around it,
the deletion finds the merge that the new head names, which nothing outside the block depends on, and
takes out exactly what was put in. The one gap that is left is closed by an edge like the first one.
Only where a head led to a place at which branches come together, a slot stays between the two.

## Main definitions

* `Flow.KeepsSlot` — an edge leads from a head to where branches come together

## Main results

* `exists_removeBlock_splice` — the block is taken out, and the flow is left without the edge
* `Session.insert_delete` — a block is inserted and deleted
-/

namespace Workflow

namespace Flow

/-- An edge from a head to where branches come together: if a block was put in its place and is taken
out again, a slot stays there. -/
def KeepsSlot (flow : Flow) (source target : NodeId) : Prop :=
  flow.isHead source = true ∧ (flow.isMerge target = true ∨ 1 < (flow.edgesTo target).length)

instance (flow : Flow) (source target : NodeId) : Decidable (flow.KeepsSlot source target) :=
  inferInstanceAs (Decidable (_ ∧ _))

variable {flow : Flow} {edge : Edge} {source target id head merge : NodeId}
  {slots removed : List NodeId} {limits : Limits} {supply : Supply} {step : NewStep}

/-- Where the merges that are named are there, they are named as before once a step was put in the
place of an edge. -/
theorem splice_eq (present : flow.NamesPresent) (ladder : step.Ladder head merge slots) :
    (flow.splice edge step).flow = (flow.cut edge.source edge.target).append
      { nodes := step.nodes
        edges := .connect edge.source step.head.id edge.branch ::
          (step.edges ++ [.connect step.exit edge.target none]) } := by
  have old : (flow.cut edge.source edge.target).NamesPresent := present
  refine (old.append fun node member merge names => ?_).settle_eq_self
  obtain ⟨-, rfl⟩ := ladder.of_names member names
  exact List.mem_append_right _ (List.mem_map_of_mem ladder.merge_mem_nodes)

section Splice

variable (present : flow.NamesPresent) (ladder : step.Ladder head merge slots)
  (fresh : (flow.splice edge step).FreshFor flow)
include present ladder fresh

/-- The nodes of a new step are found where it was put in. -/
theorem node?_splice_new {node : Node} (member : node ∈ step.nodes) :
    (flow.splice edge step).flow.node? node.id = some node := by
  have new : node.id ∉ (flow.cut edge.source edge.target).ids := fun old =>
    fresh.unused node.id (List.mem_map_of_mem member) (.inl old)
  rw [splice_eq present ladder, node?_append_of_mem new]
  exact find?_eq_some_of_mem fresh.distinct member

/-- Other nodes are found as they were. -/
theorem node?_splice_old (old : flow.Mentions id) :
    (flow.splice edge step).flow.node? id = flow.node? id := by
  rw [splice_eq present ladder, node?_append_of_notMem fun inside => fresh.unused id inside old]
  rfl

/-- Without the new step and the edges at it, the flow is that without the old edge. -/
theorem without_splice (found : flow.edge? source target = some edge)
    (whole : ∀ id, id ∈ removed ↔ id ∈ step.nodes.map (·.id))
    (edges : ((flow.splice edge step).flow.without removed).edges =
      (flow.cut source target).edges) :
    (flow.splice edge step).flow.without removed = flow.cut source target := by
  obtain ⟨-, rfl, rfl⟩ := edge?_eq_some found
  have old : flow.nodes.filter (·.id ∉ removed) = flow.nodes := List.filter_eq_self.mpr
    fun node member => decide_eq_true fun gone =>
      fresh.unused node.id ((whole node.id).mp gone) (.inl (List.mem_map_of_mem member))
  have new : step.nodes.filter (·.id ∉ removed) = [] := List.filter_eq_nil_iff.mpr
    fun node member stays =>
      (of_decide_eq_true stays) ((whole node.id).mpr (List.mem_map_of_mem member))
  have nodes : ((flow.splice edge step).flow.without removed).nodes =
      (flow.cut edge.source edge.target).nodes := by
    rw [splice_eq present ladder]
    change (flow.nodes ++ step.nodes).filter _ = flow.nodes
    rw [List.filter_append, old, new, List.append_nil]
  exact (Flow.mk.injEq _ _ _ _ _ _).mpr ⟨rfl, nodes, edges⟩

/-- The nodes of the new step are told of as they were put in. -/
theorem idsIn_splice (whole : ∀ id, id ∈ removed ↔ id ∈ step.nodes.map (·.id)) :
    (flow.splice edge step).flow.idsIn removed = (flow.splice edge step).added := by
  have old : flow.ids.filter (· ∈ removed) = [] := List.filter_eq_nil_iff.mpr
    fun id known inside => fresh.unused id ((whole id).mp (of_decide_eq_true inside)) (.inl known)
  have new : (step.nodes.map (·.id)).filter (· ∈ removed) = step.nodes.map (·.id) :=
    List.filter_eq_self.mpr fun id inside => decide_eq_true ((whole id).mpr inside)
  rw [idsIn, splice_eq present ladder, ids_append, List.filter_append, new]
  change flow.ids.filter (· ∈ removed) ++ _ = _
  rw [old]
  rfl

end Splice

/-- What occurs in a flow still occurs there once a step was put in the place of an edge. -/
theorem mentions_splice (found : flow.edge? source target = some edge) (old : flow.Mentions id) :
    (flow.splice edge step).flow.Mentions id := by
  obtain ⟨-, rfl, rfl⟩ := edge?_eq_some found
  rcases old with known | ⟨other, member, ends⟩
  · refine .inl ?_
    rw [splice, ids_settle, ids_append]
    exact List.mem_append_left _ known
  · rcases List.mem_cons.mp ((edges_cut found).mem_iff.mp member) with rfl | stays
    · -- The two edges that take the place of the edge have its ends.
      rcases ends with rfl | rfl
      · exact .inr ⟨.connect other.source step.head.id other.branch, by simp [splice], .inl rfl⟩
      · exact .inr ⟨.connect step.exit other.target none, by simp [splice], .inr rfl⟩
    · exact .inr ⟨other, List.mem_append_left _ stays, ends⟩

/-- An edge is not the only one into its target exactly if another one enters it without the edge. -/
theorem one_lt_length_edgesTo_iff_cut (found : flow.edge? source target = some edge) :
    1 < (flow.edgesTo target).length ↔
      ∃ other ∈ (flow.cut source target).edges, other.target = target := by
  obtain ⟨-, -, ends⟩ := edge?_eq_some found
  have split : (flow.edgesTo target).length =
      (flow.cut source target).edges.countP (·.target = target) + 1 := by
    rw [length_edgesTo, (edges_cut found).countP_eq, List.countP_cons_of_pos (by simp [ends])]
  rw [split, Nat.lt_add_left_iff_pos, List.countP_pos_iff]
  simp only [decide_eq_true_iff]

/-- A gap from a head into a join is closed through a slot. -/
theorem bridgeAll_singleton_of_slot {gap : Gap} (joins : gap.intoJoin = true)
    (opens : flow.isHead gap.edge.source = true) (supply : Supply) : ∃ text,
      (StateT.run (flow.bridgeAll [gap]) supply).1 =
        { nodes := [.branchPlaceholder (supply.upcoming 0) text]
          edges := [.connect gap.edge.source (supply.upcoming 0) gap.edge.branch,
            .connect (supply.upcoming 0) gap.target none] } := by
  obtain ⟨opener, needs⟩ := exists_slotHead? joins opens
  exact ⟨_, by rw [run_bridgeAll_singleton, run_bridge_of_some needs]⟩

/-- Another gap is closed by one edge. -/
theorem bridgeAll_singleton_of_edge {gap : Gap}
    (h : gap.intoJoin = false ∨ flow.isHead gap.edge.source = false) (supply : Supply) :
    (StateT.run (flow.bridgeAll [gap]) supply).1 =
      { edges := [.connect gap.edge.source gap.target gap.edge.branch] } := by
  rw [run_bridgeAll_singleton, run_bridge_of_none (slotHead?_eq_none h)]

section Block

variable (present : flow.NamesPresent) (found : flow.edge? source target = some edge)
  (ladder : step.Ladder head merge slots) (fresh : (flow.splice edge step).FreshFor flow)
include present found ladder fresh

/-- Nothing outside a new block depends on its merge. -/
theorem sharesMerge_splice (admits : 0 < limits.scanLimit) :
    (flow.splice edge step).flow.sharesMerge merge
      ((flow.splice edge step).flow.body limits head merge) = false := by
  have distinct : (head :: (slots ++ [merge])).Nodup := ladder.ids ▸ fresh.distinct
  have closed := isHead_of_node? (node?_splice_new present ladder fresh ladder.merge_mem_nodes)
  apply (seats_splice found fresh).sharesMerge_eq_false ladder distinct admits closed
  -- A node from before names a merge from before, so only the new head names the new merge.
  intro node member names
  rw [splice_eq present ladder] at member
  rcases List.mem_append.mp member with old | new
  · have put : merge ∈ step.nodes.map (·.id) := List.mem_map_of_mem ladder.merge_mem_nodes
    exact absurd (.inl (present node old merge names)) (fresh.unused merge put)
  · exact (ladder.of_names new names).1

/-- A new block goes with its merge, which nothing else depends on. -/
theorem exists_removeBlock_splice_eq (admits : 0 < limits.scanLimit) : ∃ removed join,
    (join = true ↔ flow.isMerge target = true ∨ 1 < (flow.edgesTo target).length) ∧
    (flow.splice edge step).flow.without removed = flow.cut source target ∧
    (flow.splice edge step).flow.removeBlock limits step.head merge =
      (flow.splice edge step).flow.removeAndBridge removed (flow.splice edge step).added
        [⟨.connect source head edge.branch, target, join⟩] fun id => id := by
  have seats := seats_splice found fresh
  obtain ⟨known, rfl, rfl⟩ := edge?_eq_some found
  have distinct : (head :: (slots ++ [merge])).Nodup := ladder.ids ▸ fresh.distinct
  have outside : edge.target ∉ head :: (slots ++ [merge]) := fun inside =>
    fresh.unused edge.target (ladder.ids ▸ inside : edge.target ∈ step.nodes.map (·.id))
      (mentions_target known)
  -- With its merge, the body of the block is what was put in.
  obtain ⟨removed, is, whole⟩ : ∃ removed,
      (flow.splice edge step).flow.body limits head merge ++ [merge] = removed ∧
        ∀ id, id ∈ removed ↔ id ∈ head :: (slots ++ [merge]) := by
    refine ⟨_, rfl, fun id => ?_⟩
    rw [List.mem_append, seats.mem_body_iff ladder distinct admits]
    simp [or_assoc]
  have within : ∀ id ∈ removed, id ∈ head :: (slots ++ [merge]) := fun id => (whole id).mp
  have body : ∀ id, id = head ∨ id ∈ slots → id ∈ removed := fun id inside =>
    (whole id).mpr (by grind)
  have gone : merge ∈ removed := (whole merge).mpr (by simp)
  -- The merge leads on to the old target only, so there is one gap.
  refine ⟨removed, (flow.splice edge step).flow.isJoin removed edge.target, ?_, ?_, ?_⟩
  · rw [seats.isJoin_iff ladder within body gone outside, one_lt_length_edgesTo_iff_cut found,
      isMerge_congr (node?_splice_old present ladder fresh (mentions_target known))]
  · refine without_splice present ladder fresh found (ladder.ids ▸ whole) ?_
    rw [seats.edges_without ladder within body, if_pos gone, List.append_nil]
  · have onward : ((flow.splice edge step).flow.children merge).filter (· ∉ removed) =
        [edge.target] := by
      rw [seats.children_merge ladder distinct, List.filter_eq_self.mpr]
      · rfl
      · intro id member
        obtain rfl := List.mem_singleton.mp member
        exact decide_eq_true fun inside => outside (within _ inside)
    rw [removeBlock, ladder.first, ladder.opens.2,
      sharesMerge_splice present found ladder fresh admits]
    simp only [Bool.or_false, Bool.false_eq_true, if_false, is, onward,
      seats.gaps_eq ladder distinct within, idsIn_splice present ladder fresh (ladder.ids ▸ whole)]
    rfl

/-- The deletion of a new block leaves the flow without the edge, and closes the one gap. -/
theorem exists_removeBlock_splice (admits : 0 < limits.scanLimit) (supply : Supply) :
    ∃ patch left,
      StateT.run ((flow.splice edge step).flow.removeBlock limits step.head merge) supply =
        ({ flow := (flow.cut source target).append patch
           removed := (flow.splice edge step).added
           added := patch.nodes.map (·.id) }, left) ∧
      (¬ flow.KeepsSlot source target → patch = { edges := [.connect source target edge.branch] }) ∧
      (flow.KeepsSlot source target → ∃ text, patch =
        { nodes := [.branchPlaceholder (supply.upcoming 0) text]
          edges := [.connect source (supply.upcoming 0) edge.branch,
            .connect (supply.upcoming 0) target none] }) := by
  obtain ⟨removed, join, joins, without, equal⟩ :=
    exists_removeBlock_splice_eq present found ladder fresh admits
  obtain ⟨known, starts, -⟩ := edge?_eq_some found
  have opens : (flow.splice edge step).flow.isHead source = flow.isHead source :=
    isHead_congr (node?_splice_old present ladder fresh (starts ▸ mentions_source known))
  let gap : Gap := ⟨.connect source head edge.branch, target, join⟩
  let patch : Patch := (StateT.run ((flow.splice edge step).flow.bridgeAll [gap]) supply).1
  -- A slot that is put in names no merge, so what is left was settled before.
  have settled : ((flow.cut source target).append patch).settle (fun id => id) =
      (flow.cut source target).append patch := by
    have old : (flow.cut source target).NamesPresent := present
    refine (old.append fun node member merge names => ?_).settle_eq_self
    obtain ⟨text, slot⟩ := (bridges_bridgeAll _ [gap] supply).slots node member
    rw [slot] at names
    cases names
  refine ⟨patch, (StateT.run ((flow.splice edge step).flow.bridgeAll [gap]) supply).2, ?_, ?_, ?_⟩
  · rw [equal, ← settled, ← without]
    rfl
  · intro direct
    rw [KeepsSlot, ← joins, not_and_or, Bool.not_eq_true, Bool.not_eq_true, ← opens] at direct
    have plain : gap.intoJoin = false ∨
        (flow.splice edge step).flow.isHead gap.edge.source = false := direct.symm
    exact bridgeAll_singleton_of_edge plain supply
  · rintro ⟨leaves, enters⟩
    have into : gap.intoJoin = true := joins.mpr enters
    exact bridgeAll_singleton_of_slot into (opens.trans leaves) supply

omit found in
/-- The head of a new block is deleted as that of a block with its merge. -/
theorem plan_delete_splice (nonempty : merge ≠ "") :
    (Edit.delete head).plan (flow.splice edge step).flow limits =
      .ok ((flow.splice edge step).flow.removeBlock limits step.head merge) := by
  have first : (flow.splice edge step).flow.node? head = some step.head := by
    rw [← ladder.first]
    exact node?_splice_new present ladder fresh List.mem_cons_self
  have last := mem_ids_of_node? (node?_splice_new present ladder fresh ladder.merge_mem_nodes)
  have distinct : (head :: (slots ++ [merge])).Nodup := ladder.ids ▸ fresh.distinct
  have apart : merge ≠ head := by grind
  exact plan_delete_head first ladder.opens.1
    (presentMerge?_of_node? first ladder.own nonempty last) apart

end Block

end Flow

/-- A block that is inserted takes the first two identities for its head and its merge. -/
theorem Edit.exists_insert_block {flow : Flow} {source target : NodeId} {edge : Edge} {kind : String}
    (found : flow.edge? source target = some edge) (opens : (BlockKind.ofName? kind).isSome)
    (label : Option String) (branches : Option (List String)) (limits : Limits) (supply : Supply) :
    ∃ step slots left, step.Ladder (supply.upcoming 0) (supply.upcoming 1) slots ∧
      (insert source target kind label branches).run flow limits supply =
        .ok (flow.splice edge step, left) := by
  obtain ⟨block, known⟩ := Option.isSome_iff_exists.mp opens
  obtain ⟨slots, ladder⟩ := NewStep.exists_ladder_makeBlock block label none branches supply
  have planned : (insert source target kind label branches).plan flow limits =
      .ok (flow.splice edge <$> NewStep.makeBlock block label none branches) := by
    rw [plan, Flow.insert, found, NewStep.make, known]
    rfl
  exact ⟨_, slots, _, ladder, run_eq_ok_iff.mpr ⟨_, planned, Fresh.run_map _ _ _⟩⟩

namespace Session

variable {session grown last : Session} {source target : NodeId} {edge : Edge} {kind : String}
  {label : Option String} {branches : Option (List String)}
  {insertion deletion : Except Refusal Change}

/-- A block is inserted on an edge, and then its head, which was drawn first, is deleted. Both edits
are made. The deletion takes out what the insertion put in, in the same order, and the nodes and the
edges are those from before. Only if the edge led from a head to where branches come together, a new
slot stays on it. The name of the new merge is not empty, since that counts as none. -/
theorem insert_delete (present : session.flow.NamesPresent)
    (found : session.flow.edge? source target = some edge)
    (opens : (BlockKind.ofName? kind).isSome) (admits : 0 < session.limits.scanLimit)
    (nonempty : session.supply.upcoming 1 ≠ "")
    (inserts : session.perform (.insert source target kind label branches) = (insertion, grown))
    (deletes : grown.perform (.delete (session.supply.upcoming 0)) = (deletion, last))
    (fresh : session.flow.DrawsFresh insertion) (freshNext : grown.flow.DrawsFresh deletion) :
    ∃ inserted deleted, insertion = .ok inserted ∧ deletion = .ok deleted ∧
      inserted.added.head? = some (session.supply.upcoming 0) ∧
      deleted.removed = inserted.added ∧ last.flow.flowId = session.flow.flowId ∧
      (¬ session.flow.KeepsSlot source target → deleted.added = [] ∧
        last.flow.nodes = session.flow.nodes ∧ last.flow.wires.Perm session.flow.wires) ∧
      (session.flow.KeepsSlot source target → ∃ slot text,
        deleted.added = [slot] ∧ ¬ session.flow.Mentions slot ∧
        last.flow.nodes = session.flow.nodes ++ [.branchPlaceholder slot text] ∧
        last.flow.wires.Perm (⟨source, slot, edge.branch⟩ :: ⟨slot, target, none⟩ ::
          (session.flow.cut source target).wires)) := by
  obtain ⟨-, starts, ends⟩ := Flow.edge?_eq_some found
  obtain ⟨step, slots, left, ladder, done⟩ :=
    Edit.exists_insert_block found opens label branches session.limits session.supply
  rw [perform_of_ok done, Prod.mk.injEq] at inserts
  obtain ⟨rfl, rfl⟩ := inserts
  obtain ⟨patch, rest, removes, direct, through⟩ :=
    Flow.exists_removeBlock_splice present found ladder fresh admits left
  have undone := Edit.run_eq_ok_iff.mpr
    ⟨_, Flow.plan_delete_splice present ladder fresh nonempty, removes⟩
  rw [perform_of_ok undone, Prod.mk.injEq] at deletes
  obtain ⟨rfl, rfl⟩ := deletes
  refine ⟨_, _, rfl, rfl, ?_, rfl, rfl, fun lone => ?_, fun keeps => ?_⟩
  · exact congrArg List.head? ladder.ids
  · obtain rfl := direct lone
    refine ⟨rfl, List.append_nil _, ?_⟩
    -- The edge that closes the gap is one like the first.
    have back := Flow.wires_cut found
    rw [Edge.wire, starts, ends] at back
    rw [Flow.wires_append]
    exact List.perm_append_comm.trans back.symm
  · obtain ⟨text, rfl⟩ := through keeps
    refine ⟨left.upcoming 0, text, rfl, ?_, rfl, ?_⟩
    · exact fun old =>
        freshNext.unused _ (List.mem_singleton.mpr rfl) (Flow.mentions_splice found old)
    · rw [Flow.wires_append]
      exact List.perm_append_comm

/-- A condition is put on the free branch of the parallel step in the sample. -/
def nestedInserted : Except Refusal Change × Session :=
  nested.perform (.insert "outer" "join" "condition" none none)

/-- Then the condition is deleted. -/
def nestedDeleted : Except Refusal Change × Session :=
  nestedInserted.2.perform (.delete (nested.supply.upcoming 0))

/-- The free branch of the parallel step leads to a join, so it keeps a slot. -/
theorem insert_delete_nested : nested.flow.KeepsSlot "outer" "join" ∧ ∃ inserted deleted slot text,
    nestedInserted.1 = .ok inserted ∧ nestedDeleted.1 = .ok deleted ∧
      deleted.removed = inserted.added ∧ deleted.added = [slot] ∧
      nestedDeleted.2.flow.nodes = nested.flow.nodes ++ [.branchPlaceholder slot text] ∧
      nestedDeleted.2.flow.wires.Perm (⟨"outer", slot, some "B"⟩ :: ⟨slot, "join", none⟩ ::
        (nested.flow.cut "outer" "join").wires) := by
  have present : nested.flow.NamesPresent := by decide +kernel
  have found : nested.flow.edge? "outer" "join" = some (.connect "outer" "join" (some "B")) := by
    decide +kernel
  have nonempty : nested.supply.upcoming 1 ≠ "" := by decide +kernel
  have inserts : nested.perform (.insert "outer" "join" "condition" none none) =
      (nestedInserted.1, nestedInserted.2) := rfl
  have deletes : nestedInserted.2.perform (.delete (nested.supply.upcoming 0)) =
      (nestedDeleted.1, nestedDeleted.2) := rfl
  have fresh : nested.flow.DrawsFresh nestedInserted.1 := by decide +kernel
  have freshNext : nestedInserted.2.flow.DrawsFresh nestedDeleted.1 := by decide +kernel
  have keeps : nested.flow.KeepsSlot "outer" "join" := by decide +kernel
  obtain ⟨inserted, deleted, made, undone, -, removed, -, -, through⟩ := insert_delete present found
    (by decide +kernel) (by decide +kernel) nonempty inserts deletes fresh freshNext
  obtain ⟨slot, text, added, -, nodes, wires⟩ := through keeps
  exact ⟨keeps, inserted, deleted, slot, text, made, undone, removed, added, nodes, wires⟩

end Session

end Workflow
