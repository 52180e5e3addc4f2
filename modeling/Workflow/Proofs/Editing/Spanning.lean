import Workflow.Proofs.Editing.Excision
import Workflow.Proofs.Editing.Fanning

/-!
# Edges that close gaps

Where nodes are taken out, edges are put in that close the gaps. Two ways of counting decide whether
a gap needs a slot: a step looks whether one edge enters it, and a block looks at each edge into it.
What they have in common is stated once. A head crosses a gap without a slot only if the gap is one
of several into the part, or if nothing else enters its target.

## Main definitions

* `Flow.Spans` — what gaps have to be for a flow to be closed over them

## Main results

* `straight_removeAndBridge` — an edge that leads straight after nodes were taken out stands for one
  that did before
-/

namespace Workflow

namespace Flow

/-- No two edges lead from one node to the same other. -/
def Simple (flow : Flow) : Prop :=
  flow.edges.Pairwise fun one other => one.source = other.source → one.target ≠ other.target

instance (flow : Flow) : Decidable flow.Simple := inferInstanceAs (Decidable (List.Pairwise _ _))

variable {flow : Flow} {head : Node} {edge : Edge} {id merge : NodeId} {limits : Limits}
  {removed told : List NodeId} {gaps : List Gap} {gap : Gap} {rename : NodeId → NodeId}
  {supply : Supply}

/-- What gaps have to be for a flow to be closed over them: they come from edges, and go on at a
merge or behind the nodes that are taken out. A gap that a head may cross without a slot is one of
several into the part, or the only edge into its target crosses it. -/
structure Spans (flow : Flow) (removed : List NodeId) (gaps : List Gap) : Prop where
  known : ∀ gap ∈ gaps, gap.edge ∈ flow.edges ∧ flow.Mentions gap.target
  leaves : ∀ gap ∈ gaps, flow.isMerge gap.target = true ∨
    ∃ edge ∈ flow.edges, edge.target = gap.target ∧ edge.source ∈ removed
  alone : ∀ gap ∈ gaps, gap.intoJoin = false → flow.Gathers gap.edge.target ∨
    flow.isJoin removed gap.target = false ∧ gaps.countP (·.target = gap.target) ≤ 1

/-- Each gap is closed by one edge into its target, and one edge enters each slot. -/
theorem countP_target_bridgeAll (flow : Flow) (gaps : List Gap) (supply : Supply) (id : NodeId) :
    (StateT.run (flow.bridgeAll gaps) supply).1.edges.countP (·.target = id) =
      gaps.countP (·.target = id) +
        ((StateT.run (flow.bridgeAll gaps) supply).1.nodes.map (·.id)).count id := by
  induction gaps generalizing supply with
  | nil => rfl
  | cons gap gaps ih =>
    have first : (StateT.run (flow.bridge gap) supply).1.edges.countP (·.target = id) =
        (if gap.target = id then 1 else 0) +
          ((StateT.run (flow.bridge gap) supply).1.nodes.map (·.id)).count id := by
      cases needs : flow.slotHead? gap with
      | none => simp [run_bridge_of_none needs, Edge.connect, List.countP_cons]
      | some head =>
        simp [run_bridge_of_some needs, Edge.connect, List.countP_cons, Node.branchPlaceholder,
          List.count_cons]
    simp only [run_bridgeAll_cons, Patch.append, List.countP_append, List.map_append,
      List.count_append, List.countP_cons, first, ih, decide_eq_true_eq]
    omega

/-- An edge that closes a gap leads over it, or enters or leaves a slot. -/
theorem mem_bridgeAll_cases (member : edge ∈ (StateT.run (flow.bridgeAll gaps) supply).1.edges) :
    (∃ gap ∈ gaps, flow.slotHead? gap = none ∧
      edge = .connect gap.edge.source gap.target gap.edge.branch) ∨
    edge.target ∈ (StateT.run (flow.bridgeAll gaps) supply).1.nodes.map (·.id) ∨
      edge.source ∈ (StateT.run (flow.bridgeAll gaps) supply).1.nodes.map (·.id) := by
  induction gaps generalizing supply with
  | nil => cases member
  | cons gap gaps ih =>
    rw [run_bridgeAll_cons] at member ⊢
    simp only [Patch.append, List.map_append, List.mem_append] at member ⊢
    rcases member with first | later
    · cases needs : flow.slotHead? gap with
      | none =>
        rw [run_bridge_of_none needs] at first
        exact .inl ⟨gap, List.mem_cons_self, needs, List.mem_singleton.mp first⟩
      | some head =>
        rw [run_bridge_of_some needs] at first ⊢
        rcases List.mem_cons.mp first with rfl | second
        · exact .inr (.inl (.inl (List.mem_singleton.mpr rfl)))
        · obtain rfl := List.mem_singleton.mp second
          exact .inr (.inr (.inl (List.mem_singleton.mpr rfl)))
    · rcases ih later with ⟨other, inside, closed⟩ | into | out
      · exact .inl ⟨other, List.mem_cons_of_mem _ inside, closed⟩
      · exact .inr (.inl (.inr into))
      · exact .inr (.inr (.inr out))

/-- Two edges that start at different nodes come together where they end. -/
theorem one_lt_length_edgesTo {other : Edge} (here : edge ∈ flow.edges) (there : other ∈ flow.edges)
    (same : other.target = edge.target) (apart : other.source ≠ edge.source) :
    1 < (flow.edgesTo edge.target).length := by
  have first : 0 < (flow.edgesTo edge.target).countP (·.source = edge.source) :=
    List.countP_pos_iff.mpr ⟨edge, mem_edgesTo.mpr ⟨here, rfl⟩, by simp⟩
  have second : 0 < (flow.edgesTo edge.target).countP (¬ ·.source = edge.source) :=
    List.countP_pos_iff.mpr ⟨other, mem_edgesTo.mpr ⟨there, same⟩, by simpa using apart⟩
  have total := @List.length_eq_countP_add_countP _ (fun other : Edge => other.source = edge.source)
    (flow.edgesTo edge.target)
  simp only [decide_eq_true_eq] at total
  omega

theorem length_edgesTo_removeAndBridge (flow : Flow) (removed told : List NodeId) (gaps : List Gap)
    (rename : NodeId → NodeId) (supply : Supply) (id : NodeId) :
    ((StateT.run (flow.removeAndBridge removed told gaps rename) supply).1.flow.edgesTo id).length =
      (flow.without removed).edges.countP (·.target = id) + gaps.countP (·.target = id) +
        ((StateT.run (flow.bridgeAll gaps) supply).1.nodes.map (·.id)).count id := by
  have edges : (StateT.run (flow.removeAndBridge removed told gaps rename) supply).1.flow.edges =
      (flow.without removed).edges ++ (StateT.run (flow.bridgeAll gaps) supply).1.edges := rfl
  rw [length_edgesTo, edges, List.countP_append, countP_target_bridgeAll, Nat.add_assoc]

section Removal

variable (spans : flow.Spans removed gaps) (tells : ∀ id ∈ flow.ids, id ∈ told ↔ id ∈ removed)
  (fresh : (StateT.run (flow.removeAndBridge removed told gaps rename) supply).1.FreshFor flow)
include tells fresh

theorem recasts_removeAndBridge :
    flow.Recasts (StateT.run (flow.removeAndBridge removed told gaps rename) supply).1.flow
      (StateT.run (flow.bridgeAll gaps) supply).1.nodes :=
  recasts_of_retouches (retouches_removeAndBridge tells) fresh (fun _ _ opens => opens)
    fun _ => gathers_of_node?

omit tells in
/-- What enters an old node after nodes were taken out. -/
theorem length_edgesTo_old (old : flow.Mentions id) :
    ((StateT.run (flow.removeAndBridge removed told gaps rename) supply).1.flow.edgesTo id).length =
      (flow.without removed).edges.countP (·.target = id) + gaps.countP (·.target = id) := by
  have none : ((StateT.run (flow.bridgeAll gaps) supply).1.nodes.map (·.id)).count id = 0 :=
    List.count_eq_zero.mpr fun slot => fresh.unused id slot old
  rw [length_edgesTo_removeAndBridge, none, Nat.add_zero]

include spans in
omit tells in
/-- One edge enters a slot that closes a gap. -/
theorem length_edgesTo_slot
    (slot : id ∈ (StateT.run (flow.bridgeAll gaps) supply).1.nodes.map (·.id)) :
    ((StateT.run (flow.removeAndBridge removed told gaps rename) supply).1.flow.edgesTo id).length =
      1 := by
  have unused : ¬ flow.Mentions id := fresh.unused id slot
  have kept : (flow.without removed).edges.countP (·.target = id) = 0 :=
    List.countP_eq_zero.mpr fun edge member same => unused
      (of_decide_eq_true same ▸ mentions_target (mem_edges_without.mp member).1)
  have crossed : gaps.countP (·.target = id) = 0 :=
    List.countP_eq_zero.mpr fun gap inside same => unused
      (of_decide_eq_true same ▸ (spans.known gap inside).2)
  have once : ((StateT.run (flow.bridgeAll gaps) supply).1.nodes.map (·.id)).count id = 1 :=
    List.count_eq_one_of_mem fresh.distinct slot
  rw [length_edgesTo_removeAndBridge, kept, crossed, once]

/-- An old node is a merge after nodes were taken out only if it was one. -/
theorem isMerge_of_removeAndBridge (old : flow.Mentions id)
    (joins : (StateT.run (flow.removeAndBridge removed told gaps rename) supply).1.flow.isMerge id =
      true) : flow.isMerge id = true := by
  obtain ⟨node, found, joins⟩ := (Option.any_eq_true _ _).mp joins
  rcases (retouches_removeAndBridge tells).node?_cases found with
    ⟨before, known, -, rfl⟩ | ⟨slot, put, same, -⟩
  · exact (isMerge_of_node? known).trans joins
  · exact absurd old (fresh.unused id (List.mem_map.mpr ⟨slot, put, same⟩))

include spans

/-- Edges come together at the end of an edge that stays only if they did before. -/
theorem gathers_of_removeAndBridge (member : edge ∈ flow.edges) (stays : edge.source ∉ removed)
    (gathers : (StateT.run (flow.removeAndBridge removed told gaps rename)
      supply).1.flow.Gathers edge.target) : flow.Gathers edge.target := by
  have recasts := recasts_removeAndBridge tells fresh
  by_cases crossed : ∃ gap ∈ gaps, gap.target = edge.target
  · -- Where the flow goes on, there was a merge or an edge from what is taken out.
    have there : edge.target ∈ flow.ids := (recasts.ids gathers.1).resolve_right fun slot =>
      fresh.unused _ slot (mentions_target member)
    obtain ⟨gap, inside, same⟩ := crossed
    rcases spans.leaves gap inside with joins | ⟨lost, known, target, gone⟩
    · exact ⟨there, .inl (same ▸ joins)⟩
    · exact ⟨there, .inr (one_lt_length_edgesTo member known (target.trans same)
        fun source => stays (source ▸ gone))⟩
  · have none : gaps.countP (·.target = edge.target) = 0 :=
      List.countP_eq_zero.mpr fun gap inside same => crossed ⟨gap, inside, of_decide_eq_true same⟩
    refine recasts.gathers_of_mentions (mentions_target member) ?_ gathers
    rw [length_edgesTo_old fresh (mentions_target member), none, length_edgesTo]
    exact List.filter_sublist.countP_le

/-- A gap that a head crosses without a slot comes from an edge that led straight, if the edge over
it does. -/
theorem gathers_of_crosses (inside : gap ∈ gaps) (needs : flow.slotHead? gap = none)
    (opens : flow.isHead gap.edge.source = true)
    (gathers : (StateT.run (flow.removeAndBridge removed told gaps rename)
      supply).1.flow.Gathers gap.target) : flow.Gathers gap.edge.target := by
  obtain ⟨-, old⟩ := spans.known gap inside
  -- A head crosses without a slot only where no edges are taken to come together.
  have loose : gap.intoJoin = false := Bool.eq_false_iff.mpr fun into => by
    obtain ⟨opener, slot⟩ := exists_slotHead? into opens
    rw [needs] at slot
    cases slot
  refine (spans.alone gap inside loose).resolve_right fun ⟨free, few⟩ => ?_
  rw [isJoin, Bool.or_eq_false_iff] at free
  obtain ⟨plain, left⟩ := free
  obtain ⟨-, joins | more⟩ := gathers
  · exact absurd (isMerge_of_removeAndBridge tells fresh old joins) (by simp [plain])
  · have none : (flow.without removed).edges.countP (·.target = gap.target) = 0 := by
      refine List.countP_eq_zero.mpr fun edge kept same => ?_
      obtain ⟨known, stays, -⟩ := mem_edges_without.mp kept
      have entering : edge ∈ flow.edgesTo gap.target :=
        mem_edgesTo.mpr ⟨known, of_decide_eq_true same⟩
      exact absurd (List.any_eq_false.mp left edge entering) (by simpa using stays)
    rw [length_edgesTo_old fresh old, none] at more
    omega

/-- Where nodes are taken out and gaps are closed, an edge that leads straight stands for one that
did. -/
theorem straight_removeAndBridge (straight : (StateT.run
      (flow.removeAndBridge removed told gaps rename) supply).1.flow.Straight edge) :
    ∃ before, flow.Straight before ∧ before.branch = edge.branch := by
  have recasts := recasts_removeAndBridge tells fresh
  have slots := (bridges_bridgeAll flow gaps supply).slots
  rcases List.mem_append.mp straight.mem with kept | closing
  · obtain ⟨known, stays, -⟩ := mem_edges_without.mp kept
    exact ⟨edge, ⟨known, recasts.isHead_of_mentions (mentions_source known) straight.opens,
      gathers_of_removeAndBridge spans tells fresh known stays straight.gathers⟩, rfl⟩
  · rcases mem_bridgeAll_cases closing with ⟨gap, inside, needs, rfl⟩ | into | out
    · have known := (spans.known gap inside).1
      have opens := recasts.isHead_of_mentions (mentions_source known) straight.opens
      exact ⟨gap.edge, ⟨known, opens,
        gathers_of_crosses spans tells fresh inside needs opens straight.gathers⟩, rfl⟩
    · refine absurd straight.gathers (recasts.not_gathers (fresh.unused _ into)
        (fun node put _ => ?_) (Nat.le_of_eq (length_edgesTo_slot spans fresh into)))
      obtain ⟨text, slot⟩ := slots node put
      rw [slot]
      rfl
    · refine absurd straight.opens ?_
      rw [recasts.isHead_eq_false (fresh.unused _ out) fun node put _ => ?_]
      · exact Bool.false_ne_true
      · obtain ⟨text, slot⟩ := slots node put
        rw [slot]
        rfl

end Removal

/-- From each edge into the part there is one gap to each place where the flow goes on. -/
theorem countP_target_gaps (flow : Flow) (removed : List NodeId) (entry : NodeId)
    (targets : List NodeId) (id : NodeId) :
    (flow.gaps removed entry targets).countP (·.target = id) =
      ((flow.edgesTo entry).filter (·.source ∉ removed)).length * targets.count id := by
  have each : ∀ edge : Edge, (targets.map fun target =>
      (⟨edge, target, flow.isJoin removed target⟩ : Gap)).countP (·.target = id) =
        targets.count id := by
    intro edge
    rw [List.countP_map, List.count_eq_countP]
    rfl
  rw [gaps, List.countP_flatMap]
  simp only [Function.comp_def, each, List.map_const', List.sum_replicate_nat]

/-- Without two edges from one node to the same other, a node leads to each of its children once. -/
theorem Simple.nodup_children (simple : flow.Simple) (id : NodeId) : (flow.children id).Nodup := by
  rw [children, List.Nodup, List.pairwise_map]
  refine List.Pairwise.imp_of_mem (fun here there apart => ?_) (List.Pairwise.filter _ simple)
  exact apart ((mem_edgesFrom.mp here).2.trans (mem_edgesFrom.mp there).2.symm)

/-- A block whose merge stays is closed over towards the merge. -/
theorem spans_gaps_merge (joins : flow.isMerge merge = true) (removed : List NodeId)
    (entry : NodeId) : flow.Spans removed (flow.gaps removed entry [merge]) where
  known gap member := by
    obtain ⟨⟨known, -⟩, goes, -⟩ := mem_gaps.mp member
    exact ⟨known, .inl (List.mem_singleton.mp goes ▸ mem_ids_of_isMerge joins)⟩
  leaves gap member := by
    obtain ⟨-, goes, -⟩ := mem_gaps.mp member
    exact .inl (List.mem_singleton.mp goes ▸ joins)
  alone gap member loose := by
    obtain ⟨-, goes, into⟩ := mem_gaps.mp member
    rw [loose, List.mem_singleton.mp goes, isJoin, joins] at into
    cases into

/-- A block that goes with its merge is closed over towards what comes behind that. -/
theorem spans_gaps_children (simple : flow.Simple) (gone : merge ∈ removed)
    (known : id ∈ flow.ids) :
    flow.Spans removed (flow.gaps removed id ((flow.children merge).filter (· ∉ removed))) where
  known gap member := by
    obtain ⟨⟨there, -⟩, goes, -⟩ := mem_gaps.mp member
    obtain ⟨edge, leaves, -, target⟩ := mem_children.mp (List.mem_filter.mp goes).1
    exact ⟨there, target ▸ mentions_target leaves⟩
  leaves gap member := by
    obtain ⟨-, goes, -⟩ := mem_gaps.mp member
    obtain ⟨edge, leaves, source, target⟩ := mem_children.mp (List.mem_filter.mp goes).1
    exact .inr ⟨edge, leaves, target, source ▸ gone⟩
  alone gap member loose := by
    obtain ⟨⟨-, entry, -⟩, -, into⟩ := mem_gaps.mp member
    by_cases many : 1 < (flow.edgesTo id).length
    · exact .inl (entry.symm ▸ ⟨known, .inr many⟩)
    · -- One edge enters the block, and the merge leads to each place once.
      refine .inr ⟨into.symm.trans loose, ?_⟩
      have entering : ((flow.edgesTo id).filter (·.source ∉ removed)).length ≤ 1 :=
        Nat.le_trans (List.length_filter_le _ _) (Nat.le_of_not_lt many)
      have once : ((flow.children merge).filter (· ∉ removed)).count gap.target ≤ 1 :=
        List.nodup_iff_count_le_one.mp ((simple.nodup_children merge).filter _) gap.target
      rw [countP_target_gaps]
      exact Nat.mul_le_mul entering once

/-- A step is closed over towards where its one way out leads. -/
theorem spans_stepGaps (known : id ∈ flow.ids) : flow.Spans [id] (flow.stepGaps id) where
  known gap member := by
    obtain ⟨leaving, only, enters, goes, -⟩ := mem_stepGaps.mp member
    have leaves : leaving ∈ flow.edgesFrom id := by simp [only]
    exact ⟨(mem_edgesTo.mp enters).1, goes ▸ mentions_target (mem_edgesFrom.mp leaves).1⟩
  leaves gap member := by
    obtain ⟨leaving, only, -, goes, -⟩ := mem_stepGaps.mp member
    have leaves : leaving ∈ flow.edgesFrom id := by simp [only]
    obtain ⟨there, source⟩ := mem_edgesFrom.mp leaves
    exact .inr ⟨leaving, there, goes.symm, List.mem_singleton.mpr source⟩
  alone gap member loose := by
    obtain ⟨leaving, -, enters, goes, into⟩ := mem_stepGaps.mp member
    by_cases single : (flow.edgesTo id).length = 1
    · have free : flow.isJoin [id] gap.target = false := by
        rw [goes]
        simpa [single] using into.symm.trans loose
      exact .inr ⟨free, Nat.le_trans List.countP_le_length
        (Nat.le_trans (flow.length_stepGaps_le id) (Nat.le_of_eq single))⟩
    · -- Several edges enter the step, so edges come together there.
      have filled : 0 < (flow.edgesTo id).length := List.length_pos_of_mem enters
      have ends := (mem_edgesTo.mp enters).2
      exact .inl (ends.symm ▸ ⟨known, .inr (by omega)⟩)

/-- Where a block is deleted whose merge is one, an edge that leads straight stands for one that
did. -/
theorem straight_removeBlock (simple : flow.Simple) (joins : flow.isMerge merge = true)
    (known : head.id ∈ flow.ids)
    (fresh : (StateT.run (flow.removeBlock limits head merge) supply).1.FreshFor flow)
    (straight : (StateT.run (flow.removeBlock limits head merge) supply).1.flow.Straight edge) :
    ∃ before, flow.Straight before ∧ before.branch = edge.branch := by
  rw [removeBlock] at fresh straight
  refine straight_removeAndBridge ?_ (fun id there => ?_) fresh straight
  · split
    · exact spans_gaps_merge joins _ _
    · exact spans_gaps_children simple (by simp) known
  · rw [idsIn, List.mem_filter, decide_eq_true_iff, and_iff_right there]

end Flow

end Workflow
