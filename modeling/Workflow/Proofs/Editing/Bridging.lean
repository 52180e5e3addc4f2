import Workflow.Edit.Delete
import Workflow.Proofs.Editing.Joining

/-!
# Taking nodes out and closing the gaps

Where nodes are taken out, a patch closes each gap by an edge, or by two edges and a slot between
them. What the patch leads to, and the roles around it, can be told without a look at how the
gaps are told apart.

## Main definitions

* `Patch.Bridges` — a patch closes gaps, through slots or not
* `Flow.closedOver` — a flow from which nodes were taken out, with a patch in their place

## Main results

* `bridges_bridgeAll` — the patch of a deletion closes the gaps
* `Joining.closedOver` — a block stays where nodes outside it are taken out
-/

namespace Workflow

/-- An edge of a patch leads from one node to another. -/
def Patch.Connects (patch : Patch) (source target : NodeId) : Prop :=
  ∃ edge ∈ patch.edges, edge.source = source ∧ edge.target = target

/-- A patch closes gaps: from the start of each gap an edge leads to its target, or edges lead
there through a slot, and there is nothing else in the patch. -/
structure Patch.Bridges (patch : Patch) (gaps : List Gap) : Prop where
  slots : ∀ node ∈ patch.nodes, ∃ text, node = .branchPlaceholder node.id text
  crosses : ∀ gap ∈ gaps, patch.Connects gap.edge.source gap.target ∨
    ∃ slot ∈ patch.nodes.map (·.id),
      patch.Connects gap.edge.source slot ∧ patch.Connects slot gap.target
  connects_cases : ∀ {source target}, patch.Connects source target → ∃ gap ∈ gaps,
    source = gap.edge.source ∧ (target = gap.target ∨ target ∈ patch.nodes.map (·.id)) ∨
      source ∈ patch.nodes.map (·.id) ∧ target = gap.target

namespace Patch

variable {first second : Patch} {gaps more : List Gap} {source target : NodeId}

theorem connects_append : (first.append second).Connects source target ↔
    first.Connects source target ∨ second.Connects source target := by
  simp only [Connects, append, List.mem_append, or_and_right, exists_or]

/-- Patches close their gaps one after another. -/
theorem Bridges.append (h : first.Bridges gaps) (hmore : second.Bridges more) :
    (first.append second).Bridges (gaps ++ more) := by
  have ids : ∀ id, id ∈ (first.append second).nodes.map (·.id) ↔
      id ∈ first.nodes.map (·.id) ∨ id ∈ second.nodes.map (·.id) := by
    intro id
    rw [Patch.append, List.map_append, List.mem_append]
  refine ⟨fun node member => (List.mem_append.mp member).elim (h.slots node) (hmore.slots node),
    ?_, ?_⟩
  · intro gap member
    simp only [connects_append, ids]
    rcases List.mem_append.mp member with here | there
    · rcases h.crosses gap here with direct | ⟨slot, inside, into, onward⟩
      · exact .inl (.inl direct)
      · exact .inr ⟨slot, .inl inside, .inl into, .inl onward⟩
    · rcases hmore.crosses gap there with direct | ⟨slot, inside, into, onward⟩
      · exact .inl (.inr direct)
      · exact .inr ⟨slot, .inr inside, .inr into, .inr onward⟩
  · intro source target connects
    simp only [ids]
    rcases connects_append.mp connects with here | there
    · obtain ⟨gap, member, ⟨starts, ends⟩ | ⟨starts, ends⟩⟩ := h.connects_cases here
      · exact ⟨gap, List.mem_append_left _ member, .inl ⟨starts, ends.imp_right .inl⟩⟩
      · exact ⟨gap, List.mem_append_left _ member, .inr ⟨.inl starts, ends⟩⟩
    · obtain ⟨gap, member, ⟨starts, ends⟩ | ⟨starts, ends⟩⟩ := hmore.connects_cases there
      · exact ⟨gap, List.mem_append_right _ member, .inl ⟨starts, ends.imp_right .inr⟩⟩
      · exact ⟨gap, List.mem_append_right _ member, .inr ⟨.inr starts, ends⟩⟩

end Patch

namespace Flow

variable {flow : Flow} {opener closer id child : NodeId} {arms : List Lane} {patch : Patch}
  {gaps : List Gap} {removed : List NodeId}

/-! ### Patches that close gaps -/

/-- One gap is closed by one edge, or through a slot. -/
theorem bridges_bridge (flow : Flow) (gap : Gap) (supply : Supply) :
    (StateT.run (flow.bridge gap) supply).1.Bridges [gap] := by
  cases needs : flow.slotHead? gap with
  | none =>
    rw [run_bridge_of_none needs]
    refine ⟨by simp, ?_, ?_⟩
    · intro other member
      obtain rfl := List.mem_singleton.mp member
      exact .inl ⟨_, List.mem_singleton.mpr rfl, rfl, rfl⟩
    · rintro source target ⟨edge, member, rfl, rfl⟩
      obtain rfl := List.mem_singleton.mp member
      exact ⟨gap, List.mem_singleton.mpr rfl, .inl ⟨rfl, .inl rfl⟩⟩
  | some head =>
    rw [run_bridge_of_some needs]
    refine ⟨?_, ?_, ?_⟩
    · intro node member
      obtain rfl := List.mem_singleton.mp member
      exact ⟨_, rfl⟩
    · intro other member
      obtain rfl := List.mem_singleton.mp member
      exact .inr ⟨_, List.mem_singleton.mpr rfl, ⟨_, List.mem_cons_self, rfl, rfl⟩,
        _, List.mem_cons_of_mem _ (List.mem_singleton.mpr rfl), rfl, rfl⟩
    · rintro source target ⟨edge, member, rfl, rfl⟩
      refine ⟨gap, List.mem_singleton.mpr rfl, ?_⟩
      rcases List.mem_cons.mp member with rfl | member
      · exact .inl ⟨rfl, .inr (List.mem_singleton.mpr rfl)⟩
      · obtain rfl := List.mem_singleton.mp member
        exact .inr ⟨List.mem_singleton.mpr rfl, rfl⟩

/-- Gaps are closed one after another. -/
theorem bridges_bridgeAll (flow : Flow) (gaps : List Gap) (supply : Supply) :
    (StateT.run (flow.bridgeAll gaps) supply).1.Bridges gaps := by
  induction gaps generalizing supply with
  | nil =>
    have empty : (StateT.run (flow.bridgeAll []) supply).1 = {} := rfl
    rw [empty]
    exact ⟨by simp, by simp, by simp [Patch.Connects]⟩
  | cons gap gaps ih =>
    rw [run_bridgeAll_cons]
    exact (bridges_bridge flow gap supply).append (ih _)

/-- Gaps none of which needs a slot are closed by one edge each, and nothing is drawn. -/
theorem run_bridgeAll_of_none (direct : ∀ gap ∈ gaps, flow.slotHead? gap = none) (supply : Supply) :
    StateT.run (flow.bridgeAll gaps) supply =
      ({ edges := gaps.map fun gap => .connect gap.edge.source gap.target gap.edge.branch },
        supply) := by
  induction gaps with
  | nil => rfl
  | cons gap gaps ih =>
    rw [run_bridgeAll_cons, run_bridge_of_none (direct gap List.mem_cons_self)]
    dsimp only
    rw [ih fun other member => direct other (List.mem_cons_of_mem _ member)]
    rfl

/-- A slot that closes a gap is entered from the start of the gap, which is a node. -/
theorem exists_gap_of_slot {supply : Supply}
    (slot : id ∈ (StateT.run (flow.bridgeAll gaps) supply).1.nodes.map (·.id)) :
    ∃ gap ∈ gaps, gap.edge.source ∈ flow.ids ∧
      (StateT.run (flow.bridgeAll gaps) supply).1.Connects gap.edge.source id := by
  induction gaps generalizing supply with
  | nil => cases slot
  | cons gap gaps ih =>
    rw [run_bridgeAll_cons] at slot ⊢
    simp only [Patch.connects_append]
    simp only [Patch.append, List.map_append, List.mem_append] at slot
    rcases slot with here | there
    · refine ⟨gap, List.mem_cons_self, ?_⟩
      cases needs : flow.slotHead? gap with
      | none =>
        rw [run_bridge_of_none needs] at here
        cases here
      | some head =>
        rw [run_bridge_of_some needs] at here ⊢
        obtain rfl := List.mem_singleton.mp here
        refine ⟨?_, .inl ⟨_, List.mem_cons_self, rfl, rfl⟩⟩
        rw [slotHead?] at needs
        split at needs
        · exact mem_ids_of_node? (Option.filter_eq_some_iff.mp needs).1
        · cases needs
    · obtain ⟨gap, member, known, enters⟩ := ih there
      exact ⟨gap, List.mem_cons_of_mem _ member, known, .inr enters⟩

/-- Branches come together at a merge, and at a node to which something leads that stays. -/
theorem isJoin_iff : flow.isJoin removed id = true ↔
    flow.isMerge id = true ∨ ∃ parent ∉ removed, flow.Leads parent id := by
  rw [isJoin, Bool.or_eq_true, List.any_eq_true]
  refine or_congr_right ⟨?_, ?_⟩
  · rintro ⟨edge, enters, stays⟩
    obtain ⟨known, ends⟩ := mem_edgesTo.mp enters
    exact ⟨edge.source, of_decide_eq_true stays, edge, known, rfl, ends⟩
  · rintro ⟨_, stays, edge, known, rfl, ends⟩
    exact ⟨edge, mem_edgesTo.mpr ⟨known, ends⟩, decide_eq_true stays⟩

/-- What depends on a merge that is not shared is in the body. -/
theorem sharesMerge_eq_false_iff {merge : NodeId} {body : List NodeId} :
    flow.sharesMerge merge body = false ↔ flow.isHead merge = false ∧
      (∀ node ∈ flow.nodes, node.isHead = true → node.content.mergeNodeId = some merge →
        node.id ∈ body) ∧
      ∀ id, flow.Leads id merge → id ∈ body := by
  rw [sharesMerge, Bool.or_eq_false_iff, Bool.or_eq_false_iff, List.any_eq_false, List.any_eq_false,
    and_assoc]
  refine and_congr_right fun _ => and_congr ?_ ⟨fun inward id => ?_, fun inward edge member => ?_⟩
  · refine forall₂_congr fun node _ => ?_
    simp only [decide_eq_true_iff]
    tauto
  · rintro ⟨edge, member, rfl, ends⟩
    simpa using inward edge (mem_edgesTo.mpr ⟨member, ends⟩)
  · obtain ⟨known, ends⟩ := mem_edgesTo.mp member
    simpa using inward edge.source ⟨edge, known, rfl, ends⟩

/-- There is a gap from each edge into the part, from outside it, to each place where the flow goes
on. -/
theorem mem_gaps {gap : Gap} {targets : List NodeId} : gap ∈ flow.gaps removed id targets ↔
    (gap.edge ∈ flow.edges ∧ gap.edge.target = id ∧ gap.edge.source ∉ removed) ∧
      gap.target ∈ targets ∧ gap.intoJoin = flow.isJoin removed gap.target := by
  simp only [gaps, List.mem_flatMap, List.mem_map, List.mem_filter, mem_edgesTo, decide_eq_true_iff]
  constructor
  · rintro ⟨edge, ⟨⟨known, ends⟩, stays⟩, target, goes, rfl⟩
    exact ⟨⟨known, ends, stays⟩, goes, rfl⟩
  · rintro ⟨⟨known, ends, stays⟩, goes, into⟩
    exact ⟨gap.edge, ⟨⟨known, ends⟩, stays⟩, gap.target, goes, into ▸ rfl⟩

theorem of_mem_gaps {gap : Gap} {targets : List NodeId}
    (member : gap ∈ flow.gaps removed id targets) :
    gap.target ∈ targets ∧ gap.edge.source ∉ removed ∧ flow.Leads gap.edge.source id := by
  obtain ⟨⟨known, ends, stays⟩, goes, -⟩ := mem_gaps.mp member
  exact ⟨goes, stays, gap.edge, known, rfl, ends⟩

theorem exists_gap {source target : NodeId} {targets : List NodeId}
    (leads : flow.Leads source id) (stays : source ∉ removed) (goes : target ∈ targets) :
    ∃ gap ∈ flow.gaps removed id targets, gap.edge.source = source ∧ gap.target = target := by
  obtain ⟨edge, member, rfl, ends⟩ := leads
  exact ⟨⟨edge, target, flow.isJoin removed target⟩,
    mem_gaps.mpr ⟨⟨member, ends, stays⟩, goes, rfl⟩, rfl, rfl⟩

/-- With one edge at most into the part, there are no more gaps than places where the flow goes
on. -/
theorem length_gaps_le {targets : List NodeId} (single : (flow.edgesTo id).length ≤ 1) :
    (flow.gaps removed id targets).length ≤ targets.length := by
  have few : ((flow.edgesTo id).filter (·.source ∉ removed)).length ≤ 1 :=
    Nat.le_trans (List.length_filter_le _ _) single
  rw [gaps, List.length_flatMap]
  simp only [List.length_map, List.map_const', List.sum_replicate_nat]
  exact Nat.le_trans (Nat.mul_le_mul_right _ few) (Nat.le_of_eq (Nat.one_mul _))

/-- There is a gap over a step from each edge into it, to where the one edge out of it leads. -/
theorem mem_stepGaps {gap : Gap} : gap ∈ flow.stepGaps id ↔
    ∃ leaving, flow.edgesFrom id = [leaving] ∧ gap.edge ∈ flow.edgesTo id ∧
      gap.target = leaving.target ∧
      gap.intoJoin = ((flow.edgesTo id).length = 1 && flow.isJoin [id] leaving.target) := by
  rw [stepGaps]
  dsimp only
  split
  · rename_i leaving only
    simp only [List.mem_map, only, List.cons.injEq, and_true, exists_eq_left']
    constructor
    · rintro ⟨edge, enters, rfl⟩
      exact ⟨enters, rfl, rfl⟩
    · obtain ⟨edge, target, intoJoin⟩ := gap
      rintro ⟨enters, rfl, rfl⟩
      exact ⟨edge, enters, rfl⟩
  · rename_i other
    exact iff_of_false List.not_mem_nil fun ⟨leaving, only, _⟩ => other leaving only

theorem length_stepGaps_le (flow : Flow) (id : NodeId) :
    (flow.stepGaps id).length ≤ (flow.edgesTo id).length := by
  rw [stepGaps]
  dsimp only
  split
  · exact Nat.le_of_eq (List.length_map _)
  · exact Nat.zero_le _

/-- A gap is closed by two edges at most. -/
theorem length_bridgeAll_le (flow : Flow) (gaps : List Gap) (supply : Supply) :
    (StateT.run (flow.bridgeAll gaps) supply).1.edges.length ≤ 2 * gaps.length := by
  induction gaps generalizing supply with
  | nil => exact Nat.le_refl 0
  | cons gap gaps ih =>
    have first : (StateT.run (flow.bridge gap) supply).1.edges.length ≤ 2 := by
      cases needs : flow.slotHead? gap with
      | none => simp [run_bridge_of_none needs]
      | some head => simp [run_bridge_of_some needs]
    have others := ih (StateT.run (flow.bridge gap) supply).2
    rw [run_bridgeAll_cons]
    simp only [Patch.append, List.length_append, List.length_cons]
    omega

/-! ### The flow that is left -/

/-- The flow without some nodes, closed over them by a patch. -/
def closedOver (flow : Flow) (removed : List NodeId) (patch : Patch) : Flow :=
  ((flow.without removed).append patch).settle fun merge => merge

theorem mem_ids_closedOver : id ∈ (flow.closedOver removed patch).ids ↔
    id ∈ flow.ids ∧ id ∉ removed ∨ id ∈ patch.nodes.map (·.id) := by
  rw [closedOver, ids_settle, ids_append, Flow.ids_without]
  simp

theorem leads_closedOver : (flow.closedOver removed patch).Leads id child ↔
    (flow.Leads id child ∧ id ∉ removed ∧ child ∉ removed) ∨ patch.Connects id child := by
  rw [closedOver, leads_settle, leads_append, leads_without]
  rfl

/-- A node that names no merge stays as it is, if it is neither taken out nor put in. -/
theorem node?_closedOver {node : Node} (found : flow.node? id = some node) (stays : id ∉ removed)
    (old : id ∉ patch.nodes.map (·.id)) (unnamed : node.content.mergeNodeId = none) :
    (flow.closedOver removed patch).node? id = some node := by
  rw [closedOver, node?_settle, node?_append_of_notMem old, node?_without stays, found,
    Option.map_some, Node.settle_eq_self]
  intro name own
  rw [unnamed] at own
  cases own

theorem roles_closedOver (stays : id ∉ removed) (old : id ∉ patch.nodes.map (·.id)) :
    (flow.closedOver removed patch).isHead id = flow.isHead id ∧
      (flow.closedOver removed patch).isMerge id = flow.isMerge id := by
  rw [closedOver, isHead_settle, isMerge_settle]
  exact roles_replaced stays old

/-- A role is kept where a node is neither taken out nor put in. -/
theorem Plays.closedOver {role : Role} (plays : flow.Plays id role) (stays : id ∉ removed)
    (old : id ∉ patch.nodes.map (·.id)) : (flow.closedOver removed patch).Plays id role := by
  obtain ⟨hhead, hmerge⟩ := roles_closedOver stays old
  exact ⟨hhead.trans plays.1, hmerge.trans plays.2⟩

/-- The slots of a patch that closes gaps are plain steps where it is put in. -/
theorem plays_slot (bridges : patch.Bridges gaps) (new : id ∉ flow.ids)
    (inside : id ∈ patch.nodes.map (·.id)) : (flow.closedOver removed patch).Plays id .step := by
  rw [closedOver, Plays, isHead_settle, isMerge_settle]
  have absent : id ∉ (flow.without removed).ids := by
    rw [Flow.ids_without]
    exact fun old => new (List.mem_filter.mp old).1
  have lookup := @node?_append_of_mem _ _ patch absent
  cases found : patch.nodes.find? (·.id = id) with
  | none =>
    obtain ⟨node, member, same⟩ := List.mem_map.mp inside
    exact absurd (decide_eq_true same) (List.find?_eq_none.mp found node member)
  | some node =>
    obtain ⟨text, slot⟩ := bridges.slots node (List.mem_of_find?_eq_some found)
    rw [found, slot] at lookup
    exact Plays.of_node? lookup rfl rfl

/-- A joining block stays if no node of it is taken out. -/
theorem Joining.closedOver (joining : flow.Joining opener arms closer)
    (stays : ∀ id ∈ (Item.block opener arms closer).ids, id ∉ removed)
    (fresh : ∀ id ∈ patch.nodes.map (·.id), id ∉ flow.ids) :
    (flow.closedOver removed patch).Joining opener arms closer := by
  have old : ∀ id ∈ (Item.block opener arms closer).ids, id ∉ patch.nodes.map (·.id) :=
    fun id inside slot => fresh id slot (joining.present id inside)
  have opens : opener ∈ (Item.block opener arms closer).ids := Item.first_mem_ids _
  have closes : closer ∈ (Item.block opener arms closer).ids := Item.last_mem_ids _
  refine ⟨joining.distinct, ?_, joining.forked, ?_, ?_, ?_, ?_⟩
  · exact fun id inside =>
      mem_ids_closedOver.mpr (.inl ⟨joining.present id inside, stays id inside⟩)
  · obtain ⟨hhead, hmerge⟩ := roles_closedOver (stays opener opens) (old opener opens)
    exact ⟨hhead.trans joining.opens.1, hmerge.trans joining.opens.2⟩
  · intro id slot
    have inside : id ∈ (Item.block opener arms closer).ids := by
      rw [Item.ids_block]
      exact List.mem_append_left _ (List.mem_cons_of_mem _ slot)
    exact (joining.slots id slot).closedOver (stays id inside) (old id inside)
  · exact joining.closes.closedOver (stays closer closes) (old closer closes)
  · exact fun wire member => leads_closedOver.mpr (.inl ⟨joining.leads wire member,
      stays _ (Item.source_mem_ids member), stays _ (Item.target_mem_ids member)⟩)

end Flow

end Workflow
