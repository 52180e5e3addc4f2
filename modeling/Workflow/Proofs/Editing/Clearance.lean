import Workflow.Proofs.Editing.Bridging
import Workflow.Proofs.Editing.Form
import Workflow.Proofs.Editing.Outcome

/-!
# Edges at removed nodes

An edit that removes nodes removes the edges at them, and the edges that it puts in keep off
them. There is one exception: a node that has an edge to itself. A slot that a block fills is
entered from itself then, and a step whose only way out leads back to it is closed over towards
itself.

## Main definitions

* `Change.Clears` — no edge touches a removed node
* `Edit.Circles` — an edit closes the flow over a node from or towards that node

## Main results

* `Edit.clears_iff` — exactly when an edit that removes a node does not circle, it clears
-/

namespace Workflow

/-- After a change no edge starts or ends at a node that was removed. -/
def Change.Clears (change : Change) : Prop :=
  ∀ edge ∈ change.flow.edges, edge.source ∉ change.removed ∧ edge.target ∉ change.removed

instance (change : Change) : Decidable change.Clears :=
  inferInstanceAs (Decidable (∀ edge ∈ change.flow.edges, _))

/-- The node of an edit has an edge to itself, which the edit takes for one into the node or out of
it. A step is closed over only if no other edge leaves it. -/
def Edit.Circles (edit : Edit) (flow : Flow) : Prop :=
  match edit with
  | delete id => flow.isHead id = false ∧ flow.children id = [id]
  | fill id .. => id ∈ flow.children id
  | _ => False

instance (flow : Flow) : (edit : Edit) → Decidable (edit.Circles flow)
  | .delete id => inferInstanceAs (Decidable (flow.isHead id = false ∧ flow.children id = [id]))
  | .fill id .. => inferInstanceAs (Decidable (id ∈ flow.children id))
  | .swap .. | .insert .. | .setBranches .. => isFalse fun circles => circles

namespace Change

variable {change : Change} {flow : Flow}

theorem clears_iff_leads : change.Clears ↔
    ∀ id child, change.flow.Leads id child → id ∉ change.removed ∧ child ∉ change.removed := by
  constructor
  · rintro clears id child ⟨edge, member, rfl, rfl⟩
    exact clears edge member
  · exact fun keeps edge member => keeps _ _ ⟨edge, member, rfl, rfl⟩

theorem clears_of_removed_eq_nil (h : change.removed = []) : change.Clears := by
  intro edge _
  simp [h]

end Change

namespace Flow

variable {flow : Flow} {removed told : List NodeId} {gaps : List Gap} {rename : NodeId → NodeId}
  {supply : Supply} {limits : Limits} {head slot node : Node} {merge id child : NodeId}
  {step : NewStep} {item : Item}

/-! ### Taking nodes out -/

/-- Nodes are taken out with the edges at them, and a patch closes the gaps. -/
theorem leads_removeAndBridge :
    (StateT.run (flow.removeAndBridge removed told gaps rename) supply).1.flow.Leads id child ↔
      flow.Leads id child ∧ id ∉ removed ∧ child ∉ removed ∨
        (StateT.run (flow.bridgeAll gaps) supply).1.Connects id child := by
  rw [← leads_without]
  exact leads_append

/-- Where each gap leads from a node that stays to a node that stays, no edge touches a removed
node. -/
theorem clears_removeAndBridge (inside : ∀ id ∈ told, id ∈ removed ∧ id ∈ flow.ids)
    (stay : ∀ gap ∈ gaps, gap.edge.source ∉ removed ∧ gap.target ∉ removed)
    (fresh : (StateT.run (flow.removeAndBridge removed told gaps rename) supply).1.FreshFor flow) :
    (StateT.run (flow.removeAndBridge removed told gaps rename) supply).1.Clears := by
  have stays : ∀ {id}, id ∉ removed → id ∉ told := fun out member => out (inside _ member).1
  have slots : ∀ {id}, id ∈ (StateT.run (flow.bridgeAll gaps) supply).1.nodes.map (·.id) →
      id ∉ told := fun slot member => fresh.unused _ slot (.inl (inside _ member).2)
  rw [Change.clears_iff_leads]
  intro id child leads
  rcases leads_removeAndBridge.mp leads with ⟨-, here, there⟩ | connects
  · exact ⟨stays here, stays there⟩
  · obtain ⟨gap, member, ⟨rfl, target⟩ | ⟨slot, rfl⟩⟩ :=
      (bridges_bridgeAll flow gaps supply).connects_cases connects
    · refine ⟨stays (stay gap member).1, ?_⟩
      rcases target with rfl | slot
      · exact stays (stay gap member).2
      · exact slots slot
    · exact ⟨slots slot, stays (stay gap member).2⟩

/-- A block is closed over from nodes outside it to its merge, if that stays, or to nodes outside
it. -/
theorem clears_removeBlock (apart : merge ≠ head.id)
    (fresh : (StateT.run (flow.removeBlock limits head merge) supply).1.FreshFor flow) :
    (StateT.run (flow.removeBlock limits head merge) supply).1.Clears := by
  have off : merge ∉ flow.body limits head.id merge := by
    rw [body, if_neg apart.symm]
    exact merge_notMem_spread (by simpa using apart)
  rw [removeBlock] at fresh ⊢
  refine clears_removeAndBridge (fun id member => ?_) (fun gap member => ?_) fresh
  · rw [idsIn, List.mem_filter] at member
    exact ⟨by simpa using member.2, member.1⟩
  · obtain ⟨edge, enters, rest⟩ := List.mem_flatMap.mp member
    obtain ⟨target, goal, rfl⟩ := List.mem_map.mp rest
    refine ⟨by simpa using (List.mem_filter.mp enters).2, ?_⟩
    -- The flow goes on at the merge only if that is not removed with the body.
    split at goal
    · rename_i keeps
      rw [if_pos keeps, List.mem_singleton.mp goal]
      exact off
    · rename_i leaves
      rw [if_neg leaves]
      simpa using (List.mem_filter.mp goal).2

/-! ### A step -/

/-- The flow is closed over a step from or towards the step itself only if no other edge leaves
it. -/
theorem stay_of_mem_stepGaps {gap : Gap} (member : gap ∈ flow.stepGaps id)
    (straight : flow.children id ≠ [id]) : gap.edge.source ≠ id ∧ gap.target ≠ id := by
  obtain ⟨leaving, only, enters, goes, -⟩ := mem_stepGaps.mp member
  rw [children, only] at straight
  have onward : leaving.target ≠ id := fun same => straight (by simp [same])
  refine ⟨fun loop => ?_, goes ▸ onward⟩
  -- An edge from the step to itself would be the one that leaves it.
  obtain ⟨known, target⟩ := mem_edgesTo.mp enters
  have leaves : gap.edge ∈ flow.edgesFrom id := mem_edgesFrom.mpr ⟨known, loop⟩
  rw [only, List.mem_singleton] at leaves
  exact onward (leaves ▸ target)

/-- A step whose only way out leads back to it leaves a gap towards itself. -/
theorem exists_stepGap (loop : flow.children id = [id]) :
    ∃ gap ∈ flow.stepGaps id, gap.target = id := by
  rw [children] at loop
  obtain ⟨leaving, only, target⟩ := List.map_eq_singleton_iff.mp loop
  have enters : leaving ∈ flow.edgesTo id := by
    have leaves : leaving ∈ flow.edgesFrom id := by simp [only]
    exact mem_edgesTo.mpr ⟨(mem_edgesFrom.mp leaves).1, target⟩
  exact ⟨⟨leaving, leaving.target, _⟩, mem_stepGaps.mpr ⟨leaving, only, enters, rfl, rfl⟩, target⟩

/-- Taking out a step clears exactly if the step's only way out does not lead back to it. -/
theorem clears_removeStep_iff (known : id ∈ flow.ids)
    (fresh : (StateT.run (flow.removeStep id) supply).1.FreshFor flow) :
    (StateT.run (flow.removeStep id) supply).1.Clears ↔ flow.children id ≠ [id] := by
  rw [removeStep] at fresh ⊢
  constructor
  · intro clears loop
    rw [Change.clears_iff_leads] at clears
    obtain ⟨gap, member, target⟩ := exists_stepGap loop
    -- The gap is closed by an edge that ends at the step.
    have ends : ∃ source, (StateT.run (flow.bridgeAll (flow.stepGaps id)) supply).1.Connects
        source id := by
      rcases (bridges_bridgeAll flow (flow.stepGaps id) supply).crosses gap member with
        direct | ⟨slot, -, -, onward⟩
      · exact ⟨_, target ▸ direct⟩
      · exact ⟨slot, target ▸ onward⟩
    obtain ⟨source, connects⟩ := ends
    exact (clears source id (leads_removeAndBridge.mpr (.inr connects))).2
      (List.mem_singleton.mpr rfl)
  · intro straight
    refine clears_removeAndBridge (fun other member => ?_) (fun gap member => ?_) fresh
    · exact ⟨member, List.mem_singleton.mp member ▸ known⟩
    · obtain ⟨source, target⟩ := stay_of_mem_stepGaps member straight
      exact ⟨by simpa using source, by simpa using target⟩

/-! ### A slot that a block fills -/

/-- Edges lead to and from a block in the place of a slot where they led to and from the slot, but
on to one place only. -/
theorem leads_fillWithBlock : (flow.fillWithBlock limits slot step).flow.Leads id child ↔
    (flow.without [slot.id]).Leads id child ∨ flow.Leads id slot.id ∧ child = step.head.id ∨
      (∃ edge ∈ step.edges, edge.source = id ∧ edge.target = child) ∨
      id = step.exit ∧ ∃ edge ∈ (flow.edgesFrom slot.id).take 1, edge.target = child := by
  have same : (flow.fillHead slot step.head).id = step.head.id := by
    rw [fillHead]
    split <;> rfl
  rw [fillWithBlock, leads_settle, Leads, edges_pinHead, same]
  refine leads_append.trans (or_congr_right ?_)
  simp only [List.mem_append, or_and_right, exists_or, or_assoc, List.mem_map]
  refine or_congr ?_ (or_congr_right ?_)
  · constructor
    · rintro ⟨_, ⟨edge, enters, rfl⟩, rfl, rfl⟩
      obtain ⟨known, target⟩ := mem_edgesTo.mp enters
      exact ⟨⟨edge, known, rfl, target⟩, rfl⟩
    · rintro ⟨⟨edge, known, rfl, target⟩, rfl⟩
      exact ⟨_, ⟨edge, mem_edgesTo.mpr ⟨known, target⟩, rfl⟩, rfl, rfl⟩
  · constructor
    · rintro ⟨_, ⟨edge, leaves, rfl⟩, rfl, rfl⟩
      exact ⟨rfl, edge, leaves, rfl⟩
    · rintro ⟨rfl, edge, leaves, rfl⟩
      exact ⟨_, ⟨edge, leaves, rfl⟩, rfl, rfl⟩

/-- A block in the place of a slot clears exactly if the slot has no edge to itself. -/
theorem clears_fillWithBlock_iff (forms : step.Forms item) (known : slot.id ∈ flow.ids)
    (fresh : (flow.fillWithBlock limits slot step).FreshFor flow) :
    (flow.fillWithBlock limits slot step).Clears ↔ slot.id ∉ flow.children slot.id := by
  obtain ⟨-, unused⟩ := fresh_of_forms forms fresh rfl
  have removed : (flow.fillWithBlock limits slot step).removed = [slot.id] := rfl
  have new : ∀ {id}, id ∈ item.ids → id ∉ [slot.id] := fun inside same =>
    unused _ inside (.inl (List.mem_singleton.mp same ▸ known))
  rw [Change.clears_iff_leads, removed, ← leads_iff_mem_children]
  constructor
  · intro clears loop
    exact (clears slot.id _ (leads_fillWithBlock.mpr (.inr (.inl ⟨loop, rfl⟩)))).1
      (List.mem_singleton.mpr rfl)
  · intro straight id child leads
    rcases leads_fillWithBlock.mp leads with
      kept | ⟨into, rfl⟩ | ⟨edge, member, rfl, rfl⟩ | ⟨rfl, edge, leaves, rfl⟩
    · exact (leads_without.mp kept).2
    · refine ⟨fun same => straight ?_, new (forms.first ▸ item.first_mem_ids)⟩
      rwa [List.mem_singleton.mp same] at into
    · -- The edges of the block join nodes of the block.
      have inner : edge.wire ∈ item.wires := forms.wires ▸ List.mem_map_of_mem member
      exact ⟨new (Item.source_mem_ids inner), new (Item.target_mem_ids inner)⟩
    · refine ⟨new (forms.last ▸ item.last_mem_ids), fun same => straight ?_⟩
      obtain ⟨known, source⟩ := mem_edgesFrom.mp (List.mem_of_mem_take leaves)
      exact ⟨edge, known, source, List.mem_singleton.mp same⟩

end Flow

namespace Edit

variable {flow : Flow} {limits : Limits} {supply rest : Supply} {change : Change} {edit : Edit}
  {id : NodeId} {kind : String} {label : Option String} {params : Option Json.Members}
  {branches : Option (List String)} {names : List String}

theorem clears_delete_iff (done : (delete id).run flow limits supply = .ok (change, rest))
    (fresh : change.FreshFor flow) :
    change.Clears ↔ change.removed = [] ∨ ¬ (delete id).Circles flow := by
  obtain ⟨node, found, ⟨-, rfl⟩ | ⟨-, opens, merge, -, apart, rfl⟩ | ⟨-, closed, deletes⟩⟩ :=
    delete_cases done
  · exact iff_of_true (Change.clears_of_removed_eq_nil rfl) (.inl rfl)
  · refine iff_of_true (Flow.clears_removeBlock apart fresh) (.inr fun circles => ?_)
    rw [Circles, Flow.isHead_of_node? found, opens] at circles
    cases circles.1
  · obtain rfl := Flow.id_of_node?_eq_some found
    cases deletes with
    | join joins filled => exact iff_of_true (Change.clears_of_removed_eq_nil rfl) (.inl rfl)
    | slot lone filled => exact iff_of_true (Change.clears_of_removed_eq_nil rfl) (.inl rfl)
    | gone closes =>
      have gone : (StateT.run (flow.removeStep node.id) supply).1.removed = [node.id] := rfl
      rw [Flow.clears_removeStep_iff (Flow.mem_ids_of_node? found) fresh, gone, Circles,
        Flow.isHead_of_node? found, closed]
      simp

theorem clears_fill_iff
    (done : (fill id kind label params branches).run flow limits supply = .ok (change, rest))
    (fresh : change.FreshFor flow) :
    change.Clears ↔ change.removed = [] ∨ ¬ (fill id kind label params branches).Circles flow := by
  obtain ⟨slot, found, -, ⟨-, rfl⟩ | ⟨block, -, -, rfl⟩⟩ := fill_cases done
  · exact iff_of_true (Change.clears_of_removed_eq_nil rfl) (.inl rfl)
  · obtain rfl := Flow.id_of_node?_eq_some found
    obtain ⟨names, head, merge, slots, made, some', full⟩ :=
      NewStep.makeBlock_cases block label params branches supply
    rw [made] at fresh ⊢
    rw [Flow.clears_fillWithBlock_iff (NewStep.forms_block some' full)
      (Flow.mem_ids_of_node? found) fresh, Circles]
    exact ⟨.inr, fun h => h.resolve_left (List.cons_ne_nil _ _)⟩

theorem clears_setBranches
    (done : (setBranches id names).run flow limits supply = .ok (change, rest)) :
    change.Clears := by
  obtain ⟨head, merge, -, -, -, -, slots, -, rfl⟩ := setBranches_cases done
  intro edge member
  -- The slots that are cut off go last, with all edges at them.
  obtain ⟨-, source, target⟩ := Flow.mem_edges_without.mp member
  have off : ∀ {id}, id ∉ flow.surplusSlots head.id names →
      id ∉ flow.idsIn (flow.surplusSlots head.id names) := fun out inside =>
    out (by simpa using (List.mem_filter.mp inside).2)
  exact ⟨off source, off target⟩

/-- After an edit that is made, no edge starts or ends at a node that was removed, unless the edit
circles: the removed node has an edge to itself, and a block fills it or it is a step from which no
other edge leads on. -/
theorem clears_iff (done : edit.run flow limits supply = .ok (change, rest))
    (fresh : change.FreshFor flow) :
    change.Clears ↔ change.removed = [] ∨ ¬ edit.Circles flow := by
  cases edit with
  | delete id => exact clears_delete_iff done fresh
  | swap id kind label params =>
    obtain ⟨node, -, -, rfl⟩ := swap_cases done
    exact iff_of_true (Change.clears_of_removed_eq_nil rfl) (.inl rfl)
  | insert source target kind label branches =>
    obtain ⟨edge, -, rfl⟩ := insert_cases done
    exact iff_of_true (Change.clears_of_removed_eq_nil rfl) (.inl rfl)
  | fill id kind label params branches => exact clears_fill_iff done fresh
  | setBranches id names => exact iff_of_true (clears_setBranches done) (.inr fun circles => circles)

/-- A step and a slot that lead to each other, and a slot with an edge to itself. -/
def whirl : Flow where
  nodes := [{ id := "step", kind := some "action" }, .branchPlaceholder "turn" "A",
    .branchPlaceholder "stuck" "B"]
  edges := [.connect "step" "turn" none, .connect "turn" "step" none,
    .connect "stuck" "stuck" none]

/-- The slot on the way round is taken out. -/
def whirlTurned : Change where
  flow := { whirl with
    nodes := [{ id := "step", kind := some "action" }, .branchPlaceholder "stuck" "B"]
    edges := [.connect "stuck" "stuck" none, .connect "step" "step" none] }
  removed := ["turn"]

/-- The slot with an edge to itself is taken out. -/
def whirlStopped : Change where
  flow := { whirl with
    nodes := [{ id := "step", kind := some "action" }, .branchPlaceholder "turn" "A"]
    edges := [.connect "step" "turn" none, .connect "turn" "step" none,
      .connect "stuck" "stuck" none] }
  removed := ["stuck"]

/-- A node on a way round is taken out with the edges at it. -/
theorem clears_iff_whirl : whirlTurned.removed = ["turn"] ∧ whirlTurned.Clears := by
  have done : (delete "turn").run whirl {} .numbered = .ok (whirlTurned, .numbered) := rfl
  have fresh : whirlTurned.FreshFor whirl := ⟨by decide, by decide⟩
  exact ⟨rfl, (clears_iff done fresh).mpr (.inr (by decide +kernel))⟩

/-- A node with an edge to itself is taken out, and an edge at it is put in. -/
theorem not_clears_whirl :
    (delete "stuck").run whirl {} .numbered = .ok (whirlStopped, .numbered) ∧
      whirlStopped.FreshFor whirl ∧ whirlStopped.removed = ["stuck"] ∧ ¬ whirlStopped.Clears :=
  ⟨rfl, ⟨by decide, by decide⟩, rfl, by decide +kernel⟩

end Edit

end Workflow
