import Workflow.Proofs.Editing.Form
import Workflow.Proofs.Editing.Outcome
import Workflow.Proofs.Editing.Replacement
import Workflow.Proofs.Service.Reading

/-!
# Edits keep flows legible

An edit leaves the further members of the nodes and edges of a flow as they are, and what it puts
in has none. So what an edit makes of a flow that was read can be written and read again.

## Main definitions

* `Patch.Legible`, `NewStep.Legible` — what is put in has no further members among the fields

## Main results

* `Edit.legible` — an edit that is made leaves a legible flow legible
-/

namespace Workflow

/-! ### What edits put in -/

theorem Edge.legible_connect (source target : NodeId) (branch : Option String) :
    (Edge.connect source target branch).Legible := by
  intro member inside
  cases inside

/-- A node without further members is legible. -/
theorem Node.legible_of_bare {node : Node} (bare : node.extras = [])
    (content : node.content.extras = []) : node.Legible := by
  constructor
  · intro member inside
    rw [bare] at inside
    cases inside
  · intro member inside
    rw [content] at inside
    cases inside

/-- The further members of the nodes and edges of a patch have no wire name of a field. -/
structure Patch.Legible (patch : Patch) : Prop where
  nodes : ∀ node ∈ patch.nodes, node.Legible
  edges : ∀ edge ∈ patch.edges, edge.Legible

theorem Patch.Legible.append {first second : Patch} (h : first.Legible) (hsecond : second.Legible) :
    (first.append second).Legible where
  nodes node member := (List.mem_append.mp member).elim (h.nodes node) (hsecond.nodes node)
  edges edge member := (List.mem_append.mp member).elim (h.edges edge) (hsecond.edges edge)

/-- The further members of the nodes and edges of a new step have no wire name of a field. -/
structure NewStep.Legible (step : NewStep) : Prop where
  nodes : ∀ node ∈ step.nodes, node.Legible
  edges : ∀ edge ∈ step.edges, edge.Legible

namespace NewStep

variable {step : NewStep} {kind : BlockKind} {label : Option String}
  {params : Option Json.Members} {names : List String} {head merge : NodeId} {slots : List NodeId}

/-- The nodes and edges of a block have no further members. -/
theorem legible_block : (block kind label params names head merge slots).Legible := by
  constructor
  · intro node member
    rcases mem_nodes_block.mp member with rfl | ⟨arm, -, rfl⟩ | rfl
    · refine Node.legible_of_bare rfl ?_
      by_cases parallel : kind = .parallel <;> simp [blockHead, Content.withBranches, parallel]
    · exact Node.legible_of_bare rfl rfl
    · exact Node.legible_of_bare rfl rfl
  · intro edge member
    rcases List.mem_append.mp member with member | member
    · obtain ⟨arm, -, two⟩ := List.mem_flatMap.mp member
      rcases List.mem_cons.mp two with rfl | two
      · exact Edge.legible_connect _ _ _
      · obtain rfl := List.mem_singleton.mp two
        exact Edge.legible_connect _ _ _
    · cases kind with
      | loop =>
        obtain rfl := List.mem_singleton.mp member
        exact Edge.legible_connect _ _ _
      | _ => cases member

/-- The nodes and edges of a new step have no further members. -/
theorem legible_make (name : String) (label : Option String) (params : Option Json.Members)
    (branches : Option (List String)) (supply : Supply) :
    (StateT.run (make name label params branches) supply).1.Legible := by
  obtain ⟨new, made, -⟩ | ⟨kind, names, head, merge, slots, made, -, -⟩ :=
    make_cases name label params branches supply
  · rw [made]
    constructor
    · intro node member
      obtain rfl := List.mem_singleton.mp member
      exact Node.legible_of_bare rfl rfl
    · intro edge member
      cases member
  · rw [made]
    exact legible_block

end NewStep

namespace Flow

variable {flow base : Flow} {node head slot : Node} {patch : Patch} {removed told : List NodeId}
  {limits : Limits} {supply : Supply} {gaps : List Gap} {rename : NodeId → NodeId}

theorem legible_bridge (flow : Flow) (gap : Gap) (supply : Supply) :
    (StateT.run (flow.bridge gap) supply).1.Legible := by
  cases needs : flow.slotHead? gap with
  | none =>
    rw [run_bridge_of_none needs]
    refine ⟨by simp, ?_⟩
    intro edge member
    obtain rfl := List.mem_singleton.mp member
    exact Edge.legible_connect _ _ _
  | some head =>
    rw [run_bridge_of_some needs]
    constructor
    · intro node member
      obtain rfl := List.mem_singleton.mp member
      exact Node.legible_of_bare rfl rfl
    · intro edge member
      rcases List.mem_cons.mp member with rfl | member
      · exact Edge.legible_connect _ _ _
      · obtain rfl := List.mem_singleton.mp member
        exact Edge.legible_connect _ _ _

theorem legible_bridgeAll (flow : Flow) (gaps : List Gap) (supply : Supply) :
    (StateT.run (flow.bridgeAll gaps) supply).1.Legible := by
  induction gaps generalizing supply with
  | nil =>
    have empty : (StateT.run (flow.bridgeAll []) supply).1 = {} := rfl
    rw [empty]
    exact ⟨by simp, by simp⟩
  | cons gap gaps ih =>
    rw [run_bridgeAll_cons]
    exact (legible_bridge flow gap supply).append (ih _)

theorem extras_pinMerge (content : Content) :
    (flow.pinMerge limits node content).extras = content.extras := by
  rw [pinMerge]
  split
  · split <;> rfl
  · rfl

theorem legible_newBranches (merge opener : NodeId) (names : List String) (slots : List NodeId) :
    (newBranches opener merge names slots).Legible := by
  constructor
  · intro node member
    obtain ⟨arm, -, rfl⟩ := List.mem_map.mp member
    exact Node.legible_of_bare rfl rfl
  · intro edge member
    obtain ⟨arm, -, two⟩ := List.mem_flatMap.mp member
    rcases List.mem_cons.mp two with rfl | two
    · exact Edge.legible_connect _ _ _
    · obtain rfl := List.mem_singleton.mp two
      exact Edge.legible_connect _ _ _

/-! ### What edits leave -/

namespace Legible

variable (legible : flow.Legible)

include legible

theorem settle (rename : NodeId → NodeId) : (flow.settle rename).Legible := by
  refine ⟨?_, legible.edges⟩
  intro node member
  obtain ⟨before, inside, rfl⟩ := List.mem_map.mp member
  exact ⟨(legible.nodes before inside).extras, (legible.nodes before inside).content⟩

theorem without (removed : List NodeId) : (flow.without removed).Legible where
  nodes node member := legible.nodes node (mem_nodes_without.mp member).1
  edges edge member := legible.edges edge (mem_edges_without.mp member).1

theorem append (new : patch.Legible) : (flow.append patch).Legible where
  nodes node member := (List.mem_append.mp member).elim (legible.nodes node) (new.nodes node)
  edges edge member := (List.mem_append.mp member).elim (legible.edges edge) (new.edges edge)

theorem withNode (new : node.Legible) : (flow.withNode node).Legible := by
  refine ⟨?_, legible.edges⟩
  intro other member
  obtain ⟨before, inside, rfl⟩ := List.mem_map.mp member
  split
  · exact new
  · exact legible.nodes before inside

theorem pinHead (closed : Option NodeId) (merge : NodeId) : (flow.pinHead closed merge).Legible := by
  cases closed with
  | none => exact legible
  | some head =>
    refine ⟨?_, legible.edges⟩
    intro other member
    obtain ⟨before, inside, rfl⟩ := List.mem_map.mp member
    split
    · exact ⟨(legible.nodes before inside).extras, (legible.nodes before inside).content⟩
    · exact legible.nodes before inside

theorem cut (source target : NodeId) : (flow.cut source target).Legible where
  nodes := legible.nodes
  edges edge member := legible.edges edge (List.mem_of_mem_eraseP member)

theorem replaceNode (new : node.Legible) : (flow.replaceNode node).flow.Legible :=
  (legible.withNode new).settle id

theorem of_node? {id : NodeId} (found : flow.node? id = some node) : node.Legible :=
  legible.nodes node (mem_of_node?_eq_some found)

theorem removeAndBridge : (StateT.run (flow.removeAndBridge removed told gaps rename)
    supply).1.flow.Legible :=
  ((legible.without removed).append (legible_bridgeAll flow gaps supply)).settle rename

/-- The slot that gets a name is that of the flow before, whatever was relabelled. -/
theorem relabelSlot (same : base.Legible) (name : String) (edge : Edge) :
    (flow.relabelSlot base name edge).Legible := by
  rw [Flow.relabelSlot]
  split
  · rename_i slot found
    have old := legible.of_node? (Option.filter_eq_some_iff.mp found).1
    split
    · exact same
    · exact same.withNode ⟨old.extras, old.content⟩
  · exact same

theorem relabelSlots (id : NodeId) (names : List String) : (flow.relabelSlots id names).Legible := by
  rw [Flow.relabelSlots]
  refine List.foldlRecOn _ _ legible ?_
  intro base same arm _
  exact legible.relabelSlot same arm.1 arm.2

theorem renameBranches (id : NodeId) (names : List String) :
    ∀ edge ∈ Flow.renameBranches id names flow.edges, edge.Legible := by
  have renamed : ∀ edges : List Edge, (∀ edge ∈ edges, edge.Legible) →
      ∀ edge ∈ Flow.renameBranches id names edges, edge.Legible := by
    intro edges
    fun_induction Flow.renameBranches id names edges with
    | case1 => exact fun same => same
    | case2 edge rest starts ih => exact fun same => ih (List.forall_mem_cons.mp same).2
    | case3 edge rest starts name names ih =>
      intro same
      obtain ⟨first, rest⟩ := List.forall_mem_cons.mp same
      exact List.forall_mem_cons.mpr ⟨first, ih rest⟩
    | case4 names edge rest starts ih =>
      intro same
      obtain ⟨first, rest⟩ := List.forall_mem_cons.mp same
      exact List.forall_mem_cons.mpr ⟨first, ih rest⟩
  exact renamed flow.edges legible.edges

theorem withBranches {id merge : NodeId} {names : List String} {slots : List NodeId}
    (found : flow.node? id = some head) :
    (flow.withBranches head merge names slots).flow.Legible := by
  have renamed : Flow.Legible { flow.relabelSlots head.id names with
      edges := Flow.renameBranches head.id names flow.edges } :=
    ⟨(legible.relabelSlots head.id names).nodes, legible.renameBranches head.id names⟩
  have old := legible.of_node? found
  have named : (head.mapContent (Content.withBranches names)).Legible := ⟨old.extras, old.content⟩
  exact (((renamed.append (legible_newBranches merge head.id _ slots)).without _).withNode
    named).settle _

theorem splice {edge : Edge} {step : NewStep} (new : step.Legible) :
    (flow.splice edge step).flow.Legible := by
  rw [Flow.splice]
  refine ((legible.cut edge.source edge.target).append ?_).settle id
  refine ⟨new.nodes, ?_⟩
  intro other member
  rcases List.mem_cons.mp member with rfl | member
  · exact Edge.legible_connect _ _ _
  · rcases List.mem_append.mp member with inner | last
    · exact new.edges other inner
    · obtain rfl := List.mem_singleton.mp last
      exact Edge.legible_connect _ _ _

theorem fillWithBlock {step : NewStep} (new : step.Legible) :
    (flow.fillWithBlock limits slot step).flow.Legible := by
  refine (((legible.without [slot.id]).append ⟨?_, ?_⟩).pinHead _ _).settle _
  · intro node member
    rcases List.mem_cons.mp member with rfl | part
    · have head := new.nodes step.head List.mem_cons_self
      rw [fillHead]
      split
      · exact ⟨head.extras, head.content⟩
      · exact head
    · exact new.nodes node (List.mem_cons_of_mem _ part)
  · intro edge member
    rcases List.mem_append.mp member with member | onward
    · rcases List.mem_append.mp member with into | inner
      · obtain ⟨old, -, rfl⟩ := List.mem_map.mp into
        exact Edge.legible_connect _ _ _
      · exact new.edges edge inner
    · obtain ⟨old, -, rfl⟩ := List.mem_map.mp onward
      exact Edge.legible_connect _ _ _

end Legible

end Flow

namespace Edit

variable {flow : Flow} {limits : Limits} {supply rest : Supply} {change : Change} {edit : Edit}

/-- An edit that is made leaves a legible flow legible. -/
theorem legible (before : flow.Legible)
    (done : edit.run flow limits supply = .ok (change, rest)) : change.flow.Legible := by
  cases edit with
  | delete id =>
    obtain ⟨node, found, ⟨-, rfl⟩ | ⟨-, -, merge, -, -, rfl⟩ | ⟨-, -, deletes⟩⟩ := delete_cases done
    · have old := before.of_node? found
      exact before.replaceNode ⟨old.extras, Content.legible_empty⟩
    · exact before.removeAndBridge
    · have old := before.of_node? found
      cases deletes with
      | join joins filled => exact before.replaceNode ⟨old.extras, Content.legible_empty⟩
      | slot lone filled => exact before.replaceNode ⟨old.extras, old.content⟩
      | gone closes => exact before.removeAndBridge
  | swap id kind label params =>
    obtain ⟨node, found, -, rfl⟩ := swap_cases done
    have old := before.of_node? found
    refine before.replaceNode ⟨old.extras, ?_⟩
    rw [Content.Legible, Flow.extras_pinMerge]
    exact old.content
  | insert source target kind label branches =>
    obtain ⟨edge, -, rfl⟩ := insert_cases done
    exact before.splice (NewStep.legible_make kind label none branches supply)
  | fill id kind label params branches =>
    obtain ⟨slot, found, -, ⟨-, rfl⟩ | ⟨block, -, -, rfl⟩⟩ := fill_cases done
    · have old := before.of_node? found
      exact before.replaceNode ⟨old.extras, old.content⟩
    · obtain ⟨names, head, merge, slots, made, -, -⟩ :=
        NewStep.makeBlock_cases block label params branches supply
      rw [made]
      exact before.fillWithBlock NewStep.legible_block
  | setBranches id names =>
    obtain ⟨head, merge, found, -, -, -, slots, -, rfl⟩ := setBranches_cases done
    exact before.withBranches found

end Edit

end Workflow
