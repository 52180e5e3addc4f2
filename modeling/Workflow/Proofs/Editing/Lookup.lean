import Workflow.Edit.Fill
import Workflow.Proofs.Nesting.Nests

/-!
# Look-ups in an edited flow

What a flow has after nodes were taken out, put in or settled, told by what it had before.
Settling changes which merges are named, and nothing else that is looked up here.

## Main definitions

* `Flow.Mentions` — an identity occurs in a flow
* `Flow.NamesPresent` — the merges that nodes name are there
* `Change.FreshFor` — an edit used identities that the flow did not have
-/

namespace Workflow

/-- Settling changes no node that names no merge but one that is there and keeps its role. -/
theorem Node.settle_eq_self {node : Node} {rename : NodeId → NodeId} {alive : List NodeId}
    (h : ∀ merge, node.content.mergeNodeId = some merge → rename merge = merge ∧ merge ∈ alive) :
    node.settle rename alive = node := by
  have names : (node.content.mergeNodeId.map rename).filter (· ∈ alive) =
      node.content.mergeNodeId := by
    cases own : node.content.mergeNodeId with
    | none => rfl
    | some merge => simp [h merge own]
  rw [settle, mapContent]
  simp only [Content.withMerge, names]

namespace Flow

/-- An identity is that of a node, or an edge starts or ends there. -/
def Mentions (flow : Flow) (id : NodeId) : Prop :=
  id ∈ flow.ids ∨ ∃ edge ∈ flow.edges, edge.source = id ∨ edge.target = id

instance (flow : Flow) (id : NodeId) : Decidable (flow.Mentions id) :=
  inferInstanceAs (Decidable (_ ∨ _))

variable {flow other : Flow} {id child : NodeId} {patch : Patch} {removed : List NodeId}
  {rename : NodeId → NodeId} {node : Node} {wire : Wire}

theorem Leads.mentions_source (h : flow.Leads id child) : flow.Mentions id := by
  obtain ⟨edge, member, same, -⟩ := h
  exact .inr ⟨edge, member, .inl same⟩

theorem Leads.mentions_target (h : flow.Leads id child) : flow.Mentions child := by
  obtain ⟨edge, member, -, same⟩ := h
  exact .inr ⟨edge, member, .inr same⟩

theorem mem_ids_of_node? (found : flow.node? id = some node) : id ∈ flow.ids :=
  has_iff_mem_ids.mp (by simp [has, found])

theorem isHead_of_node? (found : flow.node? id = some node) : flow.isHead id = node.isHead := by
  rw [isHead, found, Option.any_some]

theorem isMerge_of_node? (found : flow.node? id = some node) :
    flow.isMerge id = node.isMerge := by
  rw [isMerge, found, Option.any_some]

theorem mem_ids_of_isHead (h : flow.isHead id = true) : id ∈ flow.ids := by
  cases found : flow.node? id with
  | none => simp [isHead, found] at h
  | some node => exact mem_ids_of_node? found

theorem mem_ids_of_isMerge (h : flow.isMerge id = true) : id ∈ flow.ids := by
  cases found : flow.node? id with
  | none => simp [isMerge, found] at h
  | some node => exact mem_ids_of_node? found

/-- What is no node of a flow plays the part of a plain step. -/
theorem plays_of_notMem_ids (h : id ∉ flow.ids) : flow.Plays id .step :=
  ⟨Bool.eq_false_iff.mpr fun opens => h (mem_ids_of_isHead opens),
    Bool.eq_false_iff.mpr fun joins => h (mem_ids_of_isMerge joins)⟩

/-- Where no merge is named, the search says which merge closes a block. -/
theorem merge?_of_unnamed (unnamed : ∀ node ∈ flow.nodes, node.content.mergeNodeId = none)
    (limits : Limits) (id : NodeId) : flow.merge? limits id = flow.searchMerge? limits id := by
  apply merge?_of_not_remembered
  rw [rememberedMerge?]
  cases found : flow.node? id with
  | none => rfl
  | some node =>
    rw [Option.bind_some, Content.rememberedMerge?, unnamed node (mem_of_node?_eq_some found)]
    rfl

theorem Plays.of_node? {role : Role} (found : flow.node? id = some node)
    (hhead : node.isHead = role.isHead) (hmerge : node.isMerge = role.isMerge) :
    flow.Plays id role :=
  ⟨(isHead_of_node? found).trans hhead, (isMerge_of_node? found).trans hmerge⟩

theorem isHead_congr (h : flow.node? id = other.node? id) : flow.isHead id = other.isHead id := by
  rw [isHead, isHead, h]

theorem isMerge_congr (h : flow.node? id = other.node? id) :
    flow.isMerge id = other.isMerge id := by
  rw [isMerge, isMerge, h]

/-- In a list of nodes with distinct identities, a node is found by its own. -/
theorem find?_eq_some_of_mem {nodes : List Node} (distinct : (nodes.map (·.id)).Nodup)
    (member : node ∈ nodes) : nodes.find? (·.id = node.id) = some node := by
  cases found : nodes.find? (·.id = node.id) with
  | none =>
    have missed := List.find?_eq_none.mp found node member
    simp at missed
  | some first =>
    have same : first.id = node.id := by simpa using List.find?_some found
    rw [List.inj_on_of_nodup_map distinct (List.mem_of_find?_eq_some found) member same]

theorem node?_eq_some_of_mem (distinct : flow.ids.Nodup) (member : node ∈ flow.nodes) :
    flow.node? node.id = some node :=
  find?_eq_some_of_mem distinct member

/-! ### Settling -/

@[simp] theorem node?_settle (flow : Flow) (rename : NodeId → NodeId) (id : NodeId) :
    (flow.settle rename).node? id = (flow.node? id).map (Node.settle rename flow.ids) := by
  simp only [node?, settle, List.find?_map, Function.comp_def, Node.id_settle]
  rfl

@[simp] theorem isHead_settle (flow : Flow) (rename : NodeId → NodeId) (id : NodeId) :
    (flow.settle rename).isHead id = flow.isHead id := by
  rw [isHead, isHead, node?_settle]
  cases flow.node? id <;> rfl

@[simp] theorem isMerge_settle (flow : Flow) (rename : NodeId → NodeId) (id : NodeId) :
    (flow.settle rename).isMerge id = flow.isMerge id := by
  rw [isMerge, isMerge, node?_settle]
  cases flow.node? id <;> rfl

@[simp] theorem wires_settle (flow : Flow) (rename : NodeId → NodeId) :
    (flow.settle rename).wires = flow.wires := rfl

@[simp] theorem leads_settle : (flow.settle rename).Leads id child ↔ flow.Leads id child :=
  Iff.rfl

theorem nests_settle {line : Line} : (flow.settle rename).Nests line ↔ flow.Nests line := by
  constructor
  · rintro ⟨distinct, ids, wires, plays, forked⟩
    simp only [ids_settle, wires_settle, Plays, isHead_settle, isMerge_settle] at *
    exact ⟨distinct, ids, wires, plays, forked⟩
  · -- Settling leaves the identities, the edges and the roles as they are.
    rintro ⟨distinct, ids, wires, plays, forked⟩
    refine ⟨?_, ?_, wires, ?_, forked⟩
    · rwa [ids_settle]
    · rwa [ids_settle]
    · simpa only [Plays, isHead_settle, isMerge_settle] using plays

/-- Settling names no merge that was not named before. -/
theorem NamesOwn.settle {line : Line} (named : flow.NamesOwn line) :
    (flow.settle fun merge => merge).NamesOwn line := by
  intro node member merge names
  obtain ⟨before, inside, rfl⟩ := List.mem_map.mp member
  obtain ⟨own, known, rfl⟩ := Option.map_eq_some_iff.mp (Option.filter_eq_some_iff.mp names).1
  exact named before inside own known

/-- A flow that is the graph of a sequence, and in which heads name their own merges, is
settled. -/
theorem settle_eq_self {line : Line} (nests : flow.Nests line) (named : flow.NamesOwn line) :
    flow.settle (fun merge => merge) = flow := by
  -- Each merge that is named closes a block, so it is there.
  have same : ∀ node ∈ flow.nodes, node.settle (fun merge => merge) flow.ids = node := by
    intro node member
    apply Node.settle_eq_self
    intro merge names
    obtain ⟨block, inside, -, rfl⟩ := named node member merge names
    exact ⟨rfl, nests.ids.mem_iff.mpr (Line.mem_ids_of_mem_blocks inside).2⟩
  have nodes : flow.nodes.map (Node.settle (fun merge => merge) flow.ids) = flow.nodes :=
    (List.map_congr_left same).trans (List.map_id' flow.nodes)
  rw [Flow.settle, nodes]

/-- Each merge that a node names is a node of the flow. -/
def NamesPresent (flow : Flow) : Prop :=
  ∀ node ∈ flow.nodes, ∀ merge ∈ node.content.mergeNodeId, merge ∈ flow.ids

instance (flow : Flow) : Decidable flow.NamesPresent :=
  inferInstanceAs (Decidable (∀ _ ∈ _, ∀ _ ∈ _, _))

/-- A flow is settled if the merges that its nodes name are there. -/
theorem NamesPresent.settle_eq_self (present : flow.NamesPresent) :
    flow.settle (fun merge => merge) = flow := by
  have same : ∀ node ∈ flow.nodes, node.settle (fun merge => merge) flow.ids = node :=
    fun node member => Node.settle_eq_self fun merge names => ⟨rfl, present node member merge names⟩
  rw [Flow.settle, List.map_congr_left same, List.map_id']

/-! ### Naming a merge -/

theorem node?_pinHead (flow : Flow) (closed : Option NodeId) (merge id : NodeId) :
    (flow.pinHead closed merge).node? id = (flow.node? id).map fun node =>
      if some node.id = closed then node.mapContent (Content.withMerge (some merge)) else node := by
  cases closed with
  | none => simp [pinHead]
  | some head =>
    have same : ∀ node : Node, (if node.id = head then
        node.mapContent (Content.withMerge (some merge)) else node).id = node.id := by
      intro node
      split <;> rfl
    simp only [pinHead, node?, List.find?_map, Function.comp_def, same, Option.some.injEq]

@[simp] theorem ids_pinHead (flow : Flow) (closed : Option NodeId) (merge : NodeId) :
    (flow.pinHead closed merge).ids = flow.ids := by
  cases closed with
  | none => rfl
  | some head =>
    simp only [pinHead, ids, List.map_map]
    refine List.map_congr_left fun node _ => ?_
    by_cases same : node.id = head <;> simp [same]

@[simp] theorem edges_pinHead (flow : Flow) (closed : Option NodeId) (merge : NodeId) :
    (flow.pinHead closed merge).edges = flow.edges := by
  cases closed <;> rfl

/-! ### Putting in -/

theorem node?_append (flow : Flow) (patch : Patch) (id : NodeId) :
    (flow.append patch).node? id = (flow.node? id).or (patch.nodes.find? (·.id = id)) := by
  simp [node?, append, List.find?_append]

theorem node?_append_of_notMem (h : id ∉ patch.nodes.map (·.id)) :
    (flow.append patch).node? id = flow.node? id := by
  have absent : patch.nodes.find? (·.id = id) = none := by
    rw [List.find?_eq_none]
    intro node member same
    exact h (by simpa using ⟨node, member, by simpa using same⟩)
  rw [node?_append, absent, Option.or_none]

theorem node?_append_of_mem (hflow : id ∉ flow.ids) :
    (flow.append patch).node? id = patch.nodes.find? (·.id = id) := by
  have absent : flow.node? id = none := by
    cases found : flow.node? id with
    | none => rfl
    | some node => exact absurd (mem_ids_of_node? found) hflow
  rw [node?_append, absent, Option.none_or]

@[simp] theorem wires_append (flow : Flow) (patch : Patch) :
    (flow.append patch).wires = flow.wires ++ patch.edges.map Edge.wire := by
  simp [wires]

theorem leads_append : (flow.append patch).Leads id child ↔
    flow.Leads id child ∨ ∃ edge ∈ patch.edges, edge.source = id ∧ edge.target = child := by
  simp only [Leads, edges_append, List.mem_append, or_and_right, exists_or]

/-- Merges that are named are there after a patch was put in, if its nodes name what is there or
comes with it. -/
theorem NamesPresent.append (present : flow.NamesPresent)
    (own : ∀ node ∈ patch.nodes, ∀ merge ∈ node.content.mergeNodeId,
      merge ∈ flow.ids ++ patch.nodes.map (·.id)) : (flow.append patch).NamesPresent := by
  intro node member merge names
  rw [ids_append]
  rcases List.mem_append.mp member with old | new
  · exact List.mem_append_left _ (present node old merge names)
  · exact own node new merge names

/-! ### Taking out -/

theorem node?_without (h : id ∉ removed) : (flow.without removed).node? id = flow.node? id := by
  rw [node?, node?, without, List.find?_filter]
  congr 1
  funext node
  by_cases same : node.id = id
  · simp [same, h]
  · simp [same]

theorem wires_without (flow : Flow) (removed : List NodeId) : (flow.without removed).wires =
    flow.wires.filter fun wire => wire.source ∉ removed ∧ wire.target ∉ removed := by
  rw [wires, wires, without, List.filter_map]
  rfl

theorem leads_without : (flow.without removed).Leads id child ↔
    flow.Leads id child ∧ id ∉ removed ∧ child ∉ removed := by
  constructor
  · rintro ⟨edge, member, rfl, rfl⟩
    obtain ⟨inside, kept⟩ := mem_edges_without.mp member
    exact ⟨⟨edge, inside, rfl, rfl⟩, kept⟩
  · rintro ⟨⟨edge, inside, rfl, rfl⟩, kept⟩
    exact ⟨edge, mem_edges_without.mpr ⟨inside, kept⟩, rfl, rfl⟩

/-- Nodes that are neither taken out nor put in keep their roles. -/
theorem roles_replaced (kept : id ∉ removed) (old : id ∉ patch.nodes.map (·.id)) :
    ((flow.without removed).append patch).isHead id = flow.isHead id ∧
      ((flow.without removed).append patch).isMerge id = flow.isMerge id := by
  have found : ((flow.without removed).append patch).node? id = flow.node? id :=
    (node?_append_of_notMem old).trans (node?_without kept)
  exact ⟨isHead_congr found, isMerge_congr found⟩

end Flow

@[simp] theorem Edge.wire_connect (source target : NodeId) (branch : Option String) :
    (Edge.connect source target branch).wire = ⟨source, target, branch⟩ := rfl

/-- The identities that an edit put in are distinct, and the flow before it had none of them. -/
structure Change.FreshFor (change : Change) (flow : Flow) : Prop where
  distinct : change.added.Nodup
  unused : ∀ id ∈ change.added, ¬ flow.Mentions id

instance (change : Change) (flow : Flow) : Decidable (change.FreshFor flow) :=
  decidable_of_iff (change.added.Nodup ∧ ∀ id ∈ change.added, ¬ flow.Mentions id)
    ⟨fun h => ⟨h.1, h.2⟩, fun h => ⟨h.distinct, h.unused⟩⟩

end Workflow
