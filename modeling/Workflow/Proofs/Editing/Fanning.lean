import Workflow.Proofs.Editing.Succession
import Workflow.Proofs.Editing.Trimming

/-!
# Where edges come together after an edit

A node gathers edges if it is a merge, or if two edges enter it. Whether it does depends on all
edges of a flow, so it is counted here what enters a node after an edit. What is there before an edit
plays no new role after it, and few edges enter what is new.

## Main definitions

* `Flow.Gathers` — edges come together at a node
* `Flow.Straight` — an edge leads from a head to such a node
* `Flow.Recasts` — the roles after an edit, told by those before it
* `NewStep.Fans` — no edge of a new step leads straight, but the one around a loop

## Main results

* `TakesIn.straight_cases` — edges that lead straight after a new step was put in
-/

namespace Workflow

namespace Flow

/-- A node at which edges come together: a merge, or one that is entered by two edges at least. -/
def Gathers (flow : Flow) (id : NodeId) : Prop :=
  id ∈ flow.ids ∧ (flow.isMerge id = true ∨ 1 < (flow.edgesTo id).length)

instance (flow : Flow) (id : NodeId) : Decidable (flow.Gathers id) :=
  inferInstanceAs (Decidable (_ ∧ _))

/-- An edge that leads from a head straight to a node at which edges come together. -/
structure Straight (flow : Flow) (edge : Edge) : Prop where
  mem : edge ∈ flow.edges
  opens : flow.isHead edge.source = true
  gathers : flow.Gathers edge.target

instance (flow : Flow) (edge : Edge) : Decidable (flow.Straight edge) :=
  decidable_of_iff (edge ∈ flow.edges ∧ flow.isHead edge.source = true ∧ flow.Gathers edge.target)
    ⟨fun ⟨mem, opens, gathers⟩ => ⟨mem, opens, gathers⟩, fun h => ⟨h.mem, h.opens, h.gathers⟩⟩

variable {flow after : Flow} {id : NodeId} {edge : Edge} {new : List Node} {change : Change}
  {touch : Node → Node} {rename : NodeId → NodeId} {step : NewStep}

theorem length_edgesTo (flow : Flow) (id : NodeId) :
    (flow.edgesTo id).length = flow.edges.countP (·.target = id) :=
  List.countP_eq_length_filter.symm

theorem mentions_source (member : edge ∈ flow.edges) : flow.Mentions edge.source :=
  .inr ⟨edge, member, .inl rfl⟩

theorem mentions_target (member : edge ∈ flow.edges) : flow.Mentions edge.target :=
  .inr ⟨edge, member, .inr rfl⟩

/-- No edge enters what does not occur in a flow. -/
theorem countP_target_eq_zero (unused : ¬ flow.Mentions id) :
    flow.edges.countP (·.target = id) = 0 :=
  List.countP_eq_zero.mpr fun _ member same =>
    unused (of_decide_eq_true same ▸ mentions_target member)

/-- Edges come together at a node that is a merge. -/
theorem gathers_of_node? {node : Node} (found : flow.node? id = some node)
    (joins : node.isMerge = true) : flow.Gathers id :=
  ⟨mem_ids_of_node? found, .inl ((isMerge_of_node? found).trans joins)⟩

/-! ### Roles after an edit -/

/-- The nodes of a result are those of the flow and new ones, and those of the flow are heads and
merges only if they were heads, and edges came together there. -/
structure Recasts (flow after : Flow) (new : List Node) : Prop where
  ids : ∀ {id}, id ∈ after.ids → id ∈ flow.ids ∨ id ∈ new.map (·.id)
  heads : ∀ {id}, after.isHead id = true →
    flow.isHead id = true ∨ ∃ node ∈ new, node.id = id ∧ node.isHead = true
  merges : ∀ {id}, after.isMerge id = true →
    flow.Gathers id ∨ ∃ node ∈ new, node.id = id ∧ node.isMerge = true
  unused : ∀ node ∈ new, ¬ flow.Mentions node.id

/-- Nodes that are retouched in their roles are recast. -/
theorem recasts_of_retouches (h : change.Retouches flow touch rename new)
    (fresh : change.FreshFor flow)
    (heads : ∀ node, flow.node? node.id = some node → (touch node).isHead = true →
      node.isHead = true)
    (merges : ∀ node, flow.node? node.id = some node → (touch node).isMerge = true →
      flow.Gathers node.id) : flow.Recasts change.flow new where
  ids member := by
    rw [h.ids_eq, h.added] at member
    exact (List.mem_append.mp member).imp_left fun kept => (List.mem_filter.mp kept).1
  heads opens := by
    obtain ⟨node, found, opens⟩ := (Option.any_eq_true _ _).mp opens
    rcases h.node?_cases found with ⟨before, known, -, rfl⟩ | ⟨before, put, same, rfl⟩
    · have same := id_of_node?_eq_some known
      exact .inl ((isHead_of_node? known).trans (heads before (same.symm ▸ known) opens))
    · exact .inr ⟨before, put, same, opens⟩
  merges joins := by
    obtain ⟨node, found, joins⟩ := (Option.any_eq_true _ _).mp joins
    rcases h.node?_cases found with ⟨before, known, -, rfl⟩ | ⟨before, put, same, rfl⟩
    · have same := id_of_node?_eq_some known
      exact .inl (same ▸ merges before (same.symm ▸ known) joins)
    · exact .inr ⟨before, put, same, joins⟩
  unused node put := fresh.unused node.id (h.added ▸ List.mem_map_of_mem put)

namespace Recasts

variable (recasts : flow.Recasts after new)
include recasts

theorem isHead_of_mentions (old : flow.Mentions id) (opens : after.isHead id = true) :
    flow.isHead id = true :=
  (recasts.heads opens).resolve_right fun ⟨node, put, same, _⟩ =>
    recasts.unused node put (same ▸ old)

/-- Where no more edges enter than before, edges come together only if they did before. -/
theorem gathers_of_mentions (old : flow.Mentions id)
    (few : (after.edgesTo id).length ≤ (flow.edgesTo id).length) (gathers : after.Gathers id) :
    flow.Gathers id := by
  obtain ⟨known, joins | more⟩ := gathers
  · exact (recasts.merges joins).resolve_right fun ⟨node, put, same, _⟩ =>
      recasts.unused node put (same ▸ old)
  · have there : id ∈ flow.ids := (recasts.ids known).resolve_right fun new => by
      obtain ⟨node, put, rfl⟩ := List.mem_map.mp new
      exact recasts.unused node put old
    exact ⟨there, .inr (Nat.lt_of_lt_of_le more few)⟩

/-- An edge that stays leads straight only if it did before, where no more edges enter. -/
theorem straight_of_mem (member : edge ∈ flow.edges)
    (few : (after.edgesTo edge.target).length ≤ (flow.edgesTo edge.target).length)
    (straight : after.Straight edge) : flow.Straight edge :=
  ⟨member, recasts.isHead_of_mentions (mentions_source member) straight.opens,
    recasts.gathers_of_mentions (mentions_target member) few straight.gathers⟩

/-- A new node that is no head is none in the result. -/
theorem isHead_eq_false (unused : ¬ flow.Mentions id)
    (closed : ∀ node ∈ new, node.id = id → node.isHead = false) : after.isHead id = false := by
  refine Bool.eq_false_iff.mpr fun opens => ?_
  rcases recasts.heads opens with old | ⟨node, put, same, opens⟩
  · exact unused (.inl (mem_ids_of_isHead old))
  · exact absurd opens (by simp [closed node put same])

/-- At a new node that is no merge, and that one edge enters at most, no edges come together. -/
theorem not_gathers (unused : ¬ flow.Mentions id)
    (plain : ∀ node ∈ new, node.id = id → node.isMerge = false)
    (lone : (after.edgesTo id).length ≤ 1) : ¬ after.Gathers id := by
  rintro ⟨-, joins | more⟩
  · rcases recasts.merges joins with old | ⟨node, put, same, joins⟩
    · exact unused (.inl old.1)
    · exact absurd joins (by simp [plain node put same])
  · omega

end Recasts

end Flow

/-! ### New steps -/

/-- Edges that lead from one node through slots to another. -/
theorem countP_target_ladder {α : Type} (rungs : List α) (slot : α → NodeId)
    (branch : α → Option String) (head merge id : NodeId) :
    (rungs.flatMap fun rung => [Edge.connect head (slot rung) (branch rung),
      Edge.connect (slot rung) merge none]).countP (·.target = id) =
      (rungs.map slot).count id + if merge = id then rungs.length else 0 := by
  induction rungs with
  | nil => simp
  | cons rung rungs ih =>
    rw [List.flatMap_cons, List.countP_append, ih]
    by_cases here : merge = id <;> by_cases there : slot rung = id <;>
      simp [Edge.connect, here, there] <;> omega

namespace NewStep

/-- A node of a step that opens no block. -/
def Closed (step : NewStep) (id : NodeId) : Prop :=
  id ∈ step.nodes.map (·.id) ∧ ∀ node ∈ step.nodes, node.id = id → node.isHead = false

/-- A node of a step, behind its head, at which no edges of the step come together. -/
structure Lone (step : NewStep) (id : NodeId) : Prop where
  mem : id ∈ step.nodes.map (·.id)
  behind : id ≠ step.head.id
  plain : ∀ node ∈ step.parts, node.id = id → node.isMerge = false
  single : step.edges.countP (·.target = id) ≤ 1

/-- No edge of a step leads from a head to where edges come together, but the one around a loop, and
no edge of it leads to its head. -/
structure Fans (step : NewStep) : Prop where
  inner : ∀ edge ∈ step.edges,
    edge.branch = some Branch.loopBypass ∨ step.Closed edge.source ∨ step.Lone edge.target
  targets : ∀ edge ∈ step.edges, edge.target ∈ step.nodes.map (·.id) ∧ edge.target ≠ step.head.id
  exit : step.Closed step.exit
  plain : step.head.isMerge = false

/-- No edge of a step enters its head. -/
theorem Fans.countP_target_head {step : NewStep} (fans : step.Fans) :
    step.edges.countP (·.target = step.head.id) = 0 :=
  List.countP_eq_zero.mpr fun edge member same =>
    (fans.targets edge member).2 (of_decide_eq_true same)

variable {kind : BlockKind} {name : String} {label : Option String} {params : Option Json.Members}
  {names : List String} {head merge id : NodeId} {slots : List NodeId}
  {branches : Option (List String)} {supply : Supply}

theorem fans_plain (h : BlockKind.ofName? name = none) : (plain name label params id).Fans where
  inner edge member := by cases member
  targets edge member := by cases member
  exit := by
    refine ⟨List.mem_singleton.mpr rfl, fun node member _ => ?_⟩
    obtain rfl := List.mem_singleton.mp member
    simp [plain, Node.isHead, Node.blockKind?, h]
  plain := rfl

/-- An edge of a new block leads around its body, into a slot, or from a slot to the merge. -/
theorem mem_edges_block {edge : Edge}
    (member : edge ∈ (block kind label params names head merge slots).edges) :
    (edge.branch = some Branch.loopBypass ∧ edge.target = merge) ∨
      (∃ slot ∈ ((kind.arms names).zip slots).map (·.2), edge.target = slot) ∨
      ∃ slot ∈ ((kind.arms names).zip slots).map (·.2), edge.source = slot ∧ edge.target = merge := by
  rcases List.mem_append.mp member with rung | around
  · obtain ⟨arm, known, two⟩ := List.mem_flatMap.mp rung
    have inside : arm.2 ∈ ((kind.arms names).zip slots).map (·.2) := List.mem_map_of_mem known
    rcases List.mem_cons.mp two with rfl | two
    · exact .inr (.inl ⟨arm.2, inside, rfl⟩)
    · obtain rfl := List.mem_singleton.mp two
      exact .inr (.inr ⟨arm.2, inside, rfl, rfl⟩)
  · cases kind with
    | condition | parallel => cases around
    | loop =>
      obtain rfl := List.mem_singleton.mp around
      exact .inl ⟨rfl, rfl⟩

section Block

variable (distinct : ((block kind label params names head merge slots).nodes.map (·.id)).Nodup)
include distinct

/-- A slot of a new block, or its merge, opens no block. -/
theorem closed_block (member : id ∈ ((kind.arms names).zip slots).map (·.2) ++ [merge]) :
    (block kind label params names head merge slots).Closed id := by
  refine ⟨ids_block ▸ List.mem_cons_of_mem _ member, fun node inside same => ?_⟩
  rw [ids_block] at distinct
  rcases mem_nodes_block.mp inside with rfl | ⟨arm, -, rfl⟩ | rfl
  · have here : head = id := same
    exact absurd (here ▸ member) (List.nodup_cons.mp distinct).1
  · rfl
  · rfl

/-- The only edge of a new block that enters a slot comes from the head. -/
theorem lone_block (member : id ∈ ((kind.arms names).zip slots).map (·.2)) :
    (block kind label params names head merge slots).Lone id := by
  rw [ids_block] at distinct
  obtain ⟨first, rest⟩ := List.nodup_cons.mp distinct
  obtain ⟨apart, -, off⟩ := List.nodup_append.mp rest
  have short : merge ≠ id := fun same => off id member merge (List.mem_singleton.mpr rfl) same.symm
  have behind : id ≠ head := fun same => first (same ▸ List.mem_append_left _ member)
  refine ⟨ids_block ▸ List.mem_cons_of_mem _ (List.mem_append_left _ member), behind,
    fun node part same => ?_, ?_⟩
  · rcases List.mem_append.mp part with slot | last
    · obtain ⟨arm, -, rfl⟩ := List.mem_map.mp slot
      rfl
    · obtain rfl := List.mem_singleton.mp last
      exact absurd same short
  · have bypass : (kind.bypass head merge).countP (·.target = id) = 0 := by
      cases kind <;> simp [BlockKind.bypass, Edge.connect, short]
    have rungs := countP_target_ladder ((kind.arms names).zip slots) (·.2) (some ·.1.branch)
      head merge id
    rw [if_neg short, List.count_eq_one_of_mem apart member] at rungs
    change (List.flatMap _ _ ++ _).countP _ ≤ 1
    rw [List.countP_append, bypass]
    exact Nat.le_of_eq rungs

theorem fans_block : (block kind label params names head merge slots).Fans := by
  have final : merge ∈ ((kind.arms names).zip slots).map (·.2) ++ [merge] :=
    List.mem_append_right _ (List.mem_singleton.mpr rfl)
  have behind : (block kind label params names head merge slots).Closed merge ∧ merge ≠ head := by
    refine ⟨closed_block distinct final, fun same => ?_⟩
    rw [ids_block] at distinct
    exact (List.nodup_cons.mp distinct).1 (same ▸ final)
  refine ⟨fun edge member => ?_, fun edge member => ?_, behind.1, isMerge_blockHead⟩
  · rcases mem_edges_block member with ⟨around, -⟩ | ⟨slot, inside, rfl⟩ | ⟨slot, inside, rfl, -⟩
    · exact .inl around
    · exact .inr (.inr (lone_block distinct inside))
    · exact .inr (.inl (closed_block distinct (List.mem_append_left _ inside)))
  · rcases mem_edges_block member with ⟨-, rfl⟩ | ⟨slot, inside, rfl⟩ | ⟨slot, -, -, rfl⟩
    · exact ⟨behind.1.1, behind.2⟩
    · exact ⟨(lone_block distinct inside).mem, (lone_block distinct inside).behind⟩
    · exact ⟨behind.1.1, behind.2⟩

end Block

theorem fans_make
    (distinct : ((StateT.run (make name label params branches) supply).1.nodes.map (·.id)).Nodup) :
    (StateT.run (make name label params branches) supply).1.Fans := by
  obtain ⟨id, made, other⟩ | ⟨kind, names, head, merge, slots, made, -, -⟩ :=
    make_cases name label params branches supply
  · rw [made]
    exact fans_plain other
  · rw [made] at distinct ⊢
    exact fans_block distinct

end NewStep

namespace Flow

variable {flow after : Flow} {new : List Node} {step : NewStep} {edge old : Edge} {slot : Node}
  {limits : Limits} {source target : NodeId}

/-- A new step was put into a flow. It is entered at its head and left at its exit, and no more
edges enter an old node than before. -/
structure TakesIn (flow after : Flow) (new : List Node) (step : NewStep) : Prop
    extends flow.Recasts after new where
  parts : ∀ node ∈ new, ∃ part ∈ step.nodes, part.id = node.id ∧ part.isHead = node.isHead ∧
    (node.id ≠ step.head.id → part ∈ step.parts ∧ part.isMerge = node.isMerge)
  apart : ∀ id ∈ step.nodes.map (·.id), ¬ flow.Mentions id
  edges_cases : ∀ edge ∈ after.edges,
    edge ∈ flow.edges ∨ edge.target = step.head.id ∨ edge ∈ step.edges ∨ edge.source = step.exit
  few : ∀ id, flow.Mentions id → (after.edgesTo id).length ≤ (flow.edgesTo id).length
  inside : ∀ id ∈ step.nodes.map (·.id), id ≠ step.head.id →
    (after.edgesTo id).length ≤ step.edges.countP (·.target = id)

namespace TakesIn

variable (takes : flow.TakesIn after new step)
include takes

theorem isHead_of_closed {id : NodeId} (closed : step.Closed id) : after.isHead id = false := by
  refine takes.isHead_eq_false (takes.apart id closed.1) fun node put same => ?_
  obtain ⟨part, member, here, sameHead, -⟩ := takes.parts node put
  rw [← sameHead]
  exact closed.2 part member (here.trans same)

theorem not_gathers_of_lone {id : NodeId} (lone : step.Lone id) : ¬ after.Gathers id := by
  refine takes.not_gathers (takes.apart id lone.mem) (fun node put same => ?_)
    (Nat.le_trans (takes.inside id lone.mem lone.behind) lone.single)
  obtain ⟨part, -, here, -, other⟩ := takes.parts node put
  obtain ⟨behind, sameMerge⟩ := other (same ▸ lone.behind)
  rw [← sameMerge]
  exact lone.plain part behind (here.trans same)

/-- After a new step was put in, an edge that leads straight leads to the head of the step, around a
loop, or led straight before. -/
theorem straight_cases (fans : step.Fans) (straight : after.Straight edge) :
    edge.target = step.head.id ∨ edge.branch = some Branch.loopBypass ∨ flow.Straight edge := by
  rcases takes.edges_cases edge straight.mem with known | into | inner | out
  · exact .inr (.inr (takes.straight_of_mem known
      (takes.few edge.target (mentions_target known)) straight))
  · exact .inl into
  · rcases fans.inner edge inner with around | closed | lone
    · exact .inr (.inl around)
    · exact absurd straight.opens (by simp [takes.isHead_of_closed closed])
    · exact absurd straight.gathers (takes.not_gathers_of_lone lone)
  · exact absurd straight.opens (by simp [out, takes.isHead_of_closed fans.exit])

end TakesIn

/-! ### A step in the place of an edge -/

/-- No edge of a new step enters an old node. -/
theorem countP_target_step (fans : step.Fans) {id : NodeId}
    (off : id ∉ step.nodes.map (·.id)) : step.edges.countP (·.target = id) = 0 :=
  List.countP_eq_zero.mpr fun _ inner same =>
    off (of_decide_eq_true same ▸ (fans.targets _ inner).1)

/-- The edge that is cut gives way to one from the exit of a new step, and one into its head is
new. -/
theorem countP_target_splice (found : flow.edge? source target = some old) (id : NodeId) :
    (flow.splice old step).flow.edges.countP (·.target = id) = flow.edges.countP (·.target = id) +
      (step.edges.countP (·.target = id) + if step.head.id = id then 1 else 0) := by
  obtain ⟨-, rfl, rfl⟩ := edge?_eq_some found
  rw [(edges_cut found).countP_eq]
  simp only [splice, edges_settle, edges_append, List.countP_append, List.countP_cons,
    List.countP_nil, Edge.connect, decide_eq_true_eq]
  omega

theorem takesIn_splice (found : flow.edge? source target = some old) (fans : step.Fans)
    (fresh : (flow.splice old step).FreshFor flow) :
    flow.TakesIn (flow.splice old step).flow step.nodes step := by
  refine ⟨recasts_of_retouches (flow.retouches_splice old step) fresh (fun _ _ opens => opens)
    fun node known joins => ?_, fun node put => ?_, fun id inside => fresh.unused id inside,
    fun edge member => ?_, fun id known => ?_, fun id inside behind => ?_⟩
  · exact gathers_of_node? known joins
  · exact ⟨node, put, rfl, rfl, fun behind =>
      ⟨(List.mem_cons.mp put).resolve_left fun head => behind (head ▸ rfl), rfl⟩⟩
  · rcases List.mem_append.mp member with kept | member
    · exact .inl (List.mem_of_mem_eraseP kept)
    · rcases List.mem_cons.mp member with rfl | member
      · exact .inr (.inl rfl)
      · rcases List.mem_append.mp member with inner | out
        · exact .inr (.inr (.inl inner))
        · obtain rfl := List.mem_singleton.mp out
          exact .inr (.inr (.inr rfl))
  · have off : id ∉ step.nodes.map (·.id) := fun inside => fresh.unused id inside known
    have behind : step.head.id ≠ id := fun same => off (same ▸ List.mem_cons_self)
    rw [length_edgesTo, length_edgesTo, countP_target_splice found, countP_target_step fans off,
      if_neg behind]
    exact Nat.le_refl _
  · rw [length_edgesTo, countP_target_splice found,
      countP_target_eq_zero (fresh.unused id inside), if_neg behind.symm]
    omega

/-! ### A block in the place of a slot -/

@[simp] theorem isHead_fillHead (flow : Flow) (slot head : Node) :
    (flow.fillHead slot head).isHead = head.isHead := by
  rw [fillHead]
  split <;> rfl

@[simp] theorem isHead_pin (closed : Option NodeId) (merge : NodeId) (node : Node) :
    (node.pin closed merge).isHead = node.isHead := by
  rw [Node.pin]
  split <;> rfl

@[simp] theorem isMerge_pin (closed : Option NodeId) (merge : NodeId) (node : Node) :
    (node.pin closed merge).isMerge = node.isMerge := by
  rw [Node.pin]
  split <;> rfl

/-- Edges into a node that do not touch a slot, and those that come from the slot. -/
theorem countP_without_add_le (flow : Flow) (slot id : NodeId) :
    (flow.without [slot]).edges.countP (·.target = id) +
      (flow.edgesFrom slot).countP (·.target = id) ≤ flow.edges.countP (·.target = id) := by
  have kept : (flow.without [slot]).edges.Sublist
      (flow.edges.filter fun edge => !decide (edge.source = slot)) := by
    rw [without]
    refine List.monotone_filter_right _ fun edge stays => ?_
    simp only [List.mem_singleton, decide_eq_true_eq] at stays
    simpa using stays.1
  rw [List.countP_eq_countP_filter_add flow.edges _ (·.source = slot), Nat.add_comm]
  exact Nat.add_le_add_left kept.countP_le _

theorem edges_fillWithBlock (flow : Flow) (limits : Limits) (slot : Node) (step : NewStep) :
    (flow.fillWithBlock limits slot step).flow.edges = (flow.without [slot.id]).edges ++
      ((flow.edgesTo slot.id).map (fun edge => .connect edge.source step.head.id edge.branch) ++
        step.edges ++
        ((flow.edgesFrom slot.id).take 1).map fun edge => .connect step.exit edge.target none) := by
  rw [fillWithBlock, edges_settle, edges_pinHead, edges_append, id_fillHead]

/-- The edges into the slot enter the head of the block, and one that leaves the slot leaves the
block at most. -/
theorem countP_target_fillWithBlock_le (flow : Flow) (limits : Limits) (slot : Node)
    (step : NewStep) (id : NodeId) : (flow.fillWithBlock limits slot step).flow.edges.countP (·.target = id) ≤
      flow.edges.countP (·.target = id) + step.edges.countP (·.target = id) +
        if step.head.id = id then (flow.edgesTo slot.id).length else 0 := by
  have into : ((flow.edgesTo slot.id).map fun edge =>
      Edge.connect edge.source step.head.id edge.branch).countP (·.target = id) =
        if step.head.id = id then (flow.edgesTo slot.id).length else 0 := by
    by_cases here : step.head.id = id <;> simp [List.countP_map, Edge.connect, here]
  have out : (((flow.edgesFrom slot.id).take 1).map fun edge =>
      Edge.connect step.exit edge.target none).countP (·.target = id) ≤
        (flow.edgesFrom slot.id).countP (·.target = id) := by
    rw [List.countP_map]
    exact (List.take_sublist 1 _).countP_le
  have old := flow.countP_without_add_le slot.id id
  rw [edges_fillWithBlock, List.countP_append, List.countP_append, List.countP_append, into]
  omega

/-- Other nodes keep their roles when a block is put in the place of a slot. -/
theorem recasts_fillWithBlock (fresh : (flow.fillWithBlock limits slot step).FreshFor flow) :
    flow.Recasts (flow.fillWithBlock limits slot step).flow
      ((flow.fillHead slot step.head :: step.parts).map
        (Node.pin (flow.headAbove? limits slot) step.head.id)) := by
  refine recasts_of_retouches (flow.retouches_fillWithBlock limits slot step) fresh
    (fun node _ opens => ?_) fun node known joins => ?_
  · rwa [isHead_pin] at opens
  · rw [isMerge_pin] at joins
    exact gathers_of_node? known joins

theorem takesIn_fillWithBlock (fans : step.Fans)
    (fresh : (flow.fillWithBlock limits slot step).FreshFor flow) :
    flow.TakesIn (flow.fillWithBlock limits slot step).flow
      ((flow.fillHead slot step.head :: step.parts).map
        (Node.pin (flow.headAbove? limits slot) step.head.id)) step := by
  refine ⟨recasts_fillWithBlock fresh, fun node put => ?_,
    fun id inside => fresh.unused id inside, fun edge member => ?_, fun id known => ?_,
    fun id inside behind => ?_⟩
  · obtain ⟨part, inside, rfl⟩ := List.mem_map.mp put
    rcases List.mem_cons.mp inside with rfl | behind
    · exact ⟨step.head, List.mem_cons_self, by simp, by simp, fun apart => absurd (by simp) apart⟩
    · exact ⟨part, List.mem_cons_of_mem _ behind, by simp, by simp, fun _ => ⟨behind, by simp⟩⟩
  · rw [edges_fillWithBlock] at member
    rcases List.mem_append.mp member with kept | member
    · exact .inl (mem_edges_without.mp kept).1
    · rcases List.mem_append.mp member with member | out
      · rcases List.mem_append.mp member with into | inner
        · obtain ⟨before, -, rfl⟩ := List.mem_map.mp into
          exact .inr (.inl rfl)
        · exact .inr (.inr (.inl inner))
      · obtain ⟨before, -, rfl⟩ := List.mem_map.mp out
        exact .inr (.inr (.inr rfl))
  · have off : id ∉ step.nodes.map (·.id) := fun inside => fresh.unused id inside known
    have behind : step.head.id ≠ id := fun same => off (same ▸ List.mem_cons_self)
    have most := flow.countP_target_fillWithBlock_le limits slot step id
    rw [countP_target_step fans off, if_neg behind] at most
    rwa [length_edgesTo, length_edgesTo]
  · have most := flow.countP_target_fillWithBlock_le limits slot step id
    rw [countP_target_eq_zero (fresh.unused id inside), if_neg behind.symm] at most
    rw [length_edgesTo]
    omega

end Flow

end Workflow
