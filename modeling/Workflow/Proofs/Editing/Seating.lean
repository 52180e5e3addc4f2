import Workflow.Proofs.Editing.Fanning
import Workflow.Proofs.Walk.Spread

/-!
# A new block between old nodes

When a block is put into a flow, edges lead from old nodes into its head, and from its merge to old
nodes. Its own edges lead from the head to the slots and from these to the merge, so the body of the
block is collected in one step, whatever the rest of the flow is like. The flow without the block has
the other edges only.

## Main definitions

* `NewStep.Ladder` — a new block with a slot on each branch
* `Flow.Seats` — the edges of a flow into which a new step was put

## Main results

* `seats_splice`, `seats_fillWithBlock` — the edges after a step was put in
* `Seats.mem_body_iff` — the body of a new block is its head and its slots
* `Seats.edges_without` — the edges that are left without the block
-/

namespace Workflow

namespace NewStep

/-- A step is a block with one slot on each branch, between its head and its merge. Its head names
the merge, and no other node of it names one. -/
structure Ladder (step : NewStep) (head merge : NodeId) (slots : List NodeId) : Prop where
  first : step.head.id = head
  last : step.exit = merge
  ids : step.nodes.map (·.id) = head :: (slots ++ [merge])
  opens : step.head.isHead = true ∧ step.head.isMerge = false
  closes : Node.mergePlaceholder merge ∈ step.parts
  own : step.head.content.mergeNodeId = some merge
  unnamed : ∀ node ∈ step.parts, node.content.mergeNodeId = none
  rungs : ∀ slot ∈ slots, ∃ edge ∈ step.edges, edge.source = head ∧ edge.target = slot
  ends : ∀ edge ∈ step.edges, edge.source = head ∧ (edge.target ∈ slots ∨ edge.target = merge) ∨
    edge.source ∈ slots ∧ edge.target = merge

variable {kind : BlockKind} {label : Option String} {params : Option Json.Members}
  {names : List String} {head merge : NodeId} {slots : List NodeId}

/-- A new block with a slot for each branch is one. -/
theorem ladder_block (full : slots.length = (kind.arms names).length) :
    (block kind label params names head merge slots).Ladder head merge slots where
  first := rfl
  last := rfl
  ids := by rw [ids_block, List.map_snd_zip (Nat.le_of_eq full)]
  opens := ⟨isHead_blockHead, isMerge_blockHead⟩
  closes := List.mem_append_right _ (List.mem_singleton.mpr rfl)
  own := mergeNodeId_blockHead
  unnamed node member := by
    rcases List.mem_append.mp member with slot | last
    · obtain ⟨arm, -, rfl⟩ := List.mem_map.mp slot
      rfl
    · obtain rfl := List.mem_singleton.mp last
      rfl
  rungs slot member := by
    rw [← List.map_snd_zip (Nat.le_of_eq full)] at member
    obtain ⟨arm, inside, rfl⟩ := List.mem_map.mp member
    refine ⟨.connect head arm.2 (some arm.1.branch), List.mem_append_left _ ?_, rfl, rfl⟩
    exact List.mem_flatMap.mpr ⟨arm, inside, List.mem_cons_self⟩
  ends edge member := by
    rcases List.mem_append.mp member with rung | around
    · obtain ⟨arm, inside, two⟩ := List.mem_flatMap.mp rung
      have slot : arm.2 ∈ slots := (List.of_mem_zip inside).2
      rcases List.mem_cons.mp two with rfl | two
      · exact .inl ⟨rfl, .inl slot⟩
      · obtain rfl := List.mem_singleton.mp two
        exact .inr ⟨slot, rfl⟩
    · -- Only a loop has an edge around its body.
      cases kind with
      | condition | parallel => cases around
      | loop =>
        obtain rfl := List.mem_singleton.mp around
        exact .inl ⟨rfl, .inr rfl⟩

/-- A block with fresh identities has the first two for its head and its merge. -/
theorem exists_ladder_makeBlock (kind : BlockKind) (label : Option String)
    (params : Option Json.Members) (branches : Option (List String)) (supply : Supply) : ∃ slots,
      (StateT.run (makeBlock kind label params branches) supply).1.Ladder
        (supply.upcoming 0) (supply.upcoming 1) slots := by
  obtain ⟨names, slots, made, -, full⟩ := exists_makeBlock kind label params branches supply
  rw [made]
  exact ⟨slots, ladder_block full⟩

variable {step : NewStep} {node : Node}

namespace Ladder

variable (ladder : step.Ladder head merge slots)
include ladder

theorem merge_mem_nodes : Node.mergePlaceholder merge ∈ step.nodes :=
  List.mem_cons_of_mem _ ladder.closes

/-- The head is the one node of a new block that names a merge. -/
theorem of_names {other : NodeId} (member : node ∈ step.nodes)
    (names : node.content.mergeNodeId = some other) : node.id = head ∧ other = merge := by
  rcases List.mem_cons.mp member with rfl | part
  · exact ⟨ladder.first, Option.some.inj (names.symm.trans ladder.own)⟩
  · cases names.symm.trans (ladder.unnamed node part)

end Ladder

end NewStep

namespace Flow

/-- The edges of a flow into which a new step was put: those among other nodes, those that enter the
step at its head, its own, and those that leave it at its exit. -/
structure Seats (flow : Flow) (step : NewStep) (kept entering leaving : List Edge) : Prop where
  edges : flow.edges = kept ++ (entering ++ step.edges ++ leaving)
  off : ∀ edge ∈ kept, edge.source ∉ step.nodes.map (·.id) ∧ edge.target ∉ step.nodes.map (·.id)
  enters : ∀ edge ∈ entering, edge.source ∉ step.nodes.map (·.id) ∧ edge.target = step.head.id
  leaves : ∀ edge ∈ leaving, edge.source = step.exit ∧ edge.target ∉ step.nodes.map (·.id)

variable {flow : Flow} {step : NewStep} {edge : Edge} {slot : Node} {limits : Limits}
  {source target id child head merge : NodeId} {kept entering leaving : List Edge}
  {removed targets slots : List NodeId}

/-- A step in the place of an edge. -/
theorem seats_splice (found : flow.edge? source target = some edge)
    (fresh : (flow.splice edge step).FreshFor flow) :
    (flow.splice edge step).flow.Seats step (flow.cut source target).edges
      [.connect source step.head.id edge.branch] [.connect step.exit target none] := by
  obtain ⟨present, rfl, rfl⟩ := edge?_eq_some found
  have old : ∀ id, flow.Mentions id → id ∉ step.nodes.map (·.id) := fun id known inside =>
    fresh.unused id inside known
  refine ⟨by simp [splice], fun other member => ?_, fun other member => ?_, fun other member => ?_⟩
  · have known := List.mem_of_mem_eraseP member
    exact ⟨old _ (mentions_source known), old _ (mentions_target known)⟩
  · obtain rfl := List.mem_singleton.mp member
    exact ⟨old edge.source (mentions_source present), rfl⟩
  · obtain rfl := List.mem_singleton.mp member
    exact ⟨rfl, old edge.target (mentions_target present)⟩

/-- A block in the place of a slot. -/
theorem seats_fillWithBlock (fresh : (flow.fillWithBlock limits slot step).FreshFor flow) :
    (flow.fillWithBlock limits slot step).flow.Seats step (flow.without [slot.id]).edges
      ((flow.edgesTo slot.id).map fun edge => .connect edge.source step.head.id edge.branch)
      (((flow.edgesFrom slot.id).take 1).map fun edge =>
        .connect step.exit edge.target none) := by
  have old : ∀ id, flow.Mentions id → id ∉ step.nodes.map (·.id) := fun id known inside =>
    fresh.unused id inside known
  refine ⟨edges_fillWithBlock flow limits slot step, fun other member => ?_, fun other member => ?_,
    fun other member => ?_⟩
  · have known := (mem_edges_without.mp member).1
    exact ⟨old _ (mentions_source known), old _ (mentions_target known)⟩
  · obtain ⟨before, enters, rfl⟩ := List.mem_map.mp member
    exact ⟨old before.source (mentions_source (mem_edgesTo.mp enters).1), rfl⟩
  · obtain ⟨before, leaves, rfl⟩ := List.mem_map.mp member
    have known := (mem_edgesFrom.mp (List.mem_of_mem_take leaves)).1
    exact ⟨rfl, old before.target (mentions_target known)⟩

section Block

variable (seats : flow.Seats step kept entering leaving) (ladder : step.Ladder head merge slots)
  (distinct : (head :: (slots ++ [merge])).Nodup)

include seats in
/-- An edge of the flow is one among other nodes, or it enters the step, is of it or leaves it. -/
theorem Seats.leads_iff : flow.Leads id child ↔
    (∃ edge ∈ kept, edge.source = id ∧ edge.target = child) ∨
    (∃ edge ∈ entering, edge.source = id ∧ edge.target = child) ∨
    (∃ edge ∈ step.edges, edge.source = id ∧ edge.target = child) ∨
    ∃ edge ∈ leaving, edge.source = id ∧ edge.target = child := by
  rw [Leads, seats.edges]
  simp only [List.mem_append, or_and_right, exists_or, or_assoc]

include seats ladder distinct

/-- What leads on from the head or a slot of the block is of the block. -/
theorem Seats.onward (inside : id = head ∨ id ∈ slots) (leads : flow.Leads id child) :
    id = head ∧ child ∈ slots ∨ child = merge := by
  have short : id ≠ merge := by grind
  have member : id ∈ step.nodes.map (·.id) := by
    rw [ladder.ids]
    grind
  rcases seats.leads_iff.mp leads with
    ⟨edge, other, rfl, -⟩ | ⟨edge, enters, rfl, -⟩ | ⟨edge, inner, rfl, rfl⟩ | ⟨edge, leaves, rfl, -⟩
  · exact absurd member (seats.off edge other).1
  · exact absurd member (seats.enters edge enters).1
  · rcases ladder.ends edge inner with ⟨first, slot | last⟩ | ⟨-, last⟩
    · exact .inl ⟨first, slot⟩
    · exact .inr last
    · exact .inr last
  · exact absurd ((seats.leaves edge leaves).1.trans ladder.last) short

/-- What leads to the merge is the head or a slot of the block. -/
theorem Seats.inward (leads : flow.Leads id merge) : id = head ∨ id ∈ slots := by
  have member : merge ∈ step.nodes.map (·.id) := by
    rw [ladder.ids]
    simp
  rcases seats.leads_iff.mp leads with
    ⟨edge, other, -, rfl⟩ | ⟨edge, enters, -, rfl⟩ | ⟨edge, inner, rfl, -⟩ | ⟨edge, leaves, -, rfl⟩
  · exact absurd member (seats.off edge other).2
  · have first : edge.target = head := (seats.enters edge enters).2.trans ladder.first
    grind
  · exact (ladder.ends edge inner).imp And.left And.left
  · exact absurd member (seats.leaves edge leaves).2

/-- The body of a new block is its head and its slots. -/
theorem Seats.mem_body_iff (admits : 0 < limits.scanLimit) :
    id ∈ flow.body limits head merge ↔ id = head ∨ id ∈ slots := by
  have apart : head ≠ merge := by grind
  have first : head ∉ slots := by grind
  have last : merge ∉ slots := by grind
  rw [mem_body_iff_of_shallow apart admits]
  · refine or_congr_right ⟨fun ⟨off, leads⟩ => ?_, fun slot => ⟨?_, ?_⟩⟩
    · exact ((seats.onward ladder distinct (.inl rfl) leads).resolve_right off).2
    · rintro rfl
      exact last slot
    · exact seats.leads_iff.mpr (.inr (.inr (.inl (ladder.rungs id slot))))
  · -- The head leads to slots and the merge only, and a slot to nothing but the merge.
    intro id child into off leads
    obtain ⟨-, slot⟩ := (seats.onward ladder distinct (.inl rfl) into).resolve_right off
    refine (seats.onward ladder distinct (.inr slot) leads).resolve_left ?_
    rintro ⟨rfl, -⟩
    exact first slot

/-- Nothing outside a new block depends on its merge, if no head outside names it. -/
theorem Seats.sharesMerge_eq_false (admits : 0 < limits.scanLimit)
    (closed : flow.isHead merge = false)
    (own : ∀ node ∈ flow.nodes, node.content.mergeNodeId = some merge → node.id = head) :
    flow.sharesMerge merge (flow.body limits head merge) = false := by
  rw [sharesMerge_eq_false_iff]
  refine ⟨closed, fun node member _ names => ?_, fun id leads => ?_⟩
  · rw [own node member names]
    exact head_mem_body
  · exact (seats.mem_body_iff ladder distinct admits).mpr (seats.inward ladder distinct leads)

/-- The edges that enter the block. -/
theorem Seats.edgesTo_head : flow.edgesTo head = entering := by
  have first : head ∈ step.nodes.map (·.id) := by
    rw [ladder.ids]
    exact List.mem_cons_self
  have others : kept.filter (·.target = head) = [] := List.filter_eq_nil_iff.mpr
    fun edge member same => (seats.off edge member).2 (of_decide_eq_true same ▸ first)
  have into : entering.filter (·.target = head) = entering := List.filter_eq_self.mpr
    fun edge member => decide_eq_true ((seats.enters edge member).2.trans ladder.first)
  have inner : step.edges.filter (·.target = head) = [] := List.filter_eq_nil_iff.mpr
    fun edge member same => by
      have ends := ladder.ends edge member
      have here : edge.target = head := of_decide_eq_true same
      grind
  have out : leaving.filter (·.target = head) = [] := List.filter_eq_nil_iff.mpr
    fun edge member same => (seats.leaves edge member).2 (of_decide_eq_true same ▸ first)
  rw [edgesTo, seats.edges]
  simp only [List.filter_append, others, into, inner, out, List.nil_append, List.append_nil]

/-- The places to which the merge of the block leads. -/
theorem Seats.children_merge : flow.children merge = leaving.map (·.target) := by
  have last : merge ∈ step.nodes.map (·.id) := by
    rw [ladder.ids]
    simp
  have others : kept.filter (·.source = merge) = [] := List.filter_eq_nil_iff.mpr
    fun edge member same => (seats.off edge member).1 (of_decide_eq_true same ▸ last)
  have into : entering.filter (·.source = merge) = [] := List.filter_eq_nil_iff.mpr
    fun edge member same => (seats.enters edge member).1 (of_decide_eq_true same ▸ last)
  have inner : step.edges.filter (·.source = merge) = [] := List.filter_eq_nil_iff.mpr
    fun edge member same => by
      have ends := ladder.ends edge member
      have here : edge.source = merge := of_decide_eq_true same
      grind
  have out : leaving.filter (·.source = merge) = leaving := List.filter_eq_self.mpr
    fun edge member => decide_eq_true ((seats.leaves edge member).1.trans ladder.last)
  rw [children, edgesFrom, seats.edges]
  simp only [List.filter_append, others, into, inner, out, List.nil_append]

/-! ### The flow without the block -/

variable (within : ∀ id ∈ removed, id ∈ head :: (slots ++ [merge]))
include within

/-- Each edge into the block leaves a gap to each target. -/
theorem Seats.gaps_eq : flow.gaps removed head targets = entering.flatMap fun edge =>
    targets.map fun target => ⟨edge, target, flow.isJoin removed target⟩ := by
  have all : entering.filter (·.source ∉ removed) = entering := List.filter_eq_self.mpr
    fun edge member => decide_eq_true fun gone =>
      (seats.enters edge member).1 (ladder.ids ▸ within edge.source gone)
  rw [gaps, seats.edgesTo_head ladder distinct, all]

variable (body : ∀ id, id = head ∨ id ∈ slots → id ∈ removed)
include body
omit distinct

/-- Without the body of the block, the flow has the edges among other nodes, and those out of the
merge if that stays. -/
theorem Seats.edges_without :
    (flow.without removed).edges = kept ++ if merge ∈ removed then [] else leaving := by
  have old : ∀ id, id ∉ step.nodes.map (·.id) → id ∉ removed := fun id off gone =>
    off (ladder.ids ▸ within id gone)
  have others : kept.filter (fun edge => edge.source ∉ removed ∧ edge.target ∉ removed) = kept :=
    List.filter_eq_self.mpr fun edge member => decide_eq_true
      ⟨old _ (seats.off edge member).1, old _ (seats.off edge member).2⟩
  have into : entering.filter (fun edge => edge.source ∉ removed ∧ edge.target ∉ removed) = [] :=
    List.filter_eq_nil_iff.mpr fun edge member stays => (of_decide_eq_true stays).2
      (body _ (.inl ((seats.enters edge member).2.trans ladder.first)))
  have inner : step.edges.filter (fun edge => edge.source ∉ removed ∧ edge.target ∉ removed) = [] :=
    List.filter_eq_nil_iff.mpr fun edge member stays => (of_decide_eq_true stays).1
      (body _ ((ladder.ends edge member).imp And.left And.left))
  have out : leaving.filter (fun edge => edge.source ∉ removed ∧ edge.target ∉ removed) =
      if merge ∈ removed then [] else leaving := by
    split
    · rename_i gone
      refine List.filter_eq_nil_iff.mpr fun edge member stays => (of_decide_eq_true stays).1 ?_
      rwa [(seats.leaves edge member).1, ladder.last]
    · rename_i stays
      refine List.filter_eq_self.mpr fun edge member => decide_eq_true ⟨?_, ?_⟩
      · rwa [(seats.leaves edge member).1, ladder.last]
      · exact old _ (seats.leaves edge member).2
  rw [without, seats.edges]
  simp only [List.filter_append, others, into, inner, out, List.nil_append]

/-- Without the block and its merge, branches come together at another node if it is a merge or an
edge among other nodes enters it. -/
theorem Seats.isJoin_iff (gone : merge ∈ removed) (outside : id ∉ head :: (slots ++ [merge])) :
    flow.isJoin removed id = true ↔ flow.isMerge id = true ∨ ∃ edge ∈ kept, edge.target = id := by
  rw [Flow.isJoin_iff]
  refine or_congr_right ⟨?_, ?_⟩
  · rintro ⟨parent, stays, leads⟩
    rcases seats.leads_iff.mp leads with ⟨edge, other, -, ends⟩ | ⟨edge, enters, -, rfl⟩ |
      ⟨edge, inner, rfl, -⟩ | ⟨edge, leaves, rfl, -⟩
    · exact ⟨edge, other, ends⟩
    · have first : edge.target = head := (seats.enters edge enters).2.trans ladder.first
      exact absurd (first ▸ List.mem_cons_self) outside
    · exact absurd (body _ ((ladder.ends edge inner).imp And.left And.left)) stays
    · rw [(seats.leaves edge leaves).1, ladder.last] at stays
      exact absurd gone stays
  · rintro ⟨edge, other, rfl⟩
    have stays : edge.source ∉ removed := fun gone =>
      (seats.off edge other).1 (ladder.ids ▸ within edge.source gone)
    exact ⟨edge.source, stays, seats.leads_iff.mpr (.inl ⟨edge, other, rfl, rfl⟩)⟩

end Block

end Flow

end Workflow
