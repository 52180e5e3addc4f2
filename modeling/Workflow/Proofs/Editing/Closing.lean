import Workflow.Proofs.Editing.Form
import Workflow.Proofs.Editing.Outcome
import Workflow.Proofs.Nesting.Growth

/-!
# Growing edits keep blocks closed

Inserting a step, and filling a slot with a block, put an item into a flow of any shape.
Each head is then closed by the merges that closed it before, and a new head by its own merge
alone.

## Main definitions

* `Edit.Adds` — an edit that puts an item into a flow

## Main results

* `Edit.closes_after` — what closes the heads of a flow after such an edit
-/

namespace Workflow

namespace Flow

variable {flow : Flow} {item : Item} {step : NewStep} {edge : Edge} {slot : Node} {limits : Limits}
  {source target id child : NodeId} {patch : Patch} {rename : NodeId → NodeId}

/-- The edges of a new step are those of its item. -/
theorem exists_edge_iff_wire (forms : step.Forms item) :
    (∃ edge ∈ step.edges, edge.source = id ∧ edge.target = child) ↔
      ∃ wire ∈ item.wires, wire.source = id ∧ wire.target = child := by
  simp [← forms.wires, Edge.wire]

/-- A flow grows by a new step that is put in between the start and the end of each edge that
was taken out before. -/
theorem grows_append {base : Flow} {enters leaves : NodeId → Prop} (forms : step.Forms item)
    (distinct : item.ids.Nodup) (unused : ∀ id ∈ item.ids, ¬ base.Mentions id)
    (parts : patch.nodes = step.nodes)
    (same : ∀ id, base.node? id = flow.node? id)
    (offSource : ∀ {id}, enters id → id ∉ item.ids) (offTarget : ∀ {id}, leaves id → id ∉ item.ids)
    (before : ∀ {id child}, flow.Leads id child ↔ base.Leads id child ∨ enters id ∧ leaves child)
    (joined : ∀ {id child}, (∃ edge ∈ patch.edges, edge.source = id ∧ edge.target = child) ↔
      enters id ∧ child = item.first ∨
      (∃ wire ∈ item.wires, wire.source = id ∧ wire.target = child) ∨
      id = item.last ∧ leaves child) :
    flow.Grows ((base.append patch).settle rename) item := by
  refine Grows.of_leads distinct ?_ forms.forked ?_ ?_ offSource offTarget before ?_
  · intro spot member
    rw [Plays, isHead_settle, isMerge_settle]
    exact plays_append forms distinct (fun id inside known => unused id inside (.inl known)) parts
      spot member
  · intro id outside
    rw [← forms.ids, ← parts] at outside
    have found : (base.append patch).node? id = flow.node? id :=
      (node?_append_of_notMem outside).trans (same id)
    rw [isHead_settle, isMerge_settle]
    exact ⟨isHead_congr found, isMerge_congr found⟩
  · exact fun leads => ⟨fun inside => unused _ inside leads.mentions_source,
      fun inside => unused _ inside leads.mentions_target⟩
  · intro id child
    rw [leads_settle, leads_append, joined]

/-! ### Inserting -/

/-- Without an edge, a flow leads where it did, but from the start of the edge to its end. -/
theorem leads_iff_cut (found : flow.edge? source target = some edge) :
    flow.Leads id child ↔
      (flow.cut source target).Leads id child ∨ id = source ∧ child = target := by
  obtain ⟨present, starts, ends⟩ := edge?_eq_some found
  constructor
  · -- An edge between the same nodes may be the one that is missing.
    rintro ⟨other, member, rfl, rfl⟩
    by_cases joined : joins source target other = true
    · right
      simpa [joins] using joined
    · left
      exact ⟨other, (List.mem_eraseP_of_neg joined).mpr member, rfl, rfl⟩
  · rintro (⟨other, member, same⟩ | ⟨rfl, rfl⟩)
    · exact ⟨other, List.mem_of_mem_eraseP member, same⟩
    · exact ⟨edge, present, starts, ends⟩

theorem Mentions.of_cut (h : (flow.cut source target).Mentions id) : flow.Mentions id :=
  h.imp_right fun ⟨edge, member, touches⟩ => ⟨edge, List.mem_of_mem_eraseP member, touches⟩

/-- A flow grows by the step that is inserted. -/
theorem grows_splice (found : flow.edge? source target = some edge) (forms : step.Forms item)
    (fresh : (flow.splice edge step).FreshFor flow) :
    flow.Grows (flow.splice edge step).flow item := by
  obtain ⟨present, rfl, rfl⟩ := edge?_eq_some found
  obtain ⟨distinct, unused⟩ := fresh_of_forms forms fresh rfl
  rw [splice]
  refine @grows_append flow item step _ _ _ (· = edge.source) (· = edge.target) forms distinct
    (fun id inside known => unused id inside known.of_cut) rfl (fun _ => rfl) ?_ ?_
    (leads_iff_cut found) ?_
  · rintro id rfl inside
    exact unused _ inside (.inr ⟨edge, present, .inl rfl⟩)
  · rintro id rfl inside
    exact unused _ inside (.inr ⟨edge, present, .inr rfl⟩)
  · intro id child
    rw [← exists_edge_iff_wire forms, ← forms.first, ← forms.last]
    simp [Edge.connect, or_and_right, exists_or, eq_comm]

/-! ### Filling -/

/-- The flow with a slot taken out, and edges from where the slot was entered to where it led. -/
def bypassing (flow : Flow) (slot : NodeId) : Flow :=
  (flow.without [slot]).append
    { edges := (flow.edgesTo slot).flatMap fun into =>
        (flow.edgesFrom slot).map fun out => .connect into.source out.target none }

theorem leads_bypassing {slot : NodeId} : (flow.bypassing slot).Leads id child ↔
    (flow.without [slot]).Leads id child ∨ flow.Leads id slot ∧ flow.Leads slot child := by
  rw [bypassing, leads_append]
  apply or_congr_right
  constructor
  · rintro ⟨edge, member, rfl, rfl⟩
    obtain ⟨into, hinto, member⟩ := List.mem_flatMap.mp member
    obtain ⟨out, hout, rfl⟩ := List.mem_map.mp member
    obtain ⟨hinto, ends⟩ := mem_edgesTo.mp hinto
    obtain ⟨hout, starts⟩ := mem_edgesFrom.mp hout
    exact ⟨⟨into, hinto, rfl, ends⟩, out, hout, starts, rfl⟩
  · rintro ⟨⟨into, hinto, rfl, ends⟩, out, hout, starts, rfl⟩
    exact ⟨.connect into.source out.target none, List.mem_flatMap.mpr
      ⟨into, mem_edgesTo.mpr ⟨hinto, ends⟩, List.mem_map.mpr
        ⟨out, mem_edgesFrom.mpr ⟨hout, starts⟩, rfl⟩⟩, rfl, rfl⟩

theorem node?_bypassing (slot : NodeId) :
    (flow.without [slot]).node? id = (flow.bypassing slot).node? id :=
  (node?_append_of_notMem (by simp)).symm

/-- A flow without a slot grows to the flow itself by the slot. -/
theorem grows_slot {slot : NodeId} (plays : flow.Plays slot .step) (unlooped : ¬ flow.Leads slot slot) :
    (flow.bypassing slot).Grows flow (.step slot) := by
  refine @Grows.of_leads _ flow (.step slot) (flow.without [slot]).Leads (flow.Leads · slot)
    (flow.Leads slot ·) (by simp) ?_ (by simp) ?_ ?_ ?_ ?_ leads_bypassing ?_
  · intro spot member
    obtain rfl := List.mem_singleton.mp member
    exact plays
  · intro id outside
    have found : flow.node? id = (flow.bypassing slot).node? id :=
      (node?_without outside).symm.trans (node?_bypassing slot)
    exact ⟨isHead_congr found, isMerge_congr found⟩
  · intro id child leads
    simpa using (leads_without.mp leads).2
  · intro id into inside
    obtain rfl := List.mem_singleton.mp inside
    exact unlooped into
  · intro id out inside
    obtain rfl := List.mem_singleton.mp inside
    exact unlooped out
  · intro id child
    have inner : (Item.step slot).wires = [] := rfl
    rw [leads_without, inner]
    simp only [List.mem_singleton, Item.first, Item.last, List.not_mem_nil, false_and, exists_false,
      false_or]
    constructor
    · intro leads
      by_cases starts : id = slot
      · subst starts
        exact .inr (.inr ⟨rfl, leads⟩)
      · by_cases ends : child = slot
        · subst ends
          exact .inr (.inl ⟨leads, rfl⟩)
        · exact .inl ⟨leads, starts, ends⟩
    · rintro (⟨leads, -⟩ | ⟨leads, rfl⟩ | ⟨rfl, leads⟩)
      · exact leads
      · exact leads
      · exact leads

theorem Mentions.of_without {removed : List NodeId} (h : (flow.without removed).Mentions id) :
    flow.Mentions id := by
  rcases h with known | ⟨edge, member, touches⟩
  · rw [ids_without] at known
    exact .inl (List.mem_filter.mp known).1
  · exact .inr ⟨edge, (mem_edges_without.mp member).1, touches⟩

/-- The edges of a block in the place of a slot are turned from the slot into the block, are
inside it, or are turned from the slot out of it. -/
theorem exists_fillEdge_iff (forms : step.Forms item) :
    (∃ edge ∈ flow.fillEdges slot step, edge.source = id ∧ edge.target = child) ↔
      flow.Leads id slot.id ∧ child = item.first ∨
      (∃ wire ∈ item.wires, wire.source = id ∧ wire.target = child) ∨
      id = item.last ∧ flow.Leads slot.id child := by
  rw [← exists_edge_iff_wire forms, ← forms.first, ← forms.last]
  simp only [fillEdges, List.mem_append, or_and_right, exists_or, or_assoc]
  refine or_congr ?_ (or_congr_right ?_)
  · constructor
    · rintro ⟨edge, member, rfl, rfl⟩
      obtain ⟨into, hinto, rfl⟩ := List.mem_map.mp member
      obtain ⟨hinto, ends⟩ := mem_edgesTo.mp hinto
      exact ⟨⟨into, hinto, rfl, ends⟩, rfl⟩
    · rintro ⟨⟨into, hinto, rfl, ends⟩, rfl⟩
      exact ⟨_, List.mem_map.mpr ⟨into, mem_edgesTo.mpr ⟨hinto, ends⟩, rfl⟩, rfl, rfl⟩
  · constructor
    · rintro ⟨edge, member, rfl, rfl⟩
      obtain ⟨out, hout, rfl⟩ := List.mem_map.mp member
      obtain ⟨hout, starts⟩ := mem_edgesFrom.mp hout
      exact ⟨rfl, out, hout, starts, rfl⟩
    · rintro ⟨rfl, out, hout, starts, rfl⟩
      exact ⟨_, List.mem_map.mpr ⟨out, mem_edgesFrom.mpr ⟨hout, starts⟩, rfl⟩, rfl, rfl⟩

/-- A flow without a slot grows to the filled flow by the block that fills the slot. -/
theorem grows_fillWithBlock (plain : slot.isMerge = false)
    (single : (flow.edgesFrom slot.id).length ≤ 1) (forms : step.Forms item)
    (fresh : (flow.fillWithBlock limits slot step).FreshFor flow) :
    (flow.bypassing slot.id).Grows (flow.fillWithBlock limits slot step).flow item := by
  obtain ⟨distinct, unused⟩ := fresh_of_forms forms fresh rfl
  rw [fillWithBlock_eq (takesJoin_of_not_merge plain) single]
  refine grows_append forms distinct (fun id inside known => unused id inside known.of_without) rfl
    (fun _ => node?_bypassing slot.id) ?_ ?_ leads_bypassing (exists_fillEdge_iff forms)
  · exact fun into inside => unused _ inside into.mentions_source
  · exact fun out inside => unused _ inside out.mentions_target

/-! ### New heads -/

/-- A new head names a new merge, which is a slot and closes the head, and nothing else does. -/
def ClosesOwn (flow : Flow) (added : List NodeId) (head : NodeId) : Prop :=
  ∃ merge ∈ added, (∃ node, flow.node? head = some node ∧ node.content.mergeNodeId = some merge) ∧
    flow.node? merge = some (.mergePlaceholder merge) ∧
    ∀ other, flow.Closes head other ↔ other = merge

/-- Of the nodes of a new block only the head opens a block. -/
theorem eq_head_of_isHead {kind : BlockKind} {names : List String} {slots : List NodeId}
    {head merge : NodeId} (hosts : flow.Hosts (.block head (kind.lanes names slots) merge))
    (inside : id ∈ (Item.block head (kind.lanes names slots) merge).ids)
    (opens : flow.isHead id = true) : id = head := by
  obtain ⟨spot, member, rfl⟩ := Item.exists_spot_of_mem_ids 0 inside
  have plays := (hosts.fits.plays spot member).1
  rw [opens] at plays
  -- On the branches of a new block there are slots only.
  rcases Item.mem_block_spots.mp member with rfl | onLane | rfl
  · rfl
  · obtain ⟨arm, -, rfl⟩ := BlockKind.mem_laneSpots_lanes onLane
    cases plays
  · cases plays

/-- The head of a block that is put in closes at the merge put in with it. -/
theorem closesOwn_append {base : Flow} {kind : BlockKind} {label : Option String}
    {params : Option Json.Members} {names : List String} {slots : List NodeId} {head merge : NodeId}
    (parts : patch.nodes = (NewStep.block kind label params names head merge slots).nodes)
    (distinct : (patch.nodes.map (·.id)).Nodup)
    (unused : ∀ node ∈ patch.nodes, node.id ∉ base.ids)
    (hosts : ((base.append patch).settle fun id => id).Hosts
      (.block head (kind.lanes names slots) merge)) :
    ((base.append patch).settle fun id => id).ClosesOwn (patch.nodes.map (·.id)) head := by
  -- New nodes are found by their identities, which are new and distinct.
  have found : ∀ node ∈ patch.nodes, (base.append patch).node? node.id = some node := by
    intro node member
    rw [node?_append_of_mem (unused node member)]
    exact find?_eq_some_of_mem distinct member
  have headIn : NewStep.blockHead kind label params names head merge ∈ patch.nodes := by
    rw [parts, NewStep.mem_nodes_block]
    exact .inl rfl
  have mergeIn : Node.mergePlaceholder merge ∈ patch.nodes := by
    rw [parts, NewStep.mem_nodes_block]
    exact .inr (.inr rfl)
  have alive : merge ∈ (base.append patch).ids := by
    rw [ids_append]
    exact List.mem_append_right _ (List.mem_map_of_mem mergeIn)
  have headFound := found _ headIn
  have mergeFound := found _ mergeIn
  refine ⟨merge, List.mem_map_of_mem mergeIn,
    ⟨(NewStep.blockHead kind label params names head merge).settle (fun id => id)
      (base.append patch).ids, ?_, ?_⟩, ?_, hosts.closes_iff⟩
  · exact (node?_settle _ _ head).trans (congrArg (Option.map _) headFound)
  · simpa [Node.settle, Node.mapContent, Content.withMerge] using alive
  · exact (node?_settle _ _ merge).trans (congrArg (Option.map _) mergeFound)

end Flow

namespace Edit

/-- An edit that puts an item into a flow: an insertion, or filling a slot with a block. The
slot is neither head nor merge, leads to one place at most, and not to itself. -/
def Adds (edit : Edit) (flow : Flow) : Prop :=
  match edit with
  | insert .. => True
  | fill id kind .. =>
    (BlockKind.ofName? kind).isSome ∧ flow.Plays id .step ∧ (flow.edgesFrom id).length ≤ 1 ∧
      ¬ flow.Leads id id
  | _ => False

variable {flow : Flow} {limits : Limits} {supply rest : Supply} {change : Change} {edit : Edit}

/-- In a flow that grew by a new block, a head among the new nodes closes at its own merge. -/
private theorem closes_after_block {before base : Flow} {patch : Patch} {kind : BlockKind}
    {label : Option String} {params : Option Json.Members} {names : List String}
    {slots : List NodeId} {head merge : NodeId}
    (parts : patch.nodes = (NewStep.block kind label params names head merge slots).nodes)
    (forms : (NewStep.block kind label params names head merge slots).Forms
      (.block head (kind.lanes names slots) merge))
    (grows : before.Grows ((base.append patch).settle fun id => id)
      (.block head (kind.lanes names slots) merge))
    (unused : ∀ node ∈ patch.nodes, node.id ∉ base.ids) :
    ∀ opener ∈ patch.nodes.map (·.id), ((base.append patch).settle fun id => id).isHead opener = true →
      ((base.append patch).settle fun id => id).ClosesOwn (patch.nodes.map (·.id)) opener := by
  intro opener inside opens
  have ids : patch.nodes.map (·.id) = (Item.block head (kind.lanes names slots) merge).ids := by
    rw [parts, forms.ids]
  obtain rfl := Flow.eq_head_of_isHead grows.hosts (ids ▸ inside) opens
  exact Flow.closesOwn_append parts (ids ▸ grows.hosts.distinct) unused grows.hosts

/-- A head of a flow is none of the nodes that an edit puts in. -/
private theorem notMem_added_of_isHead (fresh : change.FreshFor flow) {head : NodeId}
    (opens : flow.isHead head = true) : head ∉ change.added := fun inside =>
  fresh.unused _ inside (.inl (Flow.mem_ids_of_isHead opens))

/-- After an insertion, each head of the flow is closed where it was closed before, and a new
head at its own merge. -/
theorem closes_after_insert {source target : NodeId} {kind : String} {label : Option String}
    {branches : Option (List String)}
    (done : (insert source target kind label branches).run flow limits supply = .ok (change, rest))
    (fresh : change.FreshFor flow) :
    (∀ head, flow.isHead head = true → ∀ merge,
      change.flow.Closes head merge ↔ flow.Closes head merge) ∧
    ∀ head ∈ change.added, change.flow.isHead head = true →
      change.flow.ClosesOwn change.added head := by
  obtain ⟨edge, found, rfl⟩ := insert_cases done
  rcases NewStep.make_cases kind label none branches supply with
    ⟨id, made, plain⟩ | ⟨block, names, head, merge, slots, made, named, full⟩
  · rw [made] at fresh ⊢
    have grows := Flow.grows_splice found (NewStep.forms_plain plain) fresh
    refine ⟨fun head opens => grows.closes_iff (notMem_added_of_isHead fresh opens) opens,
      fun head inside opens => ?_⟩
    -- The only new node is a plain step.
    have plays := grows.hosts.fits.plays ⟨id, .step, 0⟩ (List.mem_singleton.mpr rfl)
    obtain rfl := List.mem_singleton.mp inside
    exact absurd (plays.1.symm.trans opens) Bool.false_ne_true
  · rw [made] at fresh ⊢
    have forms := @NewStep.forms_block block label none names head merge slots named full
    have grows := Flow.grows_splice found forms fresh
    constructor
    · intro head opens
      exact grows.closes_iff (forms.ids ▸ notMem_added_of_isHead fresh opens) opens
    · -- The new head closes at the merge of its own block.
      apply closes_after_block rfl forms grows
      intro node inside old
      exact fresh.unused node.id (List.mem_map_of_mem inside) (.inl old)

/-- After a slot was filled with a block, each head of the flow is closed where it was closed
before, and the new head at its own merge. -/
theorem closes_after_fill {slot : NodeId} {kind : String} {label : Option String}
    {params : Option Json.Members} {branches : Option (List String)}
    (adds : (fill slot kind label params branches).Adds flow)
    (done : (fill slot kind label params branches).run flow limits supply = .ok (change, rest))
    (fresh : change.FreshFor flow) :
    (∀ head, flow.isHead head = true → ∀ merge,
      change.flow.Closes head merge ↔ flow.Closes head merge) ∧
    ∀ head ∈ change.added, change.flow.isHead head = true →
      change.flow.ClosesOwn change.added head := by
  obtain ⟨opens, plays, single, unlooped⟩ := adds
  obtain ⟨slot, found, -, ⟨plain, -⟩ | ⟨block, -, -, rfl⟩⟩ := fill_cases done
  · rw [plain] at opens
    cases opens
  obtain rfl := Flow.id_of_node?_eq_some found
  have isStep : slot.isMerge = false := (Flow.isMerge_of_node? found).symm.trans plays.2
  obtain ⟨names, head, merge, slots, made, named, full⟩ :=
    NewStep.makeBlock_cases block label params branches supply
  rw [made] at fresh ⊢
  have forms := @NewStep.forms_block block label params names head merge slots named full
  -- The flow without the slot grows both to the flow before and to the flow after the edit.
  have bypassed := Flow.grows_slot plays unlooped
  have grows := @Flow.grows_fillWithBlock _ _ _ _ limits isStep single forms fresh
  constructor
  · intro head opens other
    have apart : head ∉ (Item.step slot.id).ids := by
      rw [Item.ids_step, List.mem_singleton]
      rintro rfl
      exact absurd (plays.1.symm.trans opens) Bool.false_ne_true
    have still := (bypassed.roles apart).1.symm.trans opens
    have known := notMem_added_of_isHead fresh opens
    rw [grows.closes_iff (forms.ids ▸ known) still, bypassed.closes_iff apart still]
  · rw [Flow.fillWithBlock_eq (Flow.takesJoin_of_not_merge isStep) single] at grows ⊢
    apply closes_after_block rfl forms grows
    intro node inside old
    rw [Flow.ids_without] at old
    exact fresh.unused node.id (List.mem_map_of_mem inside) (.inl (List.mem_filter.mp old).1)

/-- After an edit that puts an item into a flow of any shape, each head of the flow is closed
where it was closed before, and each new head at its own merge. -/
theorem closes_after (adds : edit.Adds flow)
    (done : edit.run flow limits supply = .ok (change, rest)) (fresh : change.FreshFor flow) :
    (∀ head, flow.isHead head = true → ∀ merge,
      change.flow.Closes head merge ↔ flow.Closes head merge) ∧
    ∀ head ∈ change.added, change.flow.isHead head = true →
      change.flow.ClosesOwn change.added head := by
  cases edit with
  | insert source target kind label branches => exact closes_after_insert done fresh
  | fill slot kind label params branches => exact closes_after_fill adds done fresh
  | _ => cases adds

/-- A head in a cycle with a slot, and an edge to nowhere. -/
def tangle : Flow where
  nodes := [{ id := "head", kind := some "condition" }, .branchPlaceholder "slot" "True Path"]
  edges := [.connect "head" "slot" (some "true"), .connect "slot" "head" none,
    .connect "head" "gone" (some "false")]

/-- The slot in the cycle is filled with a loop. -/
theorem closes_after_fill_tangle : ∃ change rest,
    (fill "slot" "loop" none none none).Adds tangle ∧
      (fill "slot" "loop" none none none).run tangle {} .numbered = .ok (change, rest) ∧
      change.FreshFor tangle ∧
      (∀ head, tangle.isHead head = true → ∀ merge,
        change.flow.Closes head merge ↔ tangle.Closes head merge) ∧
      ∀ head ∈ change.added, change.flow.isHead head = true →
        change.flow.ClosesOwn change.added head := by
  have unlooped : ¬ tangle.Leads "slot" "slot" := by
    rw [Flow.leads_iff_mem_children]
    decide +kernel
  have adds : (fill "slot" "loop" none none none).Adds tangle :=
    ⟨by decide +kernel, by decide +kernel, by decide +kernel, unlooped⟩
  let made := StateT.run (tangle.fillWithBlock {} (.branchPlaceholder "slot" "True Path") <$>
    NewStep.makeBlock .loop none none none) .numbered
  have done : (fill "slot" "loop" none none none).run tangle {} .numbered = .ok made := by rfl
  have fresh : made.1.FreshFor tangle := by decide +kernel
  exact ⟨made.1, made.2, adds, done, fresh, closes_after adds done fresh⟩

end Edit

end Workflow
