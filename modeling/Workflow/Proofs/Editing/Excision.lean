import Workflow.Edit.Delete
import Workflow.Proofs.Nesting.Neighbour

/-!
# Taking out an item

When an item is taken out of a well-nested flow and the gap is closed, the flow is the graph
of the sequence without the item. If nothing else was on its branch, a slot takes its place.

## Main definitions

* `Line.Context.empties`, `Line.Context.remnant` — what stays in the place of an item
* `Flow.LeavesGap` — the gap where an item was

## Main results

* `Nests.leavesGap_block`, `Nests.leavesGap_step` — the gaps that the two deletions close
* `LeavesGap.run_bridgeAll` — what closes the gap
* `Nests.excise` — the flow without an item is well-nested
-/

namespace Workflow

namespace Line

/-- Whether a sequence is empty. -/
def isDone : Line → Bool
  | done => true
  | cons _ _ _ => false

/-- Whether taking out the item before `rest` empties a branch. -/
def Context.empties (context : Context) (rest : Line) : Bool := context.opens && rest.isDone

/-- What stays in the place of an item and of `rest` behind it: a slot if the branch is empty
without the item. -/
def Context.remnant (context : Context) (slot : NodeId) (rest : Line) : Line :=
  if context.empties rest then .cons (.step slot) none .done else rest

theorem Context.empties_iff {context : Context} {rest : Line} :
    context.empties rest = true ↔ context.opens = true ∧ rest = .done := by
  cases rest <;> simp [empties, isDone]

end Line

namespace Flow

open scoped List

variable {flow after : Flow} {context : Line.Context} {item next : Item} {out more : Option String}
  {rest part : Line} {removed : List NodeId} {id head merge : NodeId} {lanes : List Lane}
  {gaps : List Gap} {supply : Supply} {patch : Patch}

/-! ### Joins behind an item -/

/-- The merge behind the last item of a branch is a join. -/
theorem Nests.isJoin_exit (nests : flow.Nests (context.plug part))
    (h : context.exit none = some id) (removed : List NodeId) : flow.isJoin removed id = true := by
  rw [isJoin, nests.isMerge_exit h]
  rfl

/-- The item behind an item is no join once that is removed. -/
theorem Nests.isJoin_next (nests : flow.Nests (context.plug (.cons item out (.cons next more rest))))
    (same : ∀ id, id ∈ removed ↔ id ∈ item.ids) : flow.isJoin removed next.first = false := by
  have inner : flow.Nests
      (Line.Context.plug (context ++ [Line.Frame.after item out]) (.cons next more rest)) := by
    rw [Line.Context.plug_concat]
    exact nests
  -- Its only edge comes from the item, and goes with it.
  have into := inner.edgesTo_first
  rw [Line.Context.entry_concat] at into
  have gone : (flow.edgesTo next.first).any (·.source ∉ removed) = false := by
    rw [List.any_eq_false]
    intro edge member
    have wire : edge.wire ∈ (flow.edgesTo next.first).map Edge.wire := List.mem_map_of_mem member
    rw [into] at wire
    have source : item.last = edge.source :=
      congrArg Port.node (Option.some.inj (mem_link.mp wire).1)
    have inside := (same edge.source).mpr (source ▸ item.last_mem_ids)
    simpa using inside
  rw [isJoin, inner.isMerge_first, gone]
  rfl

/-- Behind an item the flow goes on at a join if and only if the item is the last of its
branch. -/
theorem Nests.isJoin_entrance (nests : flow.Nests (context.plug (.cons item out rest)))
    (same : ∀ id, id ∈ removed ↔ id ∈ item.ids) (h : rest.entrance (context.exit none) = some id) :
    flow.isJoin removed id = rest.isDone := by
  cases rest with
  | done => exact nests.isJoin_exit h removed
  | cons next more rest =>
    obtain rfl := Option.some.inj h
    exact nests.isJoin_next same

/-! ### The gap where an item was -/

/-- The gaps that are closed where an item was: one from the edge into it to what came behind
it, if there are both, and else none. -/
def LeavesGap (context : Line.Context) (rest : Line) (gaps : List Gap) : Prop :=
  (link (context.entry none) (rest.entrance (context.exit none)) = [] ∧ gaps = []) ∨
    ∃ edge port target, context.entry none = some port ∧
      rest.entrance (context.exit none) = some target ∧
      edge.source = port.node ∧ edge.branch = port.branch ∧ gaps = [⟨edge, target, rest.isDone⟩]

/-- Deleting a block closes the gap where it was. -/
theorem Nests.leavesGap_block
    (nests : flow.Nests (context.plug (.cons (.block head lanes merge) out rest)))
    (same : ∀ id, id ∈ removed ↔ id ∈ (Item.block head lanes merge).ids) :
    LeavesGap context rest
      (flow.gaps removed head ((flow.children merge).filter (· ∉ removed))) := by
  have into := nests.edgesTo_cases
  have outOf := nests.edgesFrom_cases
  rw [Item.first] at into
  rw [Item.last] at outOf
  rw [gaps, children]
  rcases into with ⟨entry, none'⟩ | ⟨edge, port, entry, only, source, branch⟩
  · left
    rw [entry, none']
    exact ⟨rfl, rfl⟩
  · -- Neither end of the gap is in the block, so the edges at both ends count.
    have enters : edge.source ∉ removed := fun inside => by
      rw [source] at inside
      exact nests.notMem_item_of_entry entry ((same _).mp inside)
    rcases outOf with ⟨entrance, none'⟩ | ⟨leaving, entrance, single⟩
    · left
      rw [entry, entrance, none']
      exact ⟨rfl, by simp⟩
    · have leaves : leaving.target ∉ removed := fun inside =>
        nests.notMem_item_of_entrance entrance ((same _).mp inside)
      right
      refine ⟨edge, port, leaving.target, entry, entrance, source, branch, ?_⟩
      rw [only, single, ← nests.isJoin_entrance same entrance]
      simp [enters, leaves]

/-- Deleting a step closes the gap where it was. -/
theorem Nests.leavesGap_step (nests : flow.Nests (context.plug (.cons (.step id) out rest))) :
    LeavesGap context rest (flow.stepGaps id) := by
  have into := nests.edgesTo_cases
  have outOf := nests.edgesFrom_cases
  rw [Item.first] at into
  rw [Item.last] at outOf
  rw [stepGaps]
  rcases outOf with ⟨entrance, none'⟩ | ⟨leaving, entrance, single⟩
  · left
    rw [entrance, none']
    exact ⟨by cases context.entry none <;> rfl, rfl⟩
  · rw [single]
    rcases into with ⟨entry, none'⟩ | ⟨edge, port, entry, only, source, branch⟩
    · left
      rw [entry, none']
      exact ⟨rfl, rfl⟩
    · right
      refine ⟨edge, port, leaving.target, entry, entrance, source, branch, ?_⟩
      rw [only, ← @Nests.isJoin_entrance _ _ _ _ _ [id] _ nests (fun _ => Iff.rfl) entrance]
      rfl

/-- A gap into a join needs a slot if it starts at a head. -/
theorem exists_slotHead? {gap : Gap} (joins : gap.intoJoin = true)
    (opens : flow.isHead gap.edge.source = true) :
    ∃ opener, flow.slotHead? gap = some opener := by
  rw [slotHead?, if_pos joins]
  cases found : flow.node? gap.edge.source with
  | none => simp [isHead, found] at opens
  | some node =>
    have isHead : node.isHead = true := (isHead_of_node? found).symm.trans opens
    exact ⟨node, by simp [isHead]⟩

/-- Other gaps need none. -/
theorem slotHead?_eq_none {gap : Gap}
    (h : gap.intoJoin = false ∨ flow.isHead gap.edge.source = false) :
    flow.slotHead? gap = none := by
  rcases h with straight | plain
  · rw [slotHead?, straight, if_neg Bool.false_ne_true]
  · rw [slotHead?]
    split
    · cases found : flow.node? gap.edge.source with
      | none => rfl
      | some node =>
        have isHead : node.isHead = false := (isHead_of_node? found).symm.trans plain
        simp [isHead]
    · rfl

/-- Closing one gap is all there is to do. -/
theorem run_bridgeAll_singleton (gap : Gap) (supply : Supply) :
    StateT.run (flow.bridgeAll [gap]) supply = StateT.run (flow.bridge gap) supply := by
  rw [run_bridgeAll_cons]
  have rest : ∀ left, StateT.run (flow.bridgeAll []) left = ({}, left) := fun _ => rfl
  simp [rest, Patch.append]
  rfl

/-- The gap where an item was is closed by one edge, or through a slot if the branch is empty
without the item. -/
theorem LeavesGap.run_bridgeAll (nests : flow.Nests (context.plug part))
    (h : LeavesGap context rest gaps) (supply : Supply) : ∃ text,
      (StateT.run (flow.bridgeAll gaps) supply).1.nodes =
        (if context.empties rest then [.branchPlaceholder (supply.upcoming 0) text] else []) ∧
      (StateT.run (flow.bridgeAll gaps) supply).1.edges.map Edge.wire ++
          rest.inner (context.exit none) =
        (context.remnant (supply.upcoming 0) rest).wires (context.entry none)
          (context.exit none) := by
  rcases h with ⟨shut, rfl⟩ | ⟨edge, port, target, entry, entrance, source, branch, rfl⟩
  · -- An emptied branch has both ends.
    have whole : context.empties rest = false := by
      rw [Bool.eq_false_iff]
      intro empties
      obtain ⟨opens, rfl⟩ := Line.Context.empties_iff.mp empties
      obtain ⟨⟨port, entry⟩, merge, exit⟩ := Line.Context.exists_ends_of_opens opens none none
      rw [Line.entrance, entry, exit] at shut
      cases shut
    refine ⟨"", by rw [whole]; rfl, ?_⟩
    rw [Line.Context.remnant, whole, if_neg Bool.false_ne_true, rest.wires_eq, shut]
    rfl
  · have opens := nests.isHead_entry entry
    rw [← source] at opens
    rw [run_bridgeAll_singleton]
    cases empties : context.empties rest with
    | true =>
      -- The gap leads from the head of a block to its merge, so a slot is put in.
      obtain ⟨atHead, rfl⟩ := Line.Context.empties_iff.mp empties
      rw [atHead] at opens
      obtain ⟨opener, slotted⟩ :=
        @exists_slotHead? flow ⟨edge, target, Line.done.isDone⟩ rfl opens
      rw [run_bridge_of_some slotted]
      refine ⟨opener.branchLabel edge.branch, by rw [if_pos rfl], ?_⟩
      rw [Line.entrance] at entrance
      rw [Line.Context.remnant, if_pos empties, entry, entrance]
      simp [Line.wires, Line.inner, Item.wires, link, Item.first, Item.last, source, branch]
    | false =>
      -- Either the gap does not start at a head or it does not lead into a join.
      have direct : flow.slotHead? ⟨edge, target, rest.isDone⟩ = none := by
        rw [Line.Context.empties, Bool.and_eq_false_iff, ← opens] at empties
        exact slotHead?_eq_none empties.symm
      rw [run_bridge_of_none direct]
      refine ⟨"", by rw [if_neg Bool.false_ne_true], ?_⟩
      rw [Line.Context.remnant, empties, if_neg Bool.false_ne_true, rest.wires_eq, entry, entrance]
      simp [link, source, branch]

/-! ### The flow without an item -/

/-- A flow without the same nodes is the same flow. -/
theorem without_congr {others : List NodeId} (same : ∀ id, id ∈ removed ↔ id ∈ others) :
    flow.without removed = flow.without others := by
  simp only [without, same]

theorem idsIn_congr {others : List NodeId} (same : ∀ id, id ∈ removed ↔ id ∈ others) :
    flow.idsIn removed = flow.idsIn others := by
  simp only [idsIn, same]

/-- What stays in the place of an item has the nodes behind the item, and the slot if one is
put in. -/
theorem ids_remnant_perm {slot : NodeId} {text : String} (nodes : patch.nodes =
      if context.empties rest then [.branchPlaceholder slot text] else []) :
    (rest.ids ++ patch.nodes.map (·.id)).Perm (context.remnant slot rest).ids := by
  rw [nodes, Line.Context.remnant]
  cases empties : context.empties rest with
  | true =>
    obtain ⟨-, rfl⟩ := Line.Context.empties_iff.mp empties
    exact .refl _
  | false =>
    rw [if_neg Bool.false_ne_true, if_neg Bool.false_ne_true, List.map_nil, List.append_nil]

/-- What stays in the place of an item plays its roles. -/
theorem Nests.plays_remnant (nests : flow.Nests (context.plug (.cons item out rest)))
    {slot : NodeId} {text : String} (old : ∀ id ∈ flow.ids, id ∉ patch.nodes.map (·.id))
    (nodes : patch.nodes =
      if context.empties rest then [.branchPlaceholder slot text] else []) :
    ∀ spot ∈ (context.remnant slot rest).spots (context.depth 0),
      ((flow.without item.ids).append patch).Plays spot.id spot.role := by
  intro spot member
  rw [Line.Context.remnant] at member
  cases empties : context.empties rest with
  | true =>
    -- The slot is the only node, and a new one.
    rw [if_pos empties] at member nodes
    obtain rfl := List.mem_singleton.mp member
    have new : slot ∉ (flow.without item.ids).ids := by
      intro stays
      rw [Flow.ids_without] at stays
      exact old slot (List.mem_filter.mp stays).1
        (by rw [nodes]; exact List.mem_singleton.mpr rfl)
    have found : ((flow.without item.ids).append patch).node? slot =
        some (.branchPlaceholder slot text) := by
      rw [node?_append_of_mem new, nodes]
      exact List.find?_cons_of_pos (decide_eq_true rfl)
    exact Plays.of_node? found rfl rfl
  | false =>
    -- The nodes behind the item have the roles that they had.
    rw [empties, if_neg Bool.false_ne_true] at member
    have behind : spot.id ∈ rest.ids := by
      rw [← rest.map_id_spots (context.depth 0)]
      exact List.mem_map_of_mem member
    obtain ⟨hhead, hmerge⟩ := @roles_replaced flow spot.id patch item.ids
      (nests.notMem_item_of_rest behind) (old _ (nests.mem_ids_of_rest behind))
    have plays := nests.plays_parts.2 spot (List.mem_append_right _ member)
    exact ⟨hhead.trans plays.1, hmerge.trans plays.2⟩

/-- A well-nested flow from which an item is taken out is well-nested once the gap is closed. -/
theorem Nests.excise (nests : flow.Nests (context.plug (.cons item out rest)))
    {slot : NodeId} {text : String} (unused : ∀ node ∈ patch.nodes, node.id ∉ flow.ids)
    (nodes : patch.nodes =
      if context.empties rest then [.branchPlaceholder slot text] else [])
    (wires : patch.edges.map Edge.wire ++ rest.inner (context.exit none) =
      (context.remnant slot rest).wires (context.entry none) (context.exit none)) :
    ((flow.without item.ids).append patch).Nests (context.plug (context.remnant slot rest)) := by
  have old : ∀ id ∈ flow.ids, id ∉ patch.nodes.map (·.id) := by
    intro id known inside
    obtain ⟨node, member, rfl⟩ := List.mem_map.mp inside
    exact unused node member known
  refine nests.regraft ?_ ?_ ?_ ?_ (nests.plays_remnant old nodes) ?_
  · have single : (patch.nodes.map (·.id)).Nodup := by
      rw [nodes]
      split <;> simp
    rw [ids_append, Flow.ids_without]
    refine List.nodup_append.mpr ⟨nests.distinct.filter _, single, ?_⟩
    rintro id stays _ inside rfl
    exact old id (List.mem_filter.mp stays).1 inside
  · calc ((flow.without item.ids).append patch).ids
        = (flow.without item.ids).ids ++ patch.nodes.map (·.id) := ids_append _ _
      _ ~ context.ids ++ rest.ids ++ patch.nodes.map (·.id) := nests.ids_without.append_right _
      _ = context.ids ++ (rest.ids ++ patch.nodes.map (·.id)) := List.append_assoc _ _ _
      _ ~ context.ids ++ (context.remnant slot rest).ids := (ids_remnant_perm nodes).append_left _
  · -- The new edges take the place of those that were around the item.
    calc ((flow.without item.ids).append patch).wires
        = (flow.without item.ids).wires ++ patch.edges.map Edge.wire := wires_append _ _
      _ ~ context.wires none none ++ rest.inner (context.exit none) ++
            patch.edges.map Edge.wire := nests.wires_without.append_right _
      _ = context.wires none none ++ (rest.inner (context.exit none) ++
            patch.edges.map Edge.wire) := List.append_assoc _ _ _
      _ ~ context.wires none none ++ (patch.edges.map Edge.wire ++
            rest.inner (context.exit none)) := List.perm_append_comm.append_left _
      _ = context.wires none none ++ (context.remnant slot rest).wires (context.entry none)
            (context.exit none) := by rw [wires]
  · intro id around
    exact roles_replaced (nests.notMem_item_of_context around)
      (old id (nests.mem_ids_of_context around))
  · intro block member
    apply nests.forked_parts.2 block
    rw [Line.Context.remnant] at member
    split at member
    · simp at member
    · simp [member]

/-- The heads that stay when an item is taken out go on to name their own merges. -/
theorem NamesOwn.excise (nests : flow.Nests (context.plug (.cons item out rest)))
    (named : flow.NamesOwn (context.plug (.cons item out rest))) {slot : NodeId} {text : String}
    (nodes : patch.nodes =
      if context.empties rest then [.branchPlaceholder slot text] else []) :
    ((flow.without item.ids).append patch).NamesOwn (context.plug (context.remnant slot rest)) := by
  intro node member merge names
  rcases List.mem_append.mp member with stays | new
  · obtain ⟨old, outside⟩ := mem_nodes_without.mp stays
    obtain ⟨block, inside, head, last⟩ := named node old merge names
    refine ⟨block, (context.blocks_plug _).mem_iff.mpr ?_, head, last⟩
    rcases List.mem_append.mp ((context.blocks_plug _).mem_iff.mp inside) with around | part
    · exact List.mem_append_left _ around
    · rw [Line.blocks_cons, List.mem_append] at part
      rcases part with own | behind
      · -- The head of a block in the item has gone with it.
        have gone := (Item.mem_ids_of_mem_blocks own).1
        rw [head] at gone
        exact absurd gone outside
      · apply List.mem_append_right _
        cases rest with
        | done => cases behind
        | cons next more rest => simpa [Line.Context.remnant, Line.Context.empties, Line.isDone] using behind
  · rw [nodes] at new
    split at new
    · obtain rfl := List.mem_singleton.mp new
      cases names
    · cases new

/-! ### Changes that take out an item -/

/-- A change takes out an item: its nodes go, and the gap is closed. -/
def Excises (flow : Flow) (context : Line.Context) (item : Item) (rest : Line) (slot : NodeId)
    (change : Change) : Prop :=
  ∃ patch text, change.flow = ((flow.without item.ids).append patch).settle (fun merge => merge) ∧
    change.added = patch.nodes.map (·.id) ∧
    patch.nodes = (if context.empties rest then [.branchPlaceholder slot text] else []) ∧
    patch.edges.map Edge.wire ++ rest.inner (context.exit none) =
      (context.remnant slot rest).wires (context.entry none) (context.exit none)

/-- Taking out the nodes of an item and closing the gap takes out the item. -/
theorem LeavesGap.excises (h : LeavesGap context rest gaps)
    (nests : flow.Nests (context.plug part)) (same : ∀ id, id ∈ removed ↔ id ∈ item.ids)
    (told : List NodeId) (supply : Supply) :
    flow.Excises context item rest (supply.upcoming 0)
      (StateT.run (flow.removeAndBridge removed told gaps fun merge => merge) supply).1 := by
  obtain ⟨text, nodes, wires⟩ := h.run_bridgeAll nests supply
  refine ⟨(StateT.run (flow.bridgeAll gaps) supply).1, text, ?_, rfl, nodes, wires⟩
  rw [← without_congr same]
  rfl

variable {slot : NodeId} {change : Change}

/-- A change that takes out an item leaves the flow of the sequence without it. -/
theorem Excises.nests (h : flow.Excises context item rest slot change)
    (nests : flow.Nests (context.plug (.cons item out rest)))
    (unused : ∀ id ∈ change.added, id ∉ flow.ids) :
    change.flow.Nests (context.plug (context.remnant slot rest)) := by
  obtain ⟨patch, text, after, added, nodes, wires⟩ := h
  rw [after, nests_settle]
  exact nests.excise (fun node member => unused _ (added ▸ List.mem_map_of_mem member)) nodes wires

/-- A change that takes out an item leaves heads that name their own merges. -/
theorem Excises.namesOwn (h : flow.Excises context item rest slot change)
    (nests : flow.Nests (context.plug (.cons item out rest)))
    (named : flow.NamesOwn (context.plug (.cons item out rest))) :
    change.flow.NamesOwn (context.plug (context.remnant slot rest)) := by
  obtain ⟨patch, text, after, -, nodes, -⟩ := h
  rw [after]
  exact (named.excise nests nodes).settle

/-- A change that takes out an item keeps all other nodes as they are. -/
theorem Excises.nodes_eq (h : flow.Excises context item rest slot change)
    (nests : flow.Nests (context.plug (.cons item out rest)))
    (named : flow.NamesOwn (context.plug (.cons item out rest)))
    (unused : ∀ id ∈ change.added, id ∉ flow.ids) : ∃ text,
      change.flow.nodes = flow.nodes.filter (·.id ∉ item.ids) ++
        (if context.empties rest then [.branchPlaceholder slot text] else []) := by
  have settled := h.nests nests unused
  obtain ⟨patch, text, after, -, nodes, -⟩ := h
  rw [after, nests_settle] at settled
  refine ⟨text, ?_⟩
  rw [after, settle_eq_self settled (named.excise nests nodes), append, nodes, without]

/-- What stays in the place of an item has no more nodes and edges. -/
theorem length_remnant_le (context : Line.Context) (slot : NodeId) (item : Item)
    (out : Option String) (rest : Line) (entry : Option Port) (exit : Option NodeId) :
    (context.remnant slot rest).ids.length ≤ (Line.cons item out rest).ids.length ∧
      ((context.remnant slot rest).wires entry exit).length ≤
        ((Line.cons item out rest).wires entry exit).length := by
  have filled : 0 < item.ids.length := List.length_pos_of_mem item.first_mem_ids
  have into : ∀ target, (link entry target).length ≤ (link entry (some item.first)).length := by
    intro target
    cases entry <;> cases target <;> simp [link]
  rw [Line.Context.remnant]
  split
  · rename_i empties
    obtain ⟨-, rfl⟩ := Line.Context.empties_iff.mp empties
    have outOf : (link (some ⟨slot, none⟩) exit).length = (link (some ⟨item.last, out⟩) exit).length := by
      cases exit <;> rfl
    refine ⟨by simpa using Nat.succ_le_of_lt filled, ?_⟩
    have first := into (some slot)
    have single : (Line.cons (.step slot) none .done).wires entry exit =
        link entry (some slot) ++ link (some ⟨slot, none⟩) exit := by
      simp [Line.wires, Item.wires, Item.first, Item.last]
    rw [single, Line.wires, Line.wires, List.length_append, List.length_append,
      List.length_append, outOf]
    omega
  · refine ⟨by simp, ?_⟩
    have first := into (rest.entrance exit)
    rw [Line.wires, rest.wires_eq, rest.wires_eq]
    simp only [List.length_append]
    omega

/-- The searches may take enough steps in a flow from which an item was taken out, if they did
before. -/
theorem Excises.covers {limits : Limits} (h : flow.Excises context item rest slot change)
    (nests : flow.Nests (context.plug (.cons item out rest)))
    (unused : ∀ id ∈ change.added, id ∉ flow.ids) (covers : limits.Covers flow) :
    limits.Covers change.flow := by
  have after := h.nests nests unused
  obtain ⟨fewerIds, fewerWires⟩ :=
    length_remnant_le context slot item out rest (context.entry none) (context.exit none)
  have nodes := nests.ids_perm.length_eq
  have nodesAfter := after.ids_perm.length_eq
  have edges := nests.wires_perm.length_eq
  have edgesAfter := after.wires_perm.length_eq
  simp only [Flow.ids, Flow.wires, List.length_map, List.length_append] at nodes nodesAfter edges edgesAfter
  obtain ⟨search, scan⟩ := covers
  exact ⟨by omega, by omega⟩

theorem Excises.added_eq (h : flow.Excises context item rest slot change) :
    change.added = if context.empties rest then [slot] else [] := by
  obtain ⟨patch, text, -, added, nodes, -⟩ := h
  rw [added, nodes]
  split <;> rfl

end Flow

end Workflow
