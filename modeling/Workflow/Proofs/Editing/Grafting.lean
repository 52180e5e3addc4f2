import Workflow.Proofs.Editing.Form
import Workflow.Proofs.Editing.Outcome
import Workflow.Proofs.Nesting.Neighbour

/-!
# Putting an item into a well-nested flow

A new step that is inserted on an edge of a well-nested flow, or takes the place of a plain
step, becomes an item of the sequence there.

## Main results

* `Nests.graft` — a flow with an item put in front of a part is well-nested
* `Nests.splice`, `Nests.fillWithBlock` — the two edits that put in an item
-/

namespace Workflow

namespace Flow

open scoped List

variable {flow base : Flow} {context : Line.Context} {item : Item} {out : Option String}
  {old rest part line : Line} {step : NewStep} {patch : Patch} {edge : Edge} {slot : Node}
  {source target id : NodeId} {limits : Limits}

/-- A flow is well-nested when a new item is put in front of what stays of a part. -/
theorem Nests.graft (nests : flow.Nests (context.plug old)) (forms : step.Forms item)
    (parts : patch.nodes = step.nodes) (fresh : (patch.nodes.map (·.id)).Nodup)
    (unused : ∀ id ∈ patch.nodes.map (·.id), id ∉ flow.ids)
    (spots : ∀ spot ∈ rest.spots (context.depth 0), spot ∈ old.spots (context.depth 0))
    (blocks : ∀ block ∈ rest.blocks, block ∈ old.blocks)
    (distinct : base.ids.Nodup) (ids : base.ids.Perm (context.ids ++ rest.ids))
    (same : ∀ id ∈ context.ids ++ rest.ids, base.node? id = flow.node? id)
    (wires : base.wires.Perm (context.wires none none ++ rest.inner (context.exit none)))
    (joined : (patch.edges.map Edge.wire).Perm (link (context.entry none) (some item.first) ++
      item.wires ++ link (some ⟨item.last, none⟩) (rest.entrance (context.exit none)))) :
    (base.append patch).Nests (context.plug (.cons item none rest)) := by
  have new : patch.nodes.map (·.id) = item.ids := by rw [parts, forms.ids]
  have known : ∀ id ∈ base.ids, id ∈ flow.ids := by
    intro id inside
    have stays := ids.mem_iff.mp inside
    have found := same id stays
    exact has_iff_mem_ids.mp (by rw [has, ← found, ← has]; exact has_iff_mem_ids.mpr inside)
  have apart : ∀ id ∈ base.ids, id ∉ patch.nodes.map (·.id) := fun id inside put =>
    unused id put (known id inside)
  have kept : ∀ id ∈ context.ids ++ rest.ids, (base.append patch).node? id = flow.node? id := by
    intro id inside
    rw [node?_append_of_notMem (apart id (ids.mem_iff.mpr inside)), same id inside]
  refine nests.regraft ?_ ?_ ?_ ?_ ?_ ?_
  · -- New identities are apart from those that stay, and from each other.
    rw [ids_append]
    refine List.nodup_append.mpr ⟨distinct, fresh, ?_⟩
    rintro id inside _ put rfl
    exact apart id inside put
  · calc (base.append patch).ids
        = base.ids ++ item.ids := by rw [ids_append, new]
      _ ~ context.ids ++ rest.ids ++ item.ids := ids.append_right _
      _ = context.ids ++ (rest.ids ++ item.ids) := List.append_assoc _ _ _
      _ ~ context.ids ++ (item.ids ++ rest.ids) := List.perm_append_comm.append_left _
      _ = context.ids ++ (Line.cons item none rest).ids := by rw [Line.ids_cons]
  · -- The new edges go between those around the part and those behind its first node.
    rw [wires_append, Line.wires, rest.wires_eq]
    apply (wires.append joined).trans
    rw [List.append_assoc, ← List.append_assoc (_ ++ item.wires)]
    exact List.Perm.append_left _ List.perm_append_comm
  · intro id around
    have found := kept id (List.mem_append_left _ around)
    exact ⟨isHead_congr found, isMerge_congr found⟩
  · intro spot member
    rcases List.mem_append.mp member with inside | behind
    · refine plays_at_depth (plays_append forms (new ▸ fresh) (fun id put old => ?_) parts)
        (context.depth 0) spot inside
      exact unused id (new ▸ put) (known id old)
    · have place : spot.id ∈ rest.ids := by
        rw [← rest.map_id_spots (context.depth 0)]
        exact List.mem_map_of_mem behind
      have found := kept spot.id (List.mem_append_right _ place)
      have plays := nests.plays_parts.2 spot (spots spot behind)
      exact ⟨(isHead_congr found).trans plays.1, (isMerge_congr found).trans plays.2⟩
  · intro block member
    rw [Line.blocks_cons, List.mem_append] at member
    rcases member with inside | behind
    · exact forms.forked block inside
    · exact nests.forked_parts.2 block (blocks block behind)

/-- Heads name their own merges when a new item is put in front of what stays of a part. -/
theorem NamesOwn.graft (named : flow.NamesOwn (context.plug old)) (forms : step.Forms item)
    (parts : patch.nodes = step.nodes) (blocks : ∀ block ∈ old.blocks, block ∈ rest.blocks)
    (fewer : ∀ node ∈ base.nodes, node ∈ flow.nodes) :
    (base.append patch).NamesOwn (context.plug (.cons item none rest)) := by
  intro node member merge names
  rcases List.mem_append.mp member with stays | new
  · -- The block that a node opened before is still there.
    obtain ⟨block, inside, ends⟩ := named node (fewer node stays) merge names
    refine ⟨block, (context.blocks_plug _).mem_iff.mpr ?_, ends⟩
    rcases List.mem_append.mp ((context.blocks_plug _).mem_iff.mp inside) with around | behind
    · exact List.mem_append_left _ around
    · simp [blocks block behind]
  · obtain ⟨block, inside, ends⟩ := forms.named node (parts ▸ new) merge names
    refine ⟨block, (context.blocks_plug _).mem_iff.mpr ?_, ends⟩
    simp [inside]

/-! ### Inserting -/

/-- Without its first edge between two nodes, a flow has one edge less. -/
theorem wires_cut (found : flow.edge? source target = some edge) :
    flow.wires.Perm (edge.wire :: (flow.cut source target).wires) :=
  (edges_cut found).map Edge.wire

/-- Inserting a step in a well-nested flow puts an item between two others. -/
theorem Nests.splice (nests : flow.Nests line) (named : flow.NamesOwn line)
    (found : flow.edge? source target = some edge) (forms : step.Forms item)
    (fresh : (flow.splice edge step).FreshFor flow) : ∃ grown,
      (flow.splice edge step).flow.Nests grown ∧ (flow.splice edge step).flow.NamesOwn grown := by
  obtain ⟨present, rfl, rfl⟩ := edge?_eq_some found
  have inside : edge.wire ∈ line.wires none none :=
    nests.wires.mem_iff.mp (List.mem_map_of_mem present)
  obtain ⟨context, part, rfl, entry, entrance⟩ := Line.exists_context_of_mem_wires inside
  -- What is left without the edge is what stands around it.
  have wires : (flow.cut edge.source edge.target).wires.Perm
      (context.wires none none ++ part.inner (context.exit none)) := by
    have whole := nests.wires_perm
    rw [part.wires_eq, entry, entrance] at whole
    have first : edge.wire :: (flow.cut edge.source edge.target).wires ~
        edge.wire :: (context.wires none none ++ part.inner (context.exit none)) :=
      calc edge.wire :: (flow.cut edge.source edge.target).wires
          ~ flow.wires := (wires_cut found).symm
        _ ~ context.wires none none ++ edge.wire :: part.inner (context.exit none) := whole
        _ ~ edge.wire :: (context.wires none none ++ part.inner (context.exit none)) :=
          List.perm_middle
    exact first.cons_inv
  refine ⟨context.plug (.cons item none part), nests_settle.mpr ?_, NamesOwn.settle ?_⟩
  · refine nests.graft forms rfl fresh.distinct (fun id put old => fresh.unused id put (.inl old))
      (fun _ member => member) (fun _ member => member) nests.distinct nests.ids_perm
      (fun _ _ => rfl) wires ?_
    have wire : edge.wire = ⟨edge.source, edge.target, edge.branch⟩ := rfl
    rw [entry, entrance, wire]
    simp [link, ← forms.wires, forms.first, forms.last]
  · exact named.graft forms rfl (fun _ member => member) (fun _ member => member)

/-! ### Filling -/

/-- The edges into a slot are turned to another node. -/
theorem map_link_target (entry : Option Port) (before after : NodeId) :
    (link entry (some before)).map (fun wire => ⟨wire.source, after, wire.branch⟩) =
      link entry (some after) := by
  cases entry <;> rfl

/-- The edges out of a slot are made to start at another node. -/
theorem map_link_source (before after : Port) (exit : Option NodeId) :
    (link (some before) exit).map (fun wire => ⟨after.node, wire.target, after.branch⟩) =
      link (some after) exit := by
  cases exit <;> rfl

/-- A block that fills a slot of a well-nested flow takes the place of the slot. -/
theorem Nests.fillWithBlock (nests : flow.Nests line) (named : flow.NamesOwn line)
    (plays : flow.Plays slot.id .step) (known : flow.node? slot.id = some slot)
    (forms : step.Forms item) (fresh : (flow.fillWithBlock limits slot step).FreshFor flow) :
    ∃ filled, (flow.fillWithBlock limits slot step).flow.Nests filled ∧
      (flow.fillWithBlock limits slot step).flow.NamesOwn filled := by
  obtain ⟨context, out, rest, rfl⟩ := nests.exists_step_of_plays (mem_ids_of_node? known) plays
  have plain : slot.isMerge = false := (isMerge_of_node? known).symm.trans plays.2
  have into : (flow.edgesTo slot.id).map Edge.wire =
      link (context.entry none) (some slot.id) := nests.edgesTo_first
  have outOf : (flow.edgesFrom slot.id).map Edge.wire =
      link (some ⟨slot.id, out⟩) (rest.entrance (context.exit none)) := nests.edgesFrom_last
  have single : (flow.edgesFrom slot.id).length ≤ 1 := nests.length_edgesFrom_last_le
  have enters : ((flow.edgesTo slot.id).map fun edge =>
      Edge.connect edge.source step.head.id edge.branch).map Edge.wire =
        link (context.entry none) (some item.first) := by
    rw [← map_link_target (context.entry none) slot.id item.first, ← into, List.map_map,
      List.map_map, forms.first]
    rfl
  have leaves : ((flow.edgesFrom slot.id).map fun edge =>
      Edge.connect step.exit edge.target none).map Edge.wire =
        link (some ⟨item.last, none⟩) (rest.entrance (context.exit none)) := by
    rw [← map_link_source ⟨slot.id, out⟩ ⟨item.last, none⟩, ← outOf, List.map_map,
      List.map_map, forms.last]
    rfl
  rw [fillWithBlock_eq (takesJoin_of_not_merge plain) single]
  refine ⟨context.plug (.cons item none rest), nests_settle.mpr ?_, NamesOwn.settle ?_⟩
  · refine nests.graft forms rfl fresh.distinct
      (fun id put old => fresh.unused id put (.inl old)) ?_ ?_ ?_ nests.ids_without ?_
      nests.wires_without ?_
    · exact fun spot member => List.mem_append_right _ member
    · exact fun block member => by simp [member]
    · rw [Flow.ids_without]
      exact nests.distinct.filter _
    · -- The slot is none of the nodes that stay.
      intro id stays
      apply node?_without
      rcases List.mem_append.mp stays with around | behind
      · exact nests.notMem_item_of_context around
      · exact nests.notMem_item_of_rest behind
    · rw [fillEdges, List.map_append, List.map_append, enters, leaves, forms.wires]
  · apply named.graft forms rfl (fun block member => by simpa using member)
    exact fun node stays => (mem_nodes_without.mp stays).1

end Flow

end Workflow
