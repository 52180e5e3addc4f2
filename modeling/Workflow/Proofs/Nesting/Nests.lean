import Workflow.Proofs.Nesting.Context
import Workflow.Proofs.Nesting.Host

/-!
# Well-nested flows

A flow is well-nested if it is the graph of a sequence of items: it has the nodes and
the edges of the sequence, in any order, its identities are distinct, and its nodes play
their roles. Each item of the sequence, at any depth, is then a part that the flow hosts.

## Main definitions

* `Flow.wires` — the edges of a flow without their identities and further members
* `Flow.Nests`, `Flow.WellNested` — a flow is the graph of a sequence
* `Flow.NamesOwn` — no merge is named but by the head of its block
* `Limits.Covers` — the searches may take as many steps as the flow has nodes and edges

## Main results

* `Nests.hosts` — a well-nested flow hosts each of its items
* `Nests.acyclic` — a well-nested flow has no cycle
* `Nests.regraft` — changing a part of a well-nested flow leaves it well-nested
-/

namespace Workflow

/-- An edge without its identity and further members. -/
def Edge.wire (edge : Edge) : Wire := ⟨edge.source, edge.target, edge.branch⟩

/-- Each search may take as many steps as a flow has nodes and edges. -/
structure Limits.Covers (limits : Limits) (flow : Flow) : Prop where
  search : (flow.nodes.length + flow.edges.length : Int) ≤ limits.maxIterations
  scan : (flow.nodes.length + flow.edges.length : Int) ≤ limits.scanLimit

instance (limits : Limits) (flow : Flow) : Decidable (limits.Covers flow) :=
  decidable_of_iff
    ((flow.nodes.length + flow.edges.length : Int) ≤ limits.maxIterations ∧
      (flow.nodes.length + flow.edges.length : Int) ≤ limits.scanLimit)
    ⟨fun h => ⟨h.1, h.2⟩, fun h => ⟨h.search, h.scan⟩⟩

/-- In a flow with a node in it, the searches may take more steps than it has edges. -/
theorem Limits.Covers.edges_lt {limits : Limits} {flow : Flow} (covers : limits.Covers flow)
    {id : NodeId} (member : id ∈ flow.ids) : (flow.edges.length : Int) < limits.maxIterations ∧
      (flow.edges.length : Int) < limits.scanLimit := by
  have nonempty : 0 < flow.ids.length := List.length_pos_of_mem member
  rw [Flow.ids, List.length_map] at nonempty
  have search := covers.search
  have scan := covers.scan
  omega

namespace Flow

/-- The edges of a flow without their identities and further members. -/
def wires (flow : Flow) : List Wire := flow.edges.map Edge.wire

/-- A flow is the graph of a sequence, its nodes and edges in any order. -/
structure Nests (flow : Flow) (line : Line) : Prop where
  distinct : flow.ids.Nodup
  ids : flow.ids.Perm line.ids
  wires : flow.wires.Perm (line.wires none none)
  plays : ∀ spot ∈ line.spots 0, flow.Plays spot.id spot.role
  forked : ∀ block ∈ line.blocks, 0 < block.width

instance (flow : Flow) (line : Line) : Decidable (flow.Nests line) :=
  decidable_of_iff
    (flow.ids.Nodup ∧ flow.ids.Perm line.ids ∧ flow.wires.Perm (line.wires none none) ∧
      (∀ spot ∈ line.spots 0, flow.Plays spot.id spot.role) ∧ ∀ block ∈ line.blocks, 0 < block.width)
    ⟨fun ⟨distinct, ids, wires, plays, forked⟩ => ⟨distinct, ids, wires, plays, forked⟩,
      fun h => ⟨h.distinct, h.ids, h.wires, h.plays, h.forked⟩⟩

/-- A flow is the graph of some sequence. -/
def WellNested (flow : Flow) : Prop := ∃ line, flow.Nests line

/-- No node names a merge, except that the head of a block may name the merge of its block. -/
def NamesOwn (flow : Flow) (line : Line) : Prop :=
  ∀ node ∈ flow.nodes, ∀ merge, node.content.mergeNodeId = some merge →
    ∃ block ∈ line.blocks, block.head = node.id ∧ block.merge = merge

instance (flow : Flow) (line : Line) : Decidable (flow.NamesOwn line) :=
  inferInstanceAs (Decidable (∀ node ∈ flow.nodes, ∀ merge ∈ node.content.mergeNodeId,
    ∃ block ∈ line.blocks, block.head = node.id ∧ block.merge = merge))

variable {flow after : Flow} {line part rest : Line} {context : Line.Context} {item : Item}
  {out : Option String} {wire : Wire} {id child : NodeId} {limits : Limits}

theorem leads_iff_exists_wire : flow.Leads id child ↔
    ∃ wire ∈ flow.wires, wire.source = id ∧ wire.target = child := by
  simp [Leads, wires, Edge.wire]

/-- In a well-nested flow edges lead forward in the order of the sequence. -/
theorem Nests.idxOf_lt (nests : flow.Nests line) (leads : flow.Leads id child) :
    line.ids.idxOf id < line.ids.idxOf child := by
  obtain ⟨wire, member, rfl, rfl⟩ := leads_iff_exists_wire.mp leads
  have order := Line.sublist_of_mem_wires (nests.wires.mem_iff.mp member)
  simp only [Line.course, Option.map_none, Option.toList_none, List.nil_append,
    List.append_nil] at order
  exact idxOf_lt_of_sublist (nests.ids.nodup_iff.mp nests.distinct) order

/-- In a well-nested flow no edges lead back to where they came from. -/
theorem Nests.acyclic (nests : flow.Nests line) : ¬ Relation.TransGen flow.Leads id id := by
  have forward : ∀ {child}, Relation.TransGen flow.Leads id child →
      line.ids.idxOf id < line.ids.idxOf child := by
    intro child path
    induction path with
    | single leads => exact nests.idxOf_lt leads
    | tail _ leads ih => exact Nat.lt_trans ih (nests.idxOf_lt leads)
  exact fun round => Nat.lt_irrefl _ (forward round)

/-! ### The parts of a well-nested flow -/

/-- The edges of a well-nested flow are those around a part and those of the part. -/
theorem Nests.wires_perm (nests : flow.Nests (context.plug part)) :
    flow.wires.Perm (context.wires none none ++
      part.wires (context.entry none) (context.exit none)) :=
  nests.wires.trans (context.wires_plug part none none)

/-- The identities of a well-nested flow are those around a part and those of the part. -/
theorem Nests.ids_perm (nests : flow.Nests (context.plug part)) :
    flow.ids.Perm (context.ids ++ part.ids) :=
  nests.ids.trans (context.ids_plug part)

theorem Nests.mem_ids_of_item (nests : flow.Nests (context.plug (.cons item out rest)))
    (inside : id ∈ item.ids) : id ∈ flow.ids :=
  nests.ids_perm.mem_iff.mpr (by simp [inside])

theorem Nests.nodup (nests : flow.Nests (context.plug part)) : (context.ids ++ part.ids).Nodup :=
  nests.ids_perm.nodup_iff.mp nests.distinct

/-- The nodes around a part and those of the part play their roles. -/
theorem Nests.plays_parts (nests : flow.Nests (context.plug part)) :
    (∀ spot ∈ context.spots 0, flow.Plays spot.id spot.role) ∧
      ∀ spot ∈ part.spots (context.depth 0), flow.Plays spot.id spot.role := by
  have whole := fun spot => (context.spots_plug part 0).mem_iff (a := spot)
  exact ⟨fun spot member => nests.plays spot ((whole spot).mpr (List.mem_append_left _ member)),
    fun spot member => nests.plays spot ((whole spot).mpr (List.mem_append_right _ member))⟩

/-- The blocks around a part and those of the part have branches. -/
theorem Nests.forked_parts (nests : flow.Nests (context.plug part)) :
    (∀ block ∈ context.blocks, 0 < block.width) ∧ ∀ block ∈ part.blocks, 0 < block.width := by
  have whole := fun block => (context.blocks_plug part).mem_iff (a := block)
  exact ⟨fun block member => nests.forked block ((whole block).mpr (List.mem_append_left _ member)),
    fun block member => nests.forked block ((whole block).mpr (List.mem_append_right _ member))⟩

/-- Changing a part of a well-nested flow leaves it well-nested, if the nodes around the part
keep their roles. -/
theorem Nests.regraft {new : Line} (nests : flow.Nests (context.plug part))
    (distinct : after.ids.Nodup) (ids : after.ids.Perm (context.ids ++ new.ids))
    (wires : after.wires.Perm (context.wires none none ++
      new.wires (context.entry none) (context.exit none)))
    (kept : ∀ id ∈ context.ids, after.isHead id = flow.isHead id ∧ after.isMerge id = flow.isMerge id)
    (plays : ∀ spot ∈ new.spots (context.depth 0), after.Plays spot.id spot.role)
    (forked : ∀ block ∈ new.blocks, 0 < block.width) : after.Nests (context.plug new) where
  distinct := distinct
  ids := ids.trans (context.ids_plug new).symm
  wires := wires.trans (context.wires_plug new none none).symm
  plays spot member := by
    rcases List.mem_append.mp ((context.spots_plug new 0).mem_iff.mp member) with around | inside
    · -- Around the part the roles are those of before.
      obtain ⟨hhead, hmerge⟩ := kept spot.id (List.mem_map_of_mem around)
      have before := nests.plays_parts.1 spot around
      exact ⟨hhead.trans before.1, hmerge.trans before.2⟩
    · exact plays spot inside
  forked block member := by
    rcases List.mem_append.mp ((context.blocks_plug new).mem_iff.mp member) with around | inside
    · exact nests.forked_parts.1 block around
    · exact forked block inside

/-- The edges of a well-nested flow around an item, into it, inside it and behind it. -/
theorem Nests.mem_wires_iff (nests : flow.Nests (context.plug (.cons item out rest))) :
    wire ∈ flow.wires ↔ wire ∈ context.wires none none ∨
      wire ∈ link (context.entry none) (some item.first) ∨ wire ∈ item.wires ∨
      wire ∈ rest.wires (some ⟨item.last, out⟩) (context.exit none) := by
  rw [nests.wires_perm.mem_iff, Line.wires]
  simp only [List.mem_append, or_assoc]

/-- A well-nested flow hosts each of its items. -/
theorem Nests.hosts (nests : flow.Nests (context.plug (.cons item out rest))) :
    flow.Hosts item := by
  have distinct := nests.nodup
  rw [Line.ids_cons, List.nodup_append, List.nodup_append] at distinct
  obtain ⟨-, ⟨inItem, -, apartRest⟩, apart⟩ := distinct
  have apartContext : ∀ {id}, id ∈ context.ids → id ∉ item.ids := fun around inside =>
    apart _ around _ (List.mem_append_left _ inside) rfl
  have apartBehind : ∀ {id}, id ∈ rest.ids → id ∉ item.ids := fun behind inside =>
    apartRest _ inside _ behind rfl
  refine ⟨⟨?_, ?_, ?_⟩, inItem, ?_, ?_⟩
  · intro wire member
    exact leads_iff_exists_wire.mpr
      ⟨wire, nests.mem_wires_iff.mpr (.inr (.inr (.inl member))), rfl, rfl⟩
  · exact plays_at_depth (fun spot member =>
      nests.plays_parts.2 spot (List.mem_append_left _ member)) 0
  · exact fun block member => nests.forked_parts.2 block (by simp [member])
  · -- Edges around the item and into it start outside, those behind it at its last node or later.
    intro id child inside short leads
    obtain ⟨wire, member, rfl, rfl⟩ := leads_iff_exists_wire.mp leads
    rcases nests.mem_wires_iff.mp member with around | into | inner | behind
    · have source := (Line.Context.mem_of_mem_wires around).1
      exact absurd inside (apartContext (by simpa using source))
    · have entry := (mem_link.mp into).1
      exact absurd inside (apartContext (Line.Context.node_mem_ids_of_entry entry))
    · exact ⟨wire, inner, rfl, rfl⟩
    · rcases List.mem_append.mp (Line.source_mem behind) with last | later
      · exact absurd (by simpa using last) short
      · exact absurd inside (apartBehind later)
  · -- The edge into the item ends at its first node, those around it and behind it outside.
    intro id child inside apartFirst leads
    obtain ⟨wire, member, rfl, rfl⟩ := leads_iff_exists_wire.mp leads
    rcases nests.mem_wires_iff.mp member with around | into | inner | behind
    · have target := (Line.Context.mem_of_mem_wires around).2
      exact absurd inside (apartContext (by simpa using target))
    · have first := (mem_link.mp into).2
      exact absurd (Option.some.inj first).symm apartFirst
    · exact ⟨wire, inner, rfl, rfl⟩
    · rcases List.mem_append.mp (Line.target_mem behind) with later | exit
      · exact absurd inside (apartBehind later)
      · exact absurd inside (apartContext (Line.Context.mem_ids_of_exit (by simpa using exit)))

/-- A well-nested flow hosts what is anywhere in its sequence, and has its nodes. -/
theorem Nests.hosts_of_mem_items (nests : flow.Nests line) (member : item ∈ line.items) :
    flow.Hosts item ∧ ∀ id ∈ item.ids, id ∈ flow.ids := by
  obtain ⟨context, out, rest, rfl⟩ := Line.exists_context_of_mem_items member
  exact ⟨nests.hosts, fun _ => nests.mem_ids_of_item⟩

/-- Behind an item the flow does not lead back into it. -/
theorem Nests.notMem_behind (nests : flow.Nests line) (hosts : flow.Hosts item)
    (leads : flow.Leads item.last child) : child ∉ item.ids := fun inside =>
  nests.acyclic ((Relation.TransGen.single leads).trans_left (hosts.reaches_last inside))

end Flow

end Workflow
