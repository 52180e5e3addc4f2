import Mathlib.Data.List.Perm.Basic
import Workflow.Proofs.Nesting.Level

/-!
# Sequences with a part taken out

A place in a sequence is given by what stands around it: the items before it, and the
blocks on whose branches it is. Putting a part there gives the whole sequence, whose
edges, spots and blocks are those of the surroundings and those of the part. So an
edit that changes a part changes nothing else.

## Main definitions

* `Line.Frame`, `Line.Context` — one layer, or all layers, around a part
* `Line.Context.plug` — the sequence with a part put in

## Main results

* `Line.Context.wires_plug`, `spots_plug`, `blocks_plug` — what the whole consists of
* `Line.exists_context_of_mem_ids`, `..._of_mem_wires`, `..._of_mem_items` — where things are
-/

namespace Workflow

namespace Line

/-- One layer around a part: an item before it, or a block on one of whose branches it is. -/
inductive Frame where
  | after (item : Item) (out : Option String)
  | within (head : NodeId) (before : List Lane) (via : Option String) (behind : List Lane)
      (merge : NodeId) (out : Option String) (rest : Line)

/-- The layers around a part, the outermost first. -/
abbrev Context := List Frame

namespace Frame

/-- The sequence with a part put into one layer. -/
def wrap : Frame → Line → Line
  | after item out, part => .cons item out part
  | within head before via behind merge out rest, part =>
    .cons (.block head (before ++ (via, part) :: behind) merge) out rest

/-- The port from which the part is entered. -/
def port : Frame → Port
  | after item out => ⟨item.last, out⟩
  | within head _ via _ _ _ _ => ⟨head, via⟩

/-- The node to which the part leads on, if the layer leads on to `exit`. -/
def exit (exit : Option NodeId) : Frame → Option NodeId
  | after _ _ => exit
  | within _ _ _ _ merge _ _ => some merge

/-- The depth of the part, if the layer stands at `depth`. -/
def depth (depth : Int) : Frame → Int
  | after _ _ => depth
  | within _ _ _ _ _ _ _ => depth + 1

/-- Whether the part begins a branch. -/
def opens : Frame → Bool
  | after _ _ => false
  | within _ _ _ _ _ _ _ => true

/-- The edges of a layer. -/
def wires (entry : Option Port) (exit : Option NodeId) : Frame → List Wire
  | after item _ => link entry (some item.first) ++ item.wires
  | within head before _ behind merge out rest =>
    link entry (some head) ++ laneWires head merge before ++ laneWires head merge behind ++
      rest.wires (some ⟨merge, out⟩) exit

/-- The spots of a layer. -/
def spots (depth : Int) : Frame → List Spot
  | after item _ => item.spots depth
  | within head before _ behind merge _ rest =>
    ⟨head, .head, depth⟩ :: laneSpots (depth + 1) before ++ laneSpots (depth + 1) behind ++
      ⟨merge, .merge, depth + 1⟩ :: rest.spots depth

/-- The blocks of a layer. -/
def blocks : Frame → List Block
  | after item _ => item.blocks
  | within head before _ behind merge _ rest =>
    ⟨head, merge, before.length + behind.length + 1⟩ :: laneBlocks before ++ laneBlocks behind ++
      rest.blocks

end Frame

namespace Context

/-- The sequence with a part put in. -/
def plug : Context → Line → Line
  | [], part => part
  | frame :: context, part => frame.wrap (plug context part)

/-- The port from which the part is entered. -/
def entry (entry : Option Port) : Context → Option Port
  | [] => entry
  | frame :: context => Context.entry (some frame.port) context

/-- The node to which the part leads on. -/
def exit (exit : Option NodeId) : Context → Option NodeId
  | [] => exit
  | frame :: context => Context.exit (frame.exit exit) context

/-- The depth of the part. -/
def depth (depth : Int) : Context → Int
  | [] => depth
  | frame :: context => Context.depth (frame.depth depth) context

/-- Whether the part begins a branch. -/
def opens : Context → Bool
  | [] => false
  | [frame] => frame.opens
  | _ :: next :: context => Context.opens (next :: context)

/-- The edges around the part. -/
def wires (entry : Option Port) (exit : Option NodeId) : Context → List Wire
  | [] => []
  | frame :: context =>
    frame.wires entry exit ++ Context.wires (some frame.port) (frame.exit exit) context

/-- The spots around the part. -/
def spots (depth : Int) : Context → List Spot
  | [] => []
  | frame :: context => frame.spots depth ++ Context.spots (frame.depth depth) context

/-- The blocks around the part. -/
def blocks : Context → List Block
  | [] => []
  | frame :: context => frame.blocks ++ Context.blocks context

/-- The identities around the part. -/
def ids (context : Context) : List NodeId := (context.spots 0).map (·.id)

end Context

variable {context : Context} {frame : Frame} {part line rest : Line} {entry : Option Port}
  {exit : Option NodeId} {depth : Int} {wire : Wire} {id : NodeId} {port : Port}

/-! ### What the whole consists of -/

theorem Frame.wires_wrap (frame : Frame) (part : Line) (entry : Option Port)
    (exit : Option NodeId) : ((frame.wrap part).wires entry exit).Perm
      (frame.wires entry exit ++ part.wires (some frame.port) (frame.exit exit)) := by
  cases frame with
  | after item out => exact .refl _
  | within head before via behind merge out rest =>
    -- The part stands between the other branches, so the layer is not one piece of the list.
    rw [List.perm_iff_count]
    intro wire
    simp only [wrap, Line.wires, Item.wires, laneWires_append, laneWires, Frame.wires, port,
      Frame.exit, Item.first, Item.last, List.count_append]
    omega

theorem Frame.spots_wrap (frame : Frame) (part : Line) (depth : Int) :
    ((frame.wrap part).spots depth).Perm (frame.spots depth ++ part.spots (frame.depth depth)) := by
  cases frame with
  | after item out => exact .refl _
  | within head before via behind merge out rest =>
    rw [List.perm_iff_count]
    intro spot
    simp only [wrap, Line.spots, Item.spots, laneSpots_append, laneSpots, Frame.spots, Frame.depth,
      List.count_append, List.count_cons, List.count_nil]
    omega

theorem Frame.blocks_wrap (frame : Frame) (part : Line) :
    ((frame.wrap part).blocks).Perm (frame.blocks ++ part.blocks) := by
  cases frame with
  | after item out =>
    rw [wrap, Line.blocks_cons]
    exact .refl _
  | within head before via behind merge out rest =>
    have width : (before ++ (via, part) :: behind).length = before.length + behind.length + 1 := by
      rw [List.length_append, List.length_cons, Nat.add_assoc]
    rw [List.perm_iff_count]
    intro block
    simp only [wrap, Line.blocks_cons, Item.blocks_block, laneBlocks_append, laneBlocks_cons,
      Frame.blocks, width, List.count_append, List.count_cons]
    omega

/-- The port of a layer is at a node of it: a head if the part begins a branch. -/
theorem Frame.exists_port_spot (frame : Frame) (depth : Int) :
    ∃ spot ∈ frame.spots depth, spot.id = frame.port.node ∧ spot.role.isHead = frame.opens := by
  cases frame with
  | after item out =>
    cases item with
    | step id => exact ⟨⟨id, .step, depth⟩, by simp [Frame.spots, Item.spots], rfl, rfl⟩
    | block head lanes merge =>
      exact ⟨⟨merge, .merge, depth + 1⟩, by simp [Frame.spots, Item.spots], rfl, rfl⟩
  | within head before via behind merge out rest =>
    exact ⟨⟨head, .head, depth⟩, by simp [Frame.spots], rfl, rfl⟩

namespace Context

/-- The edges of the whole are those around the part and those of the part. -/
theorem wires_plug (context : Context) (part : Line) (entry : Option Port)
    (exit : Option NodeId) : ((context.plug part).wires entry exit).Perm
      (context.wires entry exit ++ part.wires (context.entry entry) (context.exit exit)) := by
  induction context generalizing entry exit with
  | nil => exact .refl _
  | cons frame context ih =>
    apply (frame.wires_wrap (plug context part) entry exit).trans
    rw [Context.wires, List.append_assoc]
    exact (ih (some frame.port) (frame.exit exit)).append_left _

/-- The spots of the whole are those around the part and those of the part. -/
theorem spots_plug (context : Context) (part : Line) (depth : Int) :
    ((context.plug part).spots depth).Perm
      (context.spots depth ++ part.spots (context.depth depth)) := by
  induction context generalizing depth with
  | nil => exact .refl _
  | cons frame context ih =>
    apply (frame.spots_wrap (plug context part) depth).trans
    rw [Context.spots, List.append_assoc]
    exact (ih (frame.depth depth)).append_left _

/-- The blocks of the whole are those around the part and those of the part. -/
theorem blocks_plug (context : Context) (part : Line) :
    (context.plug part).blocks.Perm (context.blocks ++ part.blocks) := by
  induction context with
  | nil => exact .refl _
  | cons frame context ih =>
    apply (frame.blocks_wrap (plug context part)).trans
    rw [Context.blocks, List.append_assoc]
    exact ih.append_left _

/-- The identities of the whole are those around the part and those of the part. -/
theorem ids_plug (context : Context) (part : Line) :
    (context.plug part).ids.Perm (context.ids ++ part.ids) := by
  rw [← part.map_id_spots (context.depth 0), ids, ← List.map_append]
  exact (context.spots_plug part 0).map _

/-! ### One more layer inside -/

theorem plug_concat (context : Context) (frame : Frame) (part : Line) :
    plug (context ++ [frame]) part = context.plug (frame.wrap part) := by
  induction context with
  | nil => rfl
  | cons outer context ih => rw [List.cons_append, plug, ih, plug]

theorem entry_concat (context : Context) (frame : Frame) (entry : Option Port) :
    Context.entry entry (context ++ [frame]) = some frame.port := by
  induction context generalizing entry with
  | nil => rfl
  | cons outer context ih => exact ih (some outer.port)

/-- A part that begins a branch is entered from a head and leads on to a merge. -/
theorem exists_ends_of_opens (h : context.opens = true) (entry : Option Port)
    (exit : Option NodeId) :
    (∃ port, context.entry entry = some port) ∧ ∃ merge, context.exit exit = some merge := by
  induction context generalizing entry exit with
  | nil => cases h
  | cons frame context ih =>
    cases context with
    | nil =>
      cases frame with
      | after item out => cases h
      | within head before via behind merge out rest => exact ⟨⟨_, rfl⟩, ⟨_, rfl⟩⟩
    | cons next context => exact ih h (some frame.port) (frame.exit exit)

/-! ### Where the edges around a part end -/

/-- An edge around a part leads from the entry or a node around it to such a node or the
exit. -/
theorem mem_of_mem_wires (h : wire ∈ context.wires entry exit) :
    wire.source ∈ (entry.map (·.node)).toList ++ context.ids ∧
      wire.target ∈ context.ids ++ exit.toList := by
  -- The edges of the whole with nothing put in are no fewer.
  have whole : wire ∈ (context.plug .done).wires entry exit :=
    (context.wires_plug .done entry exit).mem_iff.mpr (List.mem_append_left _ h)
  have same : (context.plug .done).ids.Perm context.ids := by
    simpa using context.ids_plug .done
  refine ⟨?_, ?_⟩
  · exact (same.append_left _).mem_iff.mp (Line.source_mem whole)
  · exact (same.append_right _).mem_iff.mp (Line.target_mem whole)

/-- The entry of a part is the last node before it: a head if the part begins a branch, and
otherwise none. -/
theorem exists_spot_of_entry (depth : Int) (h : context.entry entry = some port)
    (layered : context ≠ []) :
    ∃ spot ∈ context.spots depth, spot.id = port.node ∧ spot.role.isHead = context.opens := by
  induction context generalizing entry depth with
  | nil => exact absurd rfl layered
  | cons frame context ih =>
    cases context with
    | nil =>
      obtain rfl := Option.some.inj h
      obtain ⟨spot, member, ends⟩ := frame.exists_port_spot depth
      exact ⟨spot, by simpa [spots] using member, ends⟩
    | cons next context =>
      obtain ⟨spot, member, ends⟩ := @ih (some frame.port) (frame.depth depth) h (List.cons_ne_nil _ _)
      exact ⟨spot, List.mem_append_right _ member, ends⟩

/-- The exit of a part is a merge, unless it is the exit of the whole. -/
theorem exists_spot_of_exit (depth : Int) (h : context.exit exit = some id) :
    exit = some id ∨ ∃ spot ∈ context.spots depth, spot.id = id ∧ spot.role = .merge := by
  induction context generalizing exit depth with
  | nil => exact .inl h
  | cons frame context ih =>
    rcases ih (frame.depth depth) h with outer | ⟨spot, member, ends⟩
    · -- The exit of the part is that of the layer: the merge, if it is a block.
      cases frame with
      | after item out => exact .inl outer
      | within head before via behind merge out rest =>
        obtain rfl := Option.some.inj outer
        exact .inr ⟨⟨merge, .merge, depth + 1⟩, by simp [spots, Frame.spots], rfl, rfl⟩
    · exact .inr ⟨spot, List.mem_append_right _ member, ends⟩

/-- The entry of a part is a node around it, unless the whole is entered there. -/
theorem node_mem_ids_of_entry (h : context.entry none = some port) : port.node ∈ context.ids := by
  have layered : context ≠ [] := by
    rintro rfl
    cases h
  obtain ⟨spot, member, same, -⟩ := exists_spot_of_entry 0 h layered
  rw [← same]
  exact List.mem_map_of_mem member

/-- The exit of a part is a node around it, unless the whole leads on there. -/
theorem mem_ids_of_exit (h : context.exit none = some id) : id ∈ context.ids := by
  rcases exists_spot_of_exit 0 h with outer | ⟨spot, member, same, -⟩
  · cases outer
  · rw [← same]
    exact List.mem_map_of_mem member

end Context

/-! ### Where things are in a sequence -/

/-- A part of a branch is a part of the sequence that begins with the block. -/
private theorem exists_within {lanes : List Lane} {lane : Lane} (member : lane ∈ lanes)
    (h : lane.2 = Context.plug context part) (head merge : NodeId) (out : Option String)
    (rest : Line) : ∃ before behind, Line.cons (.block head lanes merge) out rest =
      Context.plug (.within head before lane.1 behind merge out rest :: context) part := by
  obtain ⟨before, behind, rfl⟩ := List.append_of_mem member
  refine ⟨before, behind, ?_⟩
  rw [Context.plug, Frame.wrap, ← h]

/-- A node of a sequence is the first or the last one of an item somewhere in it. -/
theorem exists_context_of_mem_ids (h : id ∈ line.ids) : ∃ context item out rest,
    line = Context.plug context (.cons item out rest) ∧ (id = item.first ∨ id = item.last) := by
  induction line with
  | done => simp at h
  | cons item out rest lanes ih =>
    rw [ids_cons, List.mem_append] at h
    rcases h with h | h
    · cases item with
      | step own => exact ⟨[], .step own, out, rest, rfl, .inl (List.mem_singleton.mp h)⟩
      | block head arms merge =>
        rw [Item.ids_block, List.cons_append, List.mem_cons, List.mem_append] at h
        rcases h with rfl | inside | last
        · exact ⟨[], .block id arms merge, out, rest, rfl, .inl rfl⟩
        · -- On a branch, one more layer stands around what is found there.
          obtain ⟨lane, member, inside⟩ := mem_laneIds.mp inside
          obtain ⟨context, item, out', rest', whole, ends⟩ := lanes lane member inside
          obtain ⟨before, behind, split⟩ := exists_within member whole head merge out rest
          exact ⟨_, item, out', rest', split, ends⟩
        · obtain rfl := List.mem_singleton.mp last
          exact ⟨[], .block head arms id, out, rest, rfl, .inr rfl⟩
    · obtain ⟨context, next, out', rest', rfl, ends⟩ := ih h
      exact ⟨.after item out :: context, next, out', rest', rfl, ends⟩

/-- An item of a sequence, at any depth, begins a part somewhere in it. -/
theorem exists_context_of_mem_items {item : Item} (h : item ∈ line.items) :
    ∃ context out rest, line = Context.plug context (.cons item out rest) := by
  induction line with
  | done => simp [items] at h
  | cons next out rest lanes ih =>
    rw [items, List.mem_append] at h
    rcases h with h | h
    · cases next with
      | step own =>
        obtain rfl := List.mem_singleton.mp h
        exact ⟨[], out, rest, rfl⟩
      | block head arms merge =>
        rcases List.mem_cons.mp h with rfl | inside
        · exact ⟨[], out, rest, rfl⟩
        · obtain ⟨lane, member, inside⟩ := mem_laneItems.mp inside
          obtain ⟨context, out', rest', whole⟩ := lanes lane member inside
          obtain ⟨before, behind, split⟩ := exists_within member whole head merge out rest
          exact ⟨_, out', rest', split⟩
    · obtain ⟨context, out', rest', rfl⟩ := ih h
      exact ⟨.after next out :: context, out', rest', rfl⟩

/-- A block of a sequence begins a part somewhere in it. -/
theorem exists_context_of_mem_blocks {block : Block} (h : block ∈ line.blocks) :
    ∃ context lanes out rest,
      line = Context.plug context (.cons (.block block.head lanes block.merge) out rest) := by
  obtain ⟨item, member, same⟩ := List.mem_filterMap.mp h
  obtain ⟨context, out, rest, whole⟩ := exists_context_of_mem_items member
  cases item with
  | step id => cases same
  | block head lanes merge =>
    obtain rfl := Option.some.inj same
    exact ⟨context, lanes, out, rest, whole⟩

/-- The ends of a block of a sequence are nodes of the sequence. -/
theorem mem_ids_of_mem_blocks {block : Block} (h : block ∈ line.blocks) :
    block.head ∈ line.ids ∧ block.merge ∈ line.ids := by
  obtain ⟨context, lanes, out, rest, rfl⟩ := exists_context_of_mem_blocks h
  have whole := context.ids_plug (.cons (.block block.head lanes block.merge) out rest)
  exact ⟨whole.mem_iff.mpr (by simp), whole.mem_iff.mpr (by simp)⟩

/-- An edge of a sequence leads into a part somewhere in it. -/
theorem exists_context_of_mem_wires (h : wire ∈ line.wires entry exit) : ∃ context part,
    line = Context.plug context part ∧
      Context.entry entry context = some ⟨wire.source, wire.branch⟩ ∧
      part.entrance (Context.exit exit context) = some wire.target := by
  induction line generalizing entry exit with
  | done =>
    obtain ⟨source, target⟩ := mem_link.mp h
    exact ⟨[], .done, rfl, source, target⟩
  | cons item out rest lanes ih =>
    rw [wires, List.mem_append, List.mem_append] at h
    rcases h with (h | h) | h
    · -- The edge into the first item leads into the sequence itself.
      obtain ⟨source, target⟩ := mem_link.mp h
      exact ⟨[], .cons item out rest, rfl, source, target⟩
    · cases item with
      | step own => simp [Item.wires] at h
      | block head arms merge =>
        obtain ⟨lane, member, inside⟩ := mem_laneWires.mp h
        obtain ⟨context, part, whole, source, target⟩ := lanes lane member inside
        obtain ⟨before, behind, split⟩ := exists_within member whole head merge out rest
        exact ⟨_, part, split, source, target⟩
    · obtain ⟨context, part, rfl, source, target⟩ := ih h
      exact ⟨.after item out :: context, part, rfl, source, target⟩

end Line

/-- The ends of a block of an item are nodes of the item. -/
theorem Item.mem_ids_of_mem_blocks {item : Item} {block : Block} (h : block ∈ item.blocks) :
    block.head ∈ item.ids ∧ block.merge ∈ item.ids := by
  have alone := @Line.mem_ids_of_mem_blocks (.cons item none .done) block (by simp [h])
  simpa using alone

end Workflow
