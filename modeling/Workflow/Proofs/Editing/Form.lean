import Workflow.Edit.NewStep
import Workflow.Proofs.Editing.Lookup

/-!
# The shape of a new step

A new step of a plain kind is one step, and one of a block kind is a block with one slot on
each of its branches; a loop has an empty branch besides.

## Main definitions

* `NewStep.Forms` — the nodes and edges of a new step are those of an item
* `BlockKind.lanes` — the branches of a new block

## Main results

* `NewStep.forms_plain`, `NewStep.forms_block` — the item that a new step forms
* `NewStep.make_cases` — a new step of any kind is one of these
-/

namespace Workflow

namespace NewStep

/-- The nodes and edges of a new step are those of an item, and its head names its merge. -/
structure Forms (step : NewStep) (item : Item) : Prop where
  first : step.head.id = item.first
  last : step.exit = item.last
  ids : step.nodes.map (·.id) = item.ids
  wires : step.edges.map Edge.wire = item.wires
  plays : ∀ spot ∈ item.spots 0, ∃ node ∈ step.nodes, node.id = spot.id ∧
    node.isHead = spot.role.isHead ∧ node.isMerge = spot.role.isMerge
  forked : ∀ block ∈ item.blocks, 0 < block.width
  named : ∀ node ∈ step.nodes, ∀ merge, node.content.mergeNodeId = some merge →
    ∃ block ∈ item.blocks, block.head = node.id ∧ block.merge = merge

end NewStep

namespace BlockKind

/-- The empty branch beside the body of a loop; other blocks have none. -/
def bypassLanes (kind : BlockKind) : List Lane :=
  match kind with
  | loop => [(some Branch.loopBypass, .done)]
  | _ => []

/-- The branch of a new block on which there is one slot. -/
def armLane (arm : Arm × NodeId) : Lane := (some arm.1.branch, .cons (.step arm.2) none .done)

/-- The branches of a new block. -/
def lanes (kind : BlockKind) (names : List String) (slots : List NodeId) : List Lane :=
  ((kind.arms names).zip slots).map armLane ++ kind.bypassLanes

variable {kind : BlockKind} {names : List String} {slots : List NodeId} {head merge : NodeId}
  {lane : Lane} {spot : Spot} {depth : Int}

theorem mem_lanes (h : lane ∈ kind.lanes names slots) :
    lane.2 = .done ∨ ∃ arm ∈ (kind.arms names).zip slots, lane.2 = .cons (.step arm.2) none .done := by
  rcases List.mem_append.mp h with h | h
  · obtain ⟨arm, member, rfl⟩ := List.mem_map.mp h
    exact .inr ⟨arm, member, rfl⟩
  · left
    cases kind
    · cases h
    · cases h
    · obtain rfl := List.mem_singleton.mp h
      rfl

theorem laneIds_lanes (kind : BlockKind) (names : List String) (slots : List NodeId) :
    laneIds (kind.lanes names slots) = ((kind.arms names).zip slots).map (·.2) := by
  -- Beside the slots only a loop has a branch, and it is empty.
  have bypass : kind.bypassLanes.flatMap (·.2.ids) = [] := by
    cases kind <;> rfl
  rw [laneIds, lanes, List.flatMap_append, bypass, List.append_nil, List.flatMap_map,
    List.map_eq_flatMap]
  rfl

theorem laneWires_lanes (kind : BlockKind) (names : List String) (slots : List NodeId)
    (head merge : NodeId) : laneWires head merge (kind.lanes names slots) =
      (((kind.arms names).zip slots).flatMap (fun (arm, slot) =>
        NewStep.armEdges head merge arm slot) ++ kind.bypass head merge).map Edge.wire := by
  have bypass : laneWires head merge kind.bypassLanes = (kind.bypass head merge).map Edge.wire := by
    cases kind <;> rfl
  have arms : ∀ list : List (Arm × NodeId), laneWires head merge (list.map armLane) =
      (list.flatMap fun (arm, slot) => NewStep.armEdges head merge arm slot).map Edge.wire := by
    intro list
    rw [laneWires_eq, List.flatMap_map, List.map_flatMap]
    rfl
  rw [lanes, laneWires_append, bypass, arms, List.map_append]

theorem laneBlocks_lanes (kind : BlockKind) (names : List String) (slots : List NodeId) :
    laneBlocks (kind.lanes names slots) = [] := by
  rw [List.eq_nil_iff_forall_not_mem]
  intro block member
  obtain ⟨lane, inside, member⟩ := mem_laneBlocks.mp member
  rcases mem_lanes inside with empty | ⟨arm, -, single⟩
  · simp [empty] at member
  · simp [single] at member

/-- Each node on a branch of a new block is a slot. -/
theorem mem_laneSpots_lanes (h : spot ∈ laneSpots depth (kind.lanes names slots)) :
    ∃ arm ∈ (kind.arms names).zip slots, spot = ⟨arm.2, .step, depth⟩ := by
  obtain ⟨lane, inside, member⟩ := mem_laneSpots.mp h
  rcases mem_lanes inside with empty | ⟨arm, place, single⟩
  · simp [empty, Line.spots] at member
  · rw [single] at member
    exact ⟨arm, place, by simpa [Line.spots, Item.spots] using member⟩

/-- A new block has a branch, if a parallel step has names for its branches. -/
theorem lanes_length_pos (named : names ≠ []) (full : slots.length = (kind.arms names).length) :
    0 < (kind.lanes names slots).length := by
  have some' : 0 < (kind.arms names).length := by
    cases kind with
    | condition => simp [arms]
    | parallel => simpa [arms] using List.length_pos_of_ne_nil named
    | loop => simp [arms]
  rw [lanes, List.length_append, List.length_map, List.length_zip]
  omega

end BlockKind

namespace NewStep

variable {kind : BlockKind} {name : String} {label : Option String} {params : Option Json.Members}
  {names : List String} {head merge id : NodeId} {slots : List NodeId} {branches : Option (List String)}
  {supply : Supply} {node : Node}

/-- A new step of a plain kind is one step. -/
theorem forms_plain (h : BlockKind.ofName? name = none) :
    (plain name label params id).Forms (.step id) where
  first := rfl
  last := rfl
  ids := rfl
  wires := rfl
  plays spot member := by
    obtain rfl := List.mem_singleton.mp member
    refine ⟨_, List.mem_singleton.mpr rfl, rfl, ?_, rfl⟩
    simp [plain, Node.isHead, Node.blockKind?, h, Role.isHead]
  forked block member := by simp at member
  named node member merge names := by
    obtain rfl := List.mem_singleton.mp member
    cases names

@[simp] theorem isHead_blockHead :
    (blockHead kind label params names head merge).isHead = true := by
  simp [blockHead, Node.isHead, Node.blockKind?]

@[simp] theorem isMerge_blockHead :
    (blockHead kind label params names head merge).isMerge = false := by
  by_cases h : kind = .parallel <;> simp [blockHead, Node.isMerge, Content.withBranches, h]

@[simp] theorem mergeNodeId_blockHead :
    (blockHead kind label params names head merge).content.mergeNodeId = some merge := by
  by_cases h : kind = .parallel <;> simp [blockHead, Content.withBranches, h]

/-- The nodes of a new block are its head, its slots and its merge. -/
theorem mem_nodes_block : node ∈ (block kind label params names head merge slots).nodes ↔
    node = blockHead kind label params names head merge ∨
      (∃ arm ∈ (kind.arms names).zip slots, node = .branchPlaceholder arm.2 arm.1.label) ∨
      node = .mergePlaceholder merge := by
  simp [nodes, block, eq_comm]

/-- The identities of a new block are those of its head, its slots and its merge, in order. -/
theorem ids_block : (block kind label params names head merge slots).nodes.map (·.id) =
    head :: (((kind.arms names).zip slots).map (·.2) ++ [merge]) := by
  simp [nodes, block, blockHead, Node.branchPlaceholder, Node.mergePlaceholder, Function.comp_def]

/-- A new step of a block kind is a block with slots on its branches. -/
theorem forms_block (named : names ≠ []) (full : slots.length = (kind.arms names).length) :
    (block kind label params names head merge slots).Forms
      (.block head (kind.lanes names slots) merge) where
  first := rfl
  last := rfl
  ids := by
    rw [ids_block, Item.ids_block, BlockKind.laneIds_lanes]
    rfl
  wires := by
    rw [Item.wires, BlockKind.laneWires_lanes]
    rfl
  plays spot member := by
    rcases Item.mem_block_spots.mp member with rfl | inside | rfl
    · exact ⟨_, mem_nodes_block.mpr (.inl rfl), rfl, isHead_blockHead, isMerge_blockHead⟩
    · obtain ⟨arm, place, rfl⟩ := BlockKind.mem_laneSpots_lanes inside
      exact ⟨_, mem_nodes_block.mpr (.inr (.inl ⟨arm, place, rfl⟩)), rfl, rfl, rfl⟩
    · exact ⟨_, mem_nodes_block.mpr (.inr (.inr rfl)), rfl, rfl, rfl⟩
  forked block member := by
    rw [Item.blocks_block, BlockKind.laneBlocks_lanes, List.mem_singleton] at member
    subst member
    exact BlockKind.lanes_length_pos named full
  named node member own naming := by
    -- Slots and merges name no merge.
    rcases mem_nodes_block.mp member with rfl | ⟨arm, -, rfl⟩ | rfl
    · rw [mergeNodeId_blockHead, Option.some.injEq] at naming
      exact ⟨⟨head, merge, (kind.lanes names slots).length⟩, by simp, rfl, naming⟩
    · cases naming
    · cases naming

/-- The branches of a new parallel step have names. -/
theorem branchNames_ne_nil (branches : Option (List String)) :
    BlockKind.branchNames branches ≠ [] := by
  rcases branches with _ | _ | ⟨name, names⟩ <;> simp [BlockKind.branchNames, BlockKind.standardBranches]

/-- A new block has as many slots as its kind has branches for them. Its head is drawn first, and
then its merge. -/
theorem exists_makeBlock (kind : BlockKind) (label : Option String) (params : Option Json.Members)
    (branches : Option (List String)) (supply : Supply) : ∃ names slots,
      ((makeBlock kind label params branches).run supply).1 =
        block kind label params names (supply.upcoming 0) (supply.upcoming 1) slots ∧
      names ≠ [] ∧ slots.length = (kind.arms names).length := by
  rw [run_makeBlock]
  exact ⟨_, _, rfl, branchNames_ne_nil branches, by simp⟩

theorem makeBlock_cases (kind : BlockKind) (label : Option String) (params : Option Json.Members)
    (branches : Option (List String)) (supply : Supply) : ∃ names head merge slots,
      ((makeBlock kind label params branches).run supply).1 =
        block kind label params names head merge slots ∧
      names ≠ [] ∧ slots.length = (kind.arms names).length := by
  obtain ⟨names, slots, made⟩ := exists_makeBlock kind label params branches supply
  exact ⟨names, _, _, slots, made⟩

/-- A new step is a plain one, or a block of its kind. -/
theorem make_cases (name : String) (label : Option String) (params : Option Json.Members)
    (branches : Option (List String)) (supply : Supply) :
    (∃ id, ((make name label params branches).run supply).1 = plain name label params id ∧
      BlockKind.ofName? name = none) ∨
    ∃ kind names head merge slots, ((make name label params branches).run supply).1 =
      block kind label params names head merge slots ∧
      names ≠ [] ∧ slots.length = (kind.arms names).length := by
  cases h : BlockKind.ofName? name with
  | none =>
    left
    refine ⟨supply.upcoming 0, ?_, rfl⟩
    simp only [make, h]
    rfl
  | some kind =>
    simp only [make, h]
    exact .inr ⟨kind, makeBlock_cases kind label params branches supply⟩

/-- A new step forms an item of a sequence. -/
theorem exists_forms_make (name : String) (label : Option String) (params : Option Json.Members)
    (branches : Option (List String)) (supply : Supply) :
    ∃ item, ((make name label params branches).run supply).1.Forms item := by
  obtain ⟨id, made, plain⟩ | ⟨kind, names, head, merge, slots, made, some', full⟩ :=
    make_cases name label params branches supply
  · exact ⟨_, made ▸ forms_plain plain⟩
  · exact ⟨_, made ▸ forms_block some' full⟩

end NewStep

namespace Flow

variable {flow : Flow} {item : Item} {step : NewStep} {patch : Patch} {change : Change}

/-- The identities of an item are distinct and new, if an edit put its nodes in and used fresh
identities. -/
theorem fresh_of_forms (forms : step.Forms item) (fresh : change.FreshFor flow)
    (added : change.added = step.nodes.map (·.id)) :
    item.ids.Nodup ∧ ∀ id ∈ item.ids, ¬ flow.Mentions id := by
  rw [← forms.ids, ← added]
  exact ⟨fresh.distinct, fresh.unused⟩

/-- The nodes of a new step play their roles where they are put in. -/
theorem plays_append (forms : step.Forms item) (distinct : item.ids.Nodup)
    (apart : ∀ id ∈ item.ids, id ∉ flow.ids) (parts : patch.nodes = step.nodes) :
    ∀ spot ∈ item.spots 0, (flow.append patch).Plays spot.id spot.role := by
  intro spot member
  obtain ⟨node, inside, same, hhead, hmerge⟩ := forms.plays spot member
  rw [← forms.ids] at distinct
  have found : (flow.append patch).node? spot.id = some node := by
    rw [node?_append_of_mem (apart _ (Item.id_mem_ids_of_mem_spots member)), parts, ← same]
    exact find?_eq_some_of_mem distinct inside
  exact Plays.of_node? found hhead hmerge

end Flow

end Workflow
