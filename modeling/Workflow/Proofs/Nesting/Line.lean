import Mathlib.Data.List.Basic
import Workflow.Flow.Basic

/-!
# Sequences of steps and blocks

A structured flow is a sequence of items. An item is a plain step, or a block: a
head, some branches that are sequences themselves, and a merge. The edges of such a
flow can be read off the sequence, and so can the depth at which each node stands.

Names of branches are kept on the edges that leave a node: an item in a sequence
comes with the name on the edge out of it, a branch with the name on the edge into
it. Taking an item out of a sequence then leaves the name on the edge before it.

## Main definitions

* `Item`, `Line` — the items of a flow, and sequences of them
* `Line.wires` — the edges of a sequence between an entry and an exit
* `Line.spots`, `Line.ids` — the nodes of a sequence with their roles and depths
* `Line.items`, `Line.blocks` — the items and the blocks of a sequence, at any depth
-/

namespace Workflow

mutual

/-- A plain step, or a block from its head through its branches to its merge. -/
inductive Item where
  | step (id : NodeId)
  | block (head : NodeId) (lanes : List (Option String × Line)) (merge : NodeId)

/-- A sequence of items, each with the name on the edge that leaves it. -/
inductive Line where
  | done
  | cons (item : Item) (out : Option String) (rest : Line)

end

/-- A branch of a block: the name on the edge from the head, and what is on it. -/
abbrev Lane := Option String × Line

/-- An edge without its identity and further members. -/
structure Wire where
  source : NodeId
  target : NodeId
  branch : Option String
  deriving DecidableEq, Repr

/-- A way out of a node: the node, and the name on the edge. -/
structure Port where
  node : NodeId
  branch : Option String
  deriving DecidableEq, Repr

/-- The edge from a port to a node, if there are both. -/
def link : Option Port → Option NodeId → List Wire
  | some port, some target => [⟨port.node, target, port.branch⟩]
  | _, _ => []

/-- The part that a node plays in a sequence. -/
inductive Role where
  | step
  | head
  | merge
  deriving DecidableEq, Repr

namespace Role

/-- Whether a node in this role opens a block. -/
def isHead (role : Role) : Bool := role = head

/-- Whether branches come together at a node in this role. -/
def isMerge (role : Role) : Bool := role = merge

/-- What a node in this role adds to the depth. -/
def rise : Role → Int
  | step => 0
  | head => 1
  | merge => -1

end Role

/-- A node of a sequence, its role, and the depth above it. -/
structure Spot where
  id : NodeId
  role : Role
  above : Int
  deriving DecidableEq, Repr

namespace Spot

/-- The depth below a node. -/
def below (spot : Spot) : Int := spot.above + spot.role.rise

/-- The same node at another depth. -/
def lower (depth : Int) (spot : Spot) : Spot := { spot with above := spot.above + depth }

end Spot

/-- A block by its ends, and the number of its branches. -/
structure Block where
  head : NodeId
  merge : NodeId
  width : Nat
  deriving DecidableEq, Repr

namespace Item

/-- The node at which an item is entered. -/
def first : Item → NodeId
  | step id => id
  | block head _ _ => head

/-- The node from which the flow goes on after an item. -/
def last : Item → NodeId
  | step id => id
  | block _ _ merge => merge

/-- The branches of an item. -/
def lanes : Item → List Lane
  | step _ => []
  | block _ lanes _ => lanes

end Item

/-! ### Edges, spots and blocks -/

mutual

/-- The edges inside an item. -/
def Item.wires : Item → List Wire
  | .step _ => []
  | .block head lanes merge => laneWires head merge lanes

/-- The edges of a sequence that is entered from one port and leads on to a node. -/
def Line.wires (entry : Option Port) (exit : Option NodeId) : Line → List Wire
  | .done => link entry exit
  | .cons item out rest =>
    -- The name kept with the item goes on the edge that leaves it.
    link entry (some item.first) ++ item.wires ++ rest.wires (some ⟨item.last, out⟩) exit

/-- The edges of the branches between a head and a merge. -/
def laneWires (head merge : NodeId) : List (Option String × Line) → List Wire
  | [] => []
  | (via, line) :: lanes =>
    line.wires (some ⟨head, via⟩) (some merge) ++ laneWires head merge lanes

end

mutual

/-- The nodes of an item that stands at a depth. -/
def Item.spots (depth : Int) : Item → List Spot
  | .step id => [⟨id, .step, depth⟩]
  | .block head lanes merge =>
    -- The depth falls below the merge only, so above it is still that of the branches.
    ⟨head, .head, depth⟩ :: laneSpots (depth + 1) lanes ++ [⟨merge, .merge, depth + 1⟩]

/-- The nodes of a sequence that stands at a depth. -/
def Line.spots (depth : Int) : Line → List Spot
  | .done => []
  | .cons item _ rest => item.spots depth ++ rest.spots depth

/-- The nodes on branches that stand at a depth. -/
def laneSpots (depth : Int) : List (Option String × Line) → List Spot
  | [] => []
  | (_, line) :: lanes => line.spots depth ++ laneSpots depth lanes

end

mutual

/-- An item, and all items on its branches at any depth. -/
def Item.items : Item → List Item
  | .step id => [.step id]
  | .block head lanes merge => .block head lanes merge :: laneItems lanes

/-- The items of a sequence, at any depth. -/
def Line.items : Line → List Item
  | .done => []
  | .cons item _ rest => item.items ++ rest.items

/-- The items on branches, at any depth. -/
def laneItems : List (Option String × Line) → List Item
  | [] => []
  | (_, line) :: lanes => line.items ++ laneItems lanes

end

/-- The block that an item is. -/
def Item.block? : Item → Option Block
  | .step _ => none
  | .block head lanes merge => some ⟨head, merge, lanes.length⟩

/-- The blocks of an item, at any depth. -/
def Item.blocks (item : Item) : List Block := item.items.filterMap Item.block?

/-- The blocks of a sequence, at any depth. -/
def Line.blocks (line : Line) : List Block := line.items.filterMap Item.block?

/-- The blocks on branches, at any depth. -/
def laneBlocks (lanes : List Lane) : List Block := (laneItems lanes).filterMap Item.block?

/-- The identities in an item. -/
def Item.ids (item : Item) : List NodeId := (item.spots 0).map (·.id)

/-- The identities in a sequence. -/
def Line.ids (line : Line) : List NodeId := (line.spots 0).map (·.id)

/-- The identities on branches. -/
def laneIds (lanes : List Lane) : List NodeId := lanes.flatMap (·.2.ids)

/-- The node that a sequence is entered at: its first one, or else what comes after it. -/
def Line.entrance (exit : Option NodeId) : Line → Option NodeId
  | .done => exit
  | .cons item _ _ => some item.first

/-- The edges of a sequence without the one into it. -/
def Line.inner (exit : Option NodeId) : Line → List Wire
  | .done => []
  | .cons item out rest => item.wires ++ rest.wires (some ⟨item.last, out⟩) exit

/-! ### Induction -/

mutual

private theorem Item.lanes_induct {motive : Line → Prop} (done : motive .done)
    (cons : ∀ item out rest, (∀ lane ∈ item.lanes, motive lane.2) → motive rest →
      motive (.cons item out rest)) :
    ∀ item : Item, ∀ lane ∈ item.lanes, motive lane.2
  | .step _ => fun _ h => by simp [Item.lanes] at h
  | .block _ lanes _ => laneInduct done cons lanes

/-- Induction over a sequence, down its branches and along it. -/
@[elab_as_elim, induction_eliminator]
theorem Line.induct {motive : Line → Prop} (done : motive .done)
    (cons : ∀ item out rest, (∀ lane ∈ item.lanes, motive lane.2) → motive rest →
      motive (.cons item out rest)) :
    ∀ line, motive line
  | .done => done
  | .cons item out rest =>
    cons item out rest (Item.lanes_induct done cons item) (Line.induct done cons rest)

private theorem laneInduct {motive : Line → Prop} (done : motive .done)
    (cons : ∀ item out rest, (∀ lane ∈ item.lanes, motive lane.2) → motive rest →
      motive (.cons item out rest)) :
    ∀ lanes : List (Option String × Line), ∀ lane ∈ lanes, motive lane.2
  | [] => fun _ h => by simp at h
  | (_, line) :: lanes => fun lane h => by
    rcases List.mem_cons.mp h with rfl | h
    · exact Line.induct done cons line
    · exact laneInduct done cons lanes lane h

end

/-! ### Branches as a list -/

theorem laneWires_eq (head merge : NodeId) (lanes : List Lane) :
    laneWires head merge lanes =
      lanes.flatMap fun lane => lane.2.wires (some ⟨head, lane.1⟩) (some merge) := by
  induction lanes with
  | nil => rfl
  | cons lane lanes ih => rw [laneWires, ih, List.flatMap_cons]

theorem laneSpots_eq (depth : Int) (lanes : List Lane) :
    laneSpots depth lanes = lanes.flatMap (·.2.spots depth) := by
  induction lanes with
  | nil => rfl
  | cons lane lanes ih => rw [laneSpots, ih, List.flatMap_cons]

theorem laneItems_eq (lanes : List Lane) : laneItems lanes = lanes.flatMap (·.2.items) := by
  induction lanes with
  | nil => rfl
  | cons lane lanes ih => rw [laneItems, ih, List.flatMap_cons]

variable {item : Item} {line rest : Line} {lanes : List Lane} {spot : Spot} {wire : Wire}
  {head merge id : NodeId} {out via : Option String} {depth : Int}

theorem mem_laneWires : wire ∈ laneWires head merge lanes ↔
    ∃ lane ∈ lanes, wire ∈ lane.2.wires (some ⟨head, lane.1⟩) (some merge) := by
  rw [laneWires_eq, List.mem_flatMap]

theorem mem_laneSpots : spot ∈ laneSpots depth lanes ↔
    ∃ lane ∈ lanes, spot ∈ lane.2.spots depth := by
  rw [laneSpots_eq, List.mem_flatMap]

theorem mem_laneItems : item ∈ laneItems lanes ↔ ∃ lane ∈ lanes, item ∈ lane.2.items := by
  rw [laneItems_eq, List.mem_flatMap]

@[simp] theorem Item.mem_items_self (item : Item) : item ∈ item.items := by
  cases item <;> simp [Item.items]

theorem mem_laneBlocks {block : Block} : block ∈ laneBlocks lanes ↔
    ∃ lane ∈ lanes, block ∈ lane.2.blocks := by
  rw [laneBlocks, laneItems_eq, List.filterMap_flatMap, List.mem_flatMap]
  rfl

@[simp] theorem laneBlocks_nil : laneBlocks [] = [] := rfl

@[simp] theorem laneBlocks_cons (lane : Lane) (lanes : List Lane) :
    laneBlocks (lane :: lanes) = lane.2.blocks ++ laneBlocks lanes := by
  simp [laneBlocks, laneItems, Line.blocks]

@[simp] theorem Item.blocks_step (id : NodeId) : (Item.step id).blocks = [] := rfl

@[simp] theorem Item.blocks_block (head : NodeId) (lanes : List Lane) (merge : NodeId) :
    (Item.block head lanes merge).blocks = ⟨head, merge, lanes.length⟩ :: laneBlocks lanes := by
  simp [Item.blocks, Item.items, Item.block?, laneBlocks]

@[simp] theorem Line.blocks_done : Line.done.blocks = [] := rfl

@[simp] theorem Line.blocks_cons (item : Item) (out : Option String) (rest : Line) :
    (Line.cons item out rest).blocks = item.blocks ++ rest.blocks := by
  simp [Line.blocks, Line.items, Item.blocks]

theorem laneWires_append (head merge : NodeId) (lanes more : List Lane) :
    laneWires head merge (lanes ++ more) = laneWires head merge lanes ++ laneWires head merge more := by
  simp only [laneWires_eq, List.flatMap_append]

theorem laneSpots_append (depth : Int) (lanes more : List Lane) :
    laneSpots depth (lanes ++ more) = laneSpots depth lanes ++ laneSpots depth more := by
  simp only [laneSpots_eq, List.flatMap_append]

theorem laneBlocks_append (lanes more : List Lane) :
    laneBlocks (lanes ++ more) = laneBlocks lanes ++ laneBlocks more := by
  simp only [laneBlocks, laneItems_eq, List.flatMap_append, List.filterMap_append]

theorem mem_laneIds : id ∈ laneIds lanes ↔ ∃ lane ∈ lanes, id ∈ lane.2.ids :=
  List.mem_flatMap

/-! ### Spots at another depth -/

/-- At another depth a sequence has the same spots, lowered. -/
theorem Line.spots_lower (line : Line) (depth more : Int) :
    line.spots (depth + more) = (line.spots depth).map (Spot.lower more) := by
  induction line generalizing depth with
  | done => rfl
  | cons item out rest lanes ih =>
    -- `lanes` is the claim for the branches of the first item, `ih` for what is behind it.
    have inside : item.spots (depth + more) = (item.spots depth).map (Spot.lower more) := by
      cases item with
      | step id => rfl
      | block head arms merge =>
        have shift : depth + more + 1 = depth + 1 + more := by omega
        have same : laneSpots (depth + 1 + more) arms =
            (laneSpots (depth + 1) arms).map (Spot.lower more) := by
          rw [laneSpots_eq, laneSpots_eq, List.map_flatMap]
          exact List.flatMap_congr fun lane member => lanes lane member (depth + 1)
        simp [Item.spots, shift, same, Spot.lower]
    rw [Line.spots, Line.spots, inside, ih, List.map_append]

@[simp] theorem Spot.id_lower (more : Int) (spot : Spot) : (spot.lower more).id = spot.id := rfl

@[simp] theorem Spot.role_lower (more : Int) (spot : Spot) :
    (spot.lower more).role = spot.role := rfl

/-- The identities do not depend on the depth. -/
theorem Line.map_id_spots (line : Line) (depth : Int) :
    (line.spots depth).map (·.id) = line.ids := by
  have lowered := line.spots_lower 0 depth
  rw [Int.zero_add] at lowered
  rw [lowered, List.map_map]
  rfl

theorem map_id_laneSpots (lanes : List Lane) (depth : Int) :
    (laneSpots depth lanes).map (·.id) = laneIds lanes := by
  rw [laneSpots_eq, List.map_flatMap]
  exact List.flatMap_congr fun lane _ => lane.2.map_id_spots depth

theorem Item.map_id_spots (item : Item) (depth : Int) :
    (item.spots depth).map (·.id) = item.ids := by
  cases item with
  | step id => rfl
  | block head lanes merge => simp [Item.ids, Item.spots, map_id_laneSpots]

@[simp] theorem Item.ids_step (id : NodeId) : (Item.step id).ids = [id] := rfl

@[simp] theorem Item.ids_block (head : NodeId) (lanes : List Lane) (merge : NodeId) :
    (Item.block head lanes merge).ids = head :: laneIds lanes ++ [merge] := by
  simp [Item.ids, Item.spots, map_id_laneSpots]

@[simp] theorem Line.ids_done : Line.done.ids = [] := rfl

@[simp] theorem Line.ids_cons (item : Item) (out : Option String) (rest : Line) :
    (Line.cons item out rest).ids = item.ids ++ rest.ids := by
  simp [Line.ids, Item.ids, Line.spots]

theorem Item.first_mem_ids (item : Item) : item.first ∈ item.ids := by
  cases item <;> simp [Item.first]

theorem Item.last_mem_ids (item : Item) : item.last ∈ item.ids := by
  cases item <;> simp [Item.last]

/-- At another depth an item has the same spots, lowered. -/
theorem Item.spots_lower (item : Item) (depth more : Int) :
    item.spots (depth + more) = (item.spots depth).map (Spot.lower more) := by
  have alone := (Line.cons item none .done).spots_lower depth more
  simpa [Line.spots] using alone

/-- The spot of a node in an item, whatever the depth. -/
theorem Item.exists_spot_of_mem_ids (depth : Int) (h : id ∈ item.ids) :
    ∃ spot ∈ item.spots depth, spot.id = id := by
  rw [← item.map_id_spots depth, List.mem_map] at h
  exact h

theorem Item.id_mem_ids_of_mem_spots (h : spot ∈ item.spots depth) : spot.id ∈ item.ids := by
  rw [← item.map_id_spots depth]
  exact List.mem_map_of_mem h

/-- The spots of a block are its head, those on its branches and its merge. -/
theorem Item.mem_block_spots : spot ∈ (Item.block head lanes merge).spots depth ↔
    spot = ⟨head, .head, depth⟩ ∨ spot ∈ laneSpots (depth + 1) lanes ∨
      spot = ⟨merge, .merge, depth + 1⟩ := by
  rw [spots, List.cons_append, List.mem_cons, List.mem_append, List.mem_singleton]

theorem Item.head_mem_spots :
    ⟨head, .head, depth⟩ ∈ (Item.block head lanes merge).spots depth :=
  mem_block_spots.mpr (.inl rfl)

theorem Item.merge_mem_spots :
    ⟨merge, .merge, depth + 1⟩ ∈ (Item.block head lanes merge).spots depth :=
  mem_block_spots.mpr (.inr (.inr rfl))

/-- An item is entered at its own depth. -/
theorem Item.exists_first_spot (item : Item) (depth : Int) :
    ∃ spot ∈ item.spots depth, spot.id = item.first ∧ spot.above = depth := by
  cases item with
  | step id => exact ⟨⟨id, .step, depth⟩, List.mem_singleton.mpr rfl, rfl, rfl⟩
  | block head lanes merge => exact ⟨⟨head, .head, depth⟩, head_mem_spots, rfl, rfl⟩

/-- An item is not entered at a merge. -/
theorem Item.exists_first_role (item : Item) (depth : Int) :
    ∃ spot ∈ item.spots depth, spot.id = item.first ∧ spot.role.isMerge = false := by
  cases item with
  | step id => exact ⟨⟨id, .step, depth⟩, List.mem_singleton.mpr rfl, rfl, rfl⟩
  | block head lanes merge => exact ⟨⟨head, .head, depth⟩, head_mem_spots, rfl, rfl⟩

/-- An item is left at its own depth. -/
theorem Item.exists_last_spot (item : Item) (depth : Int) :
    ∃ spot ∈ item.spots depth, spot.id = item.last ∧ spot.below = depth := by
  cases item with
  | step id => exact ⟨⟨id, .step, depth⟩, List.mem_singleton.mpr rfl, rfl, Int.add_zero depth⟩
  | block head lanes merge =>
    have below : depth + 1 + (-1) = depth := by omega
    exact ⟨⟨merge, .merge, depth + 1⟩, merge_mem_spots, rfl, below⟩

/-- The edges of a sequence are the one into it and those that follow. -/
theorem Line.wires_eq (line : Line) (entry : Option Port) (exit : Option NodeId) :
    line.wires entry exit = link entry (line.entrance exit) ++ line.inner exit := by
  cases line with
  | done => simp [Line.wires, Line.entrance, Line.inner]
  | cons item out rest => rw [Line.wires, Line.entrance, Line.inner, List.append_assoc]

end Workflow
