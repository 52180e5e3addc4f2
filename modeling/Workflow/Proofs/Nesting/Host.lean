import Mathlib.Data.List.Nodup
import Workflow.Block.Starter
import Workflow.Proofs.Nesting.Level
import Workflow.Proofs.Walk.Chart
import Workflow.Proofs.Walk.Spread

/-!
# Items as parts of a flow

A flow hosts an item if it has the edges of the item, its nodes play their roles, and
apart from these edges the item is entered at its first node and left from its last one
only. Walks through a hosted item keep to its depths, so its merge is the one that
closes its head, whatever the rest of the flow looks like.

## Main definitions

* `Flow.Plays` — a node of a flow plays a role
* `Flow.Fits` — a flow has given edges, roles and branches
* `Flow.Hosts` — an item is a part of a flow
* `Item.Stands` — the depth at which a node stands in an item

## Main results

* `Hosts.charts` — walks through a hosted block keep to its depths
* `Hosts.closes_iff` — the merge of a hosted block closes its head, and no other node does
* `Hosts.searchMerge?_eq`, `Hosts.starter?_eq`, `Hosts.mem_body_iff` — the three queries
-/

namespace Workflow

/-- A node stands in an item, with this depth above it. -/
def Item.Stands (item : Item) (id : NodeId) (above : Int) : Prop :=
  ∃ spot ∈ item.spots 0, spot.id = id ∧ spot.above = above

theorem Item.Stands.mem_ids {item : Item} {id : NodeId} {above : Int} (h : item.Stands id above) :
    id ∈ item.ids := by
  obtain ⟨spot, member, rfl, -⟩ := h
  exact Item.id_mem_ids_of_mem_spots member

namespace Flow

/-- A node of a flow plays a role. -/
def Plays (flow : Flow) (id : NodeId) (role : Role) : Prop :=
  flow.isHead id = role.isHead ∧ flow.isMerge id = role.isMerge

instance (flow : Flow) (id : NodeId) (role : Role) : Decidable (flow.Plays id role) :=
  inferInstanceAs (Decidable (_ ∧ _))

/-- A flow has given edges, its nodes play the roles at given spots, and given blocks have
branches. -/
structure Fits (flow : Flow) (wires : List Wire) (spots : List Spot) (blocks : List Block) :
    Prop where
  leads : ∀ wire ∈ wires, flow.Leads wire.source wire.target
  plays : ∀ spot ∈ spots, flow.Plays spot.id spot.role
  forked : ∀ block ∈ blocks, 0 < block.width

/-- An item is a part of a flow, entered at its first node and left from its last one. -/
structure Hosts (flow : Flow) (item : Item) : Prop where
  fits : flow.Fits item.wires (item.spots 0) item.blocks
  distinct : item.ids.Nodup
  onward : ∀ {id child}, id ∈ item.ids → id ≠ item.last → flow.Leads id child →
    ∃ wire ∈ item.wires, wire.source = id ∧ wire.target = child
  inward : ∀ {id child}, child ∈ item.ids → child ≠ item.first → flow.Leads id child →
    ∃ wire ∈ item.wires, wire.source = id ∧ wire.target = child

variable {flow : Flow} {item : Item} {line : Line} {start id child head merge : NodeId}
  {lanes : List Lane} {depth above : Int} {spot : Spot} {role : Role} {limits : Limits}

theorem Plays.rise_eq (h : flow.Plays id role) : flow.rise id = role.rise := by
  obtain ⟨hhead, hmerge⟩ := h
  cases role
  · exact rise_of_neither hhead hmerge
  · exact rise_of_head hhead hmerge
  · exact rise_of_merge hhead hmerge

theorem Plays.levels_eq (h : flow.Plays id role) : flow.levels id = -role.rise := by
  obtain ⟨hhead, hmerge⟩ := h
  cases role <;> simp [levels, hhead, hmerge, Role.isHead, Role.isMerge, Role.rise]

theorem Fits.mono {wires fewer : List Wire} {spots some' : List Spot} {blocks few : List Block}
    (h : flow.Fits wires spots blocks) (hwires : fewer ⊆ wires) (hspots : some' ⊆ spots)
    (hblocks : few ⊆ blocks) : flow.Fits fewer some' few :=
  ⟨fun wire member => h.leads wire (hwires member), fun spot member => h.plays spot (hspots member),
    fun block member => h.forked block (hblocks member)⟩

/-- The roles in an item do not depend on the depth. -/
theorem plays_at_depth (h : ∀ spot ∈ item.spots depth, flow.Plays spot.id spot.role) (other : Int) :
    ∀ spot ∈ item.spots other, flow.Plays spot.id spot.role := by
  intro spot member
  have lowered := item.spots_lower depth (other - depth)
  rw [show depth + (other - depth) = other by omega] at lowered
  rw [lowered] at member
  obtain ⟨before, hbefore, rfl⟩ := List.mem_map.mp member
  exact h before hbefore

theorem Hosts.fits_at (hosts : flow.Hosts item) (depth : Int) :
    flow.Fits item.wires (item.spots depth) item.blocks :=
  ⟨hosts.fits.leads, plays_at_depth hosts.fits.plays depth, hosts.fits.forked⟩

/-! ### Depths inside an item -/

private theorem le_spots_of_lanes
    (bound : ∀ lane ∈ item.lanes, ∀ {depth : Int} {spot : Spot}, spot ∈ lane.2.spots depth →
      depth ≤ spot.above ∧ depth ≤ spot.below)
    (h : spot ∈ item.spots depth) : depth ≤ spot.above ∧ depth ≤ spot.below := by
  cases item with
  | step id =>
    obtain rfl := List.mem_singleton.mp h
    simp [Spot.below, Role.rise]
  | block head lanes merge =>
    rcases Item.mem_block_spots.mp h with rfl | inside | rfl
    · simp only [Spot.below, Role.rise]
      omega
    · obtain ⟨lane, member, inside⟩ := mem_laneSpots.mp inside
      have deeper := bound lane member inside
      omega
    · simp only [Spot.below, Role.rise]
      omega

/-- A sequence stays at its depth or below it. -/
theorem le_of_mem_line_spots (h : spot ∈ line.spots depth) :
    depth ≤ spot.above ∧ depth ≤ spot.below := by
  induction line generalizing depth spot with
  | done => simp [Line.spots] at h
  | cons item out rest lanes ih =>
    rcases List.mem_append.mp h with h | h
    · exact le_spots_of_lanes lanes h
    · exact ih h

/-- An item stays at its depth or below it. -/
theorem le_of_mem_item_spots (h : spot ∈ item.spots depth) :
    depth ≤ spot.above ∧ depth ≤ spot.below :=
  le_spots_of_lanes (fun _ _ _ _ inside => le_of_mem_line_spots inside) h

theorem le_of_mem_laneSpots (h : spot ∈ laneSpots depth lanes) :
    depth ≤ spot.above ∧ depth ≤ spot.below := by
  obtain ⟨lane, -, inside⟩ := mem_laneSpots.mp h
  exact le_of_mem_line_spots inside

/-- The spots of a block are left at depth one or more, but for the merge. -/
theorem one_le_below_of_mem_block (h : spot ∈ (Item.block head lanes merge).spots 0)
    (short : spot.id ≠ merge) : 1 ≤ spot.below := by
  rcases Item.mem_block_spots.mp h with rfl | inside | rfl
  · exact Int.le_refl 1
  · exact (le_of_mem_laneSpots inside).2
  · exact absurd rfl short

/-- The spots of a block are entered at depth one or more, but for the head. -/
theorem one_le_above_of_mem_block (h : spot ∈ (Item.block head lanes merge).spots 0)
    (apart : spot.id ≠ head) : 1 ≤ spot.above := by
  rcases Item.mem_block_spots.mp h with rfl | inside | rfl
  · exact absurd rfl apart
  · exact (le_of_mem_laneSpots inside).1
  · exact Int.le_refl 1

/-- In an item with distinct nodes, a node has one spot. -/
theorem spot_unique (distinct : item.ids.Nodup) {spot other : Spot} (h : spot ∈ item.spots depth)
    (hother : other ∈ item.spots depth) (same : spot.id = other.id) : spot = other := by
  rw [← item.map_id_spots depth] at distinct
  exact List.inj_on_of_nodup_map distinct h hother same

/-! ### Walks cross an item -/

private theorem arrives_of_lanes
    (cross : ∀ lane ∈ item.lanes, ∀ {depth : Int} {port : Port} {exit : NodeId},
      flow.Fits (lane.2.wires (some port) (some exit)) (lane.2.spots depth) lane.2.blocks →
      1 ≤ depth → flow.Leaves start port.node depth →
      (∀ spot ∈ lane.2.spots depth, flow.Arrives start spot.id spot.above) ∧
        flow.Arrives start exit depth)
    (fits : flow.Fits item.wires (item.spots depth) item.blocks) (hdepth : 0 ≤ depth)
    (first : flow.Arrives start item.first depth) (h : spot ∈ item.spots depth) :
    flow.Arrives start spot.id spot.above := by
  cases item with
  | step id =>
    obtain rfl := List.mem_singleton.mp h
    exact first
  | block head lanes merge =>
    have rises : flow.rise head = 1 :=
      (fits.plays ⟨head, .head, depth⟩ Item.head_mem_spots).rise_eq
    have isOpen : flow.OpenAt head depth := .of_pos (by omega)
    -- Each lane is entered one deeper than the head, and leads on to the merge.
    have crossed : ∀ lane ∈ lanes,
        (∀ spot ∈ lane.2.spots (depth + 1), flow.Arrives start spot.id spot.above) ∧
          flow.Arrives start merge (depth + 1) := by
      intro lane member
      refine @cross lane member (depth + 1) ⟨head, lane.1⟩ merge (fits.mono ?_ ?_ ?_) (by omega)
        ⟨depth, first, isOpen, by rw [rises]⟩
      · exact fun wire inside => mem_laneWires.mpr ⟨lane, member, inside⟩
      · intro spot inside
        simp [Item.spots, mem_laneSpots.mpr ⟨lane, member, inside⟩]
      · intro block inside
        simp [mem_laneBlocks.mpr ⟨lane, member, inside⟩]
    rcases Item.mem_block_spots.mp h with rfl | inside | rfl
    · exact first
    · obtain ⟨lane, member, inside⟩ := mem_laneSpots.mp inside
      exact (crossed lane member).1 spot inside
    · -- A block has a branch, and along it the walk gets to the merge.
      have wide : 0 < lanes.length :=
        fits.forked ⟨head, merge, lanes.length⟩ (by simp)
      exact (crossed lanes[0] (List.getElem_mem wide)).2

/-- A walk that is open before a sequence comes to each of its spots, and on to its exit at
the same depth. -/
theorem arrives_line {port : Port} {exit : NodeId}
    (fits : flow.Fits (line.wires (some port) (some exit)) (line.spots depth) line.blocks)
    (hdepth : 1 ≤ depth) (before : flow.Leaves start port.node depth) :
    (∀ spot ∈ line.spots depth, flow.Arrives start spot.id spot.above) ∧
      flow.Arrives start exit depth := by
  induction line generalizing port depth exit with
  | done =>
    have leads := fits.leads ⟨port.node, exit, port.branch⟩ (by simp [Line.wires, link])
    exact ⟨by simp [Line.spots], before.arrives leads⟩
  | cons item out rest lanes ih =>
    have first : flow.Arrives start item.first depth :=
      before.arrives (fits.leads ⟨port.node, item.first, port.branch⟩ (by simp [Line.wires, link]))
    have inItem : ∀ spot ∈ item.spots depth, flow.Arrives start spot.id spot.above := by
      intro spot inside
      refine arrives_of_lanes lanes (fits.mono ?_ ?_ ?_) (by omega) first inside
      · exact fun wire member => by simp [Line.wires, member]
      · exact fun spot member => by simp [Line.spots, member]
      · exact fun block member => by simp [member]
    -- The walk leaves the item as deep as it entered it, and goes on to the rest.
    obtain ⟨last, hlast, lastId, lastBelow⟩ := item.exists_last_spot depth
    have below : last.above + flow.rise item.last = depth := by
      rw [← lastId, (fits.plays last (by simp [Line.spots, hlast])).rise_eq]
      exact lastBelow
    have lastArrives : flow.Arrives start item.last last.above := by
      rw [← lastId]
      exact inItem last hlast
    have lastOpen : flow.OpenAt item.last last.above := .of_pos (by omega)
    have onward := @ih depth ⟨item.last, out⟩ exit
      (by
        refine fits.mono ?_ ?_ ?_
        · exact fun wire member => by simp [Line.wires, member]
        · exact fun spot member => by simp [Line.spots, member]
        · exact fun block member => by simp [member])
      hdepth ⟨last.above, lastArrives, lastOpen, below⟩
    refine ⟨fun spot member => ?_, onward.2⟩
    rcases List.mem_append.mp member with inside | behind
    · exact inItem spot inside
    · exact onward.1 spot behind

/-- A walk that enters a hosted item comes to each of its spots. -/
theorem Hosts.arrives (hosts : flow.Hosts item) (hdepth : 0 ≤ depth)
    (first : flow.Arrives start item.first depth) (h : spot ∈ item.spots depth) :
    flow.Arrives start spot.id spot.above :=
  arrives_of_lanes (fun _ _ _ _ _ fits hdepth before => arrives_line fits hdepth before)
    (hosts.fits_at depth) hdepth first h

/-! ### A hosted block closes at its merge -/

/-- The ends of a hosted block are apart. -/
theorem Hosts.merge_ne_head (hosts : flow.Hosts (.block head lanes merge)) : merge ≠ head := by
  have distinct := hosts.distinct
  rw [Item.ids_block, List.cons_append, List.nodup_cons] at distinct
  rintro rfl
  exact distinct.1 (List.mem_append_right _ List.mem_cons_self)

/-- The roles of the ends of a hosted block. -/
theorem Hosts.plays_ends (hosts : flow.Hosts (.block head lanes merge)) :
    flow.Plays head .head ∧ flow.Plays merge .merge :=
  ⟨hosts.fits.plays ⟨head, .head, 0⟩ Item.head_mem_spots,
    hosts.fits.plays ⟨merge, .merge, 0 + 1⟩ Item.merge_mem_spots⟩

theorem Hosts.closesAt_last (hosts : flow.Hosts (.block head lanes merge)) :
    flow.ClosesAt merge (0 + 1) := by
  have plays := hosts.plays_ends.2
  exact ⟨by rw [plays.rise_eq]; rfl, plays.2⟩

/-- The nodes of a hosted block stand at its depths for all walks from its head. -/
theorem Hosts.charts (hosts : flow.Hosts (.block head lanes merge)) :
    flow.Charts head (Item.block head lanes merge).Stands where
  begins := ⟨⟨head, .head, 0⟩, Item.head_mem_spots, rfl, rfl⟩
  unique := by
    rintro id _ _ ⟨spot, hspot, same, rfl⟩ ⟨other, hother, sameToo, rfl⟩
    rw [spot_unique hosts.distinct hspot hother (same.trans sameToo.symm)]
  onward := by
    rintro id child _ ⟨spot, hspot, rfl, rfl⟩ isOpen leads
    -- The walk is not past the merge, where it would be closed.
    have short : spot.id ≠ merge := by
      intro same
      have last : spot = ⟨merge, .merge, 0 + 1⟩ :=
        spot_unique hosts.distinct hspot Item.merge_mem_spots same
      rw [last] at isOpen
      exact isOpen.2 hosts.closesAt_last
    obtain ⟨wire, hwire, source, target⟩ :=
      hosts.onward (Item.id_mem_ids_of_mem_spots hspot) short leads
    obtain ⟨here, hhere, next, hnext, hereId, nextId, joined⟩ := Item.goes_of_mem_wires 0 hwire
    obtain rfl : here = spot := spot_unique hosts.distinct hhere hspot (hereId.trans source)
    refine ⟨next, hnext, nextId.trans target, ?_⟩
    rw [← joined, (hosts.fits.plays here hhere).rise_eq]
    rfl

/-- Walks stay open in a hosted block but at its merge. -/
theorem Hosts.openAt (hosts : flow.Hosts (.block head lanes merge))
    (stands : (Item.block head lanes merge).Stands id above) (short : id ≠ merge) :
    flow.OpenAt id above := by
  obtain ⟨spot, hspot, rfl, rfl⟩ := stands
  have deep := one_le_below_of_mem_block hspot short
  apply OpenAt.of_pos
  rw [(hosts.fits.plays spot hspot).rise_eq]
  rwa [Spot.below] at deep

/-- At the merge of a hosted block walks are closed. -/
theorem Hosts.closesAt (hosts : flow.Hosts (.block head lanes merge))
    (stands : (Item.block head lanes merge).Stands merge above) : flow.ClosesAt merge above := by
  obtain ⟨spot, hspot, same, rfl⟩ := stands
  obtain rfl : spot = ⟨merge, .merge, 0 + 1⟩ :=
    spot_unique hosts.distinct hspot Item.merge_mem_spots same
  exact hosts.closesAt_last

/-- Edges lead from each node of a hosted item to its last one. -/
theorem Hosts.reaches_last (hosts : flow.Hosts item) (h : id ∈ item.ids) :
    Relation.ReflTransGen flow.Leads id item.last :=
  Item.reaches_last hosts.fits.leads hosts.fits.forked h

/-- The merge of a hosted block closes its head, and no other node does. -/
theorem Hosts.closes_iff (hosts : flow.Hosts (.block head lanes merge)) (other : NodeId) :
    flow.Closes head other ↔ other = merge :=
  hosts.charts.closes_iff hosts.openAt hosts.closesAt
    (hosts.reaches_last (Item.first_mem_ids (.block head lanes merge))) other

/-- Walks from the head of a hosted block have the same depth at a node. -/
theorem Hosts.steady (hosts : flow.Hosts (.block head lanes merge)) : flow.Steady head :=
  hosts.charts.steady

/-- The search from the head of a hosted block finds its merge. -/
theorem Hosts.searchMerge?_eq (hosts : flow.Hosts (.block head lanes merge))
    (enough : (flow.edges.length : Int) < limits.maxIterations) :
    flow.searchMerge? limits head = some merge :=
  searchMerge?_eq_some_of_closes hosts.steady hosts.closes_iff enough

/-! ### The way up from the merge of a hosted block -/

/-- Each node of a hosted block but its head has a first parent, in the block and before it. -/
theorem Hosts.exists_firstParent? (hosts : flow.Hosts (.block head lanes merge))
    (h : spot ∈ (Item.block head lanes merge).spots 0) (apart : spot.id ≠ head) :
    ∃ parent ∈ (Item.block head lanes merge).spots 0, flow.firstParent? spot.id = some parent.id ∧
      [parent.id, spot.id].Sublist (Item.block head lanes merge).ids ∧
      parent.below = spot.above := by
  have arrives := hosts.arrives (Int.le_refl 0) .start h
  -- A walk comes to the node, and not only by starting there.
  obtain ⟨some', leads⟩ : ∃ parent, flow.Leads parent spot.id := by
    rcases arrives.eq_start_or with ⟨same, -⟩ | ⟨parent, -, leads⟩
    · exact absurd same apart
    · exact ⟨parent, leads⟩
  -- Its first parent is in the block, since no other edges lead to it.
  have nonempty : flow.parents spot.id ≠ [] :=
    List.ne_nil_of_mem (leads_iff_mem_parents.mp leads)
  have first : flow.Leads ((flow.parents spot.id).head nonempty) spot.id :=
    leads_iff_mem_parents.mpr (List.head_mem nonempty)
  obtain ⟨wire, hwire, source, target⟩ :=
    hosts.inward (Item.id_mem_ids_of_mem_spots h) apart first
  obtain ⟨parent, hparent, child, hchild, parentId, childId, joined⟩ :=
    Item.goes_of_mem_wires 0 hwire
  obtain rfl : child = spot := spot_unique hosts.distinct hchild h (childId.trans target)
  refine ⟨parent, hparent, ?_, ?_, joined⟩
  · rw [firstParent?, List.head?_eq_some_head nonempty, parentId, source]
  · rw [parentId, childId]
    exact Item.sublist_of_mem_wires hwire

/-- On the way up through a hosted block, the open levels are one less than the depth, and
the nodes met before come later in the block. -/
theorem Hosts.climb_eq (hosts : flow.Hosts (.block head lanes merge)) {steps : Nat}
    {seen : List NodeId} {below : Int} (h : spot ∈ (Item.block head lanes merge).spots 0)
    (level : spot.below = below + 1)
    (later : ∀ other ∈ seen, (Item.block head lanes merge).ids.idxOf spot.id <
      (Item.block head lanes merge).ids.idxOf other)
    (short : spot.id ≠ merge) (enough : (Item.block head lanes merge).ids.idxOf spot.id < steps) :
    flow.climb steps (some spot.id) seen below = some head := by
  induction steps generalizing spot seen below with
  | zero => omega
  | succ steps ih =>
    have unseen : spot.id ∉ seen := fun known => Nat.lt_irrefl _ (later _ known)
    have levels := (hosts.fits.plays spot h).levels_eq
    rw [Spot.below] at level
    rw [climb, if_neg unseen]
    by_cases top : spot.id = head
    · -- At the head the open levels come to zero.
      have first : spot = ⟨head, .head, 0⟩ :=
        spot_unique hosts.distinct h Item.head_mem_spots top
      have above : spot.above = 0 := by rw [first]
      rw [if_pos (by rw [levels]; omega), top]
    · -- Elsewhere the climb goes on from the first parent, which stands before.
      have deep := one_le_above_of_mem_block h top
      rw [if_neg (by rw [levels]; omega)]
      obtain ⟨parent, hparent, isFirst, order, joined⟩ := hosts.exists_firstParent? h top
      have earlier := idxOf_lt_of_sublist hosts.distinct order
      rw [isFirst]
      refine ih hparent (by rw [joined, levels]; omega) ?_ ?_ (by omega)
      · intro other member
        rcases List.mem_cons.mp member with rfl | known
        · exact earlier
        · exact Nat.lt_trans earlier (later other known)
      · -- Below the merge the depth is zero, and above the node it is not.
        intro same
        have last : parent = ⟨merge, .merge, 0 + 1⟩ :=
          spot_unique hosts.distinct hparent Item.merge_mem_spots same
        rw [last] at joined
        simp [Spot.below, Role.rise] at joined
        omega

/-- The way up from the merge of a hosted block ends at its head. -/
theorem Hosts.starter?_eq (hosts : flow.Hosts (.block head lanes merge))
    (enough : ((Item.block head lanes merge).ids.length : Int) ≤ limits.maxIterations) :
    flow.starter? limits merge = some head := by
  obtain ⟨parent, hparent, isFirst, order, joined⟩ :=
    hosts.exists_firstParent? Item.merge_mem_spots hosts.merge_ne_head
  have earlier := idxOf_lt_of_sublist hosts.distinct order
  rw [starter?, isFirst]
  refine hosts.climb_eq hparent joined ?_ ?_ ?_
  · intro other member
    rw [List.mem_singleton.mp member]
    exact earlier
  · rintro same
    rw [same] at earlier
    exact Nat.lt_irrefl _ earlier
  · have inside := List.idxOf_lt_length_of_mem (Item.id_mem_ids_of_mem_spots hparent)
    rw [Limits.searchSteps]
    omega

/-! ### The body of a hosted block -/

/-- What can be reached from the head of a hosted block around its merge is the head and what
is on the branches. -/
theorem Hosts.around_iff (hosts : flow.Hosts (.block head lanes merge)) :
    flow.Around merge head id ↔ id ∈ head :: laneIds lanes := by
  have ids : (Item.block head lanes merge).ids = head :: laneIds lanes ++ [merge] :=
    Item.ids_block head lanes merge
  have distinct := hosts.distinct
  rw [ids, List.nodup_append] at distinct
  have short : ∀ id ∈ head :: laneIds lanes, id ≠ merge := fun id inside =>
    distinct.2.2 id inside merge List.mem_cons_self
  constructor
  · -- Before the merge, all edges of the block lead on in the block.
    intro around
    induction around with
    | refl => exact List.mem_cons_self
    | tail _ leads ih =>
      obtain ⟨wire, hwire, -, target⟩ := hosts.onward (by rw [ids]; exact List.mem_append_left _ ih)
        (short _ ih) leads.1
      have inside := Item.target_mem_ids hwire
      rw [target, ids] at inside
      rcases List.mem_append.mp inside with inside | last
      · exact inside
      · exact absurd (List.mem_singleton.mp last) leads.2
  · intro inside
    obtain ⟨spot, hspot, rfl⟩ := Item.exists_spot_of_mem_ids 0
      (by rw [ids]; exact List.mem_append_left [merge] inside)
    -- The walk that comes to the node was not closed, so it has not entered the merge.
    have around : ∀ {id above}, flow.Arrives head id above → id ≠ merge →
        flow.Around merge head id := by
      intro id above arrives
      induction arrives with
      | start => exact fun _ => .refl
      | @next id child above before isOpen leads ih =>
        intro apart
        refine (ih fun same => ?_).tail ⟨leads, apart⟩
        subst same
        exact isOpen.2 (hosts.closesAt (hosts.charts.stands_of_arrives before))
    exact around (hosts.arrives (Int.le_refl 0) .start hspot) (short _ inside)

/-- The body of a hosted block is its head and what is on its branches. -/
theorem Hosts.mem_body_iff (hosts : flow.Hosts (.block head lanes merge))
    (enough : (flow.edges.length : Int) < limits.scanLimit) :
    id ∈ flow.body limits head merge ↔ id ∈ head :: laneIds lanes := by
  rw [mem_body_iff_around hosts.merge_ne_head.symm enough, hosts.around_iff]

end Flow

end Workflow
