import Mathlib.Data.List.Nodup
import Mathlib.Logic.Relation
import Workflow.Proofs.Nesting.Line

/-!
# Edges against order and depth

The edges of a sequence lead forward in the order of its nodes, and the depth below
the node where an edge starts is the depth above the node where it ends. A block
keeps its inside below the depth at which it stands itself.

## Main results

* `Line.sublist_of_mem_wires` — edges lead forward
* `Item.reaches_last` — along edges the last node is reached from each node
* `Item.goes_of_mem_wires` — the depth goes on along an edge
-/

namespace Workflow

variable {item : Item} {line rest : Line} {lanes : List Lane} {wire : Wire} {spot : Spot}
  {entry : Option Port} {exit : Option NodeId} {depth : Int} {id : NodeId}

theorem mem_link : wire ∈ link entry exit ↔
    entry = some ⟨wire.source, wire.branch⟩ ∧ exit = some wire.target := by
  obtain ⟨source, target, branch⟩ := wire
  rcases entry with _ | ⟨node, name⟩ <;> cases exit <;> simp [link]
  grind

/-! ### Edges lead forward -/

/-- In a list without repetition, an element that comes first has the smaller index. -/
theorem idxOf_lt_of_sublist {list : List NodeId} {a b : NodeId} (distinct : list.Nodup)
    (h : [a, b].Sublist list) : list.idxOf a < list.idxOf b := by
  have ordered : list.Pairwise fun x y => list.idxOf x < list.idxOf y := by
    rw [List.pairwise_iff_getElem]
    intro i j hi hj before
    rw [distinct.idxOf_getElem i hi, distinct.idxOf_getElem j hj]
    exact before
  exact List.pairwise_iff_forall_sublist.mp ordered h

/-- The nodes on a branch come in order among those of all branches. -/
theorem ids_sublist_laneIds {lane : Lane} (h : lane ∈ lanes) : lane.2.ids.Sublist (laneIds lanes) := by
  rw [laneIds, List.flatMap_def]
  exact List.sublist_flatten_of_mem (List.mem_map_of_mem h)

/-- The order of nodes along which the edges of a sequence lead. -/
def Line.course (line : Line) (entry : Option Port) (exit : Option NodeId) : List NodeId :=
  (entry.map (·.node)).toList ++ line.ids ++ exit.toList

/-- If edges lead forward on the branches of an item, they do so in the item. -/
private theorem Item.sublist_of_lanes
    (forward : ∀ lane ∈ item.lanes, ∀ {wire : Wire} {entry exit},
      wire ∈ lane.2.wires entry exit → [wire.source, wire.target].Sublist (lane.2.course entry exit))
    (h : wire ∈ item.wires) : [wire.source, wire.target].Sublist item.ids := by
  cases item with
  | step id => simp [Item.wires] at h
  | block head lanes merge =>
    obtain ⟨lane, member, h⟩ := mem_laneWires.mp h
    rw [Item.ids_block]
    exact (forward lane member h).trans
      (((ids_sublist_laneIds member).cons_cons head).append (List.Sublist.refl [merge]))

/-- An edge of a sequence leads from the entry or a node on to a later node or the exit. -/
theorem Line.sublist_of_mem_wires (h : wire ∈ line.wires entry exit) :
    [wire.source, wire.target].Sublist (line.course entry exit) := by
  induction line generalizing entry exit wire with
  | done =>
    obtain ⟨rfl, rfl⟩ := mem_link.mp h
    exact List.Sublist.refl _
  | cons item out rest lanes ih =>
    rw [Line.wires, List.mem_append, List.mem_append] at h
    rw [course, Line.ids_cons]
    rcases h with (h | h) | h
    · -- The edge into the first item.
      obtain ⟨rfl, target⟩ := mem_link.mp h
      rw [← Option.some.inj target, List.append_assoc, List.append_assoc]
      have first : [item.first].Sublist item.ids :=
        List.singleton_sublist.mpr item.first_mem_ids
      exact (List.Sublist.refl [wire.source]).append
        (first.trans (List.sublist_append_left _ _))
    · rw [List.append_assoc, List.append_assoc]
      exact (Item.sublist_of_lanes lanes h).trans
        ((List.sublist_append_left _ _).trans (List.sublist_append_right _ _))
    · -- What is behind the first item is entered from its last node.
      have behind := ih h
      rw [course, List.append_assoc] at behind
      rw [List.append_assoc, List.append_assoc]
      have last : [item.last].Sublist item.ids :=
        List.singleton_sublist.mpr item.last_mem_ids
      exact (behind.trans (last.append (List.Sublist.refl _))).trans
        (List.sublist_append_right _ _)

/-- An edge inside an item leads from one of its nodes on to a later one. -/
theorem Item.sublist_of_mem_wires (h : wire ∈ item.wires) :
    [wire.source, wire.target].Sublist item.ids :=
  Item.sublist_of_lanes (fun _ _ _ _ _ inside => Line.sublist_of_mem_wires inside) h

/-- Of two elements in order, the former stands before what is at most one element. -/
private theorem mem_of_sublist_append_toList {α : Type} {a b : α} {list : List α} {tail : Option α}
    (h : [a, b].Sublist (list ++ tail.toList)) : a ∈ list := by
  obtain ⟨front, back, split, hfront, hback⟩ := List.sublist_append_iff.mp h
  cases front with
  | nil =>
    -- Both elements would be in the tail, which holds one at most.
    have short := hback.length_le
    rw [← List.nil_append back, ← split] at short
    cases tail <;> simp at short
  | cons c front =>
    rw [List.cons_append, List.cons.injEq] at split
    exact split.1 ▸ hfront.subset List.mem_cons_self

/-- Of two elements in order, the latter stands behind what is at most one element. -/
private theorem mem_of_sublist_toList_append {α : Type} {a b : α} {list : List α} {front : Option α}
    (h : [a, b].Sublist (front.toList ++ list)) : b ∈ list := by
  cases front with
  | none => exact h.subset (by simp)
  | some c =>
    have tail : [b].Sublist list := by
      simpa using h.tail
    exact List.singleton_sublist.mp tail

/-- An edge of a sequence starts at its entry or in it. -/
theorem Line.source_mem (h : wire ∈ line.wires entry exit) :
    wire.source ∈ (entry.map (·.node)).toList ++ line.ids :=
  mem_of_sublist_append_toList (sublist_of_mem_wires h)

/-- An edge of a sequence ends in it or at its exit. -/
theorem Line.target_mem (h : wire ∈ line.wires entry exit) :
    wire.target ∈ line.ids ++ exit.toList := by
  have order := sublist_of_mem_wires h
  rw [course, List.append_assoc] at order
  exact mem_of_sublist_toList_append order

theorem Item.source_mem_ids (h : wire ∈ item.wires) : wire.source ∈ item.ids :=
  (sublist_of_mem_wires h).subset (by simp)

theorem Item.target_mem_ids (h : wire ∈ item.wires) : wire.target ∈ item.ids :=
  (sublist_of_mem_wires h).subset (by simp)

/-- No edge inside an item starts at its last node. -/
theorem Item.source_ne_last (distinct : item.ids.Nodup) (h : wire ∈ item.wires) :
    wire.source ≠ item.last := by
  cases item with
  | step id => simp [Item.wires] at h
  | block head lanes merge =>
    -- The source stands before another node, so it is not the last one.
    have order := sublist_of_mem_wires h
    rw [Item.ids_block] at order distinct
    have before : wire.source ∈ head :: laneIds lanes :=
      @mem_of_sublist_append_toList _ _ _ _ (some merge) order
    exact (List.nodup_append.mp distinct).2.2 _ before merge (List.mem_singleton.mpr rfl)

/-- No edge inside an item ends at its first node. -/
theorem Item.target_ne_first (distinct : item.ids.Nodup) (h : wire ∈ item.wires) :
    wire.target ≠ item.first := by
  cases item with
  | step id => simp [Item.wires] at h
  | block head lanes merge =>
    -- The target stands behind another node, so it is not the first one.
    have order := sublist_of_mem_wires h
    rw [Item.ids_block, List.cons_append] at order distinct
    have behind : wire.target ∈ laneIds lanes ++ [merge] :=
      @mem_of_sublist_toList_append _ _ _ _ (some head) order
    rintro same
    rw [same] at behind
    exact (List.nodup_cons.mp distinct).1 behind

/-- Behind its first node, an edge of a sequence starts in it. -/
theorem Line.source_mem_inner (h : wire ∈ line.inner exit) : wire.source ∈ line.ids := by
  cases line with
  | done => cases h
  | cons item out rest =>
    rw [ids_cons, List.mem_append]
    rcases List.mem_append.mp h with inside | behind
    · exact .inl (Item.source_mem_ids inside)
    · rcases List.mem_append.mp (source_mem behind) with last | later
      · have source : wire.source = item.last := by simpa using last
        exact .inl (source ▸ item.last_mem_ids)
      · exact .inr later

/-- Behind its first node, an edge of a sequence ends in it or at its exit. -/
theorem Line.target_mem_inner (h : wire ∈ line.inner exit) :
    wire.target ∈ line.ids ++ exit.toList :=
  @target_mem line wire none exit (by rw [wires_eq]; exact List.mem_append_right _ h)

/-- A sequence is entered at a node of it, or is empty and leads straight to its exit. -/
theorem Line.mem_of_entrance (h : line.entrance exit = some id) : id ∈ line.ids ++ exit.toList := by
  cases line with
  | done =>
    rw [entrance] at h
    simp [h]
  | cons item out rest =>
    obtain rfl := Option.some.inj h
    simp [item.first_mem_ids]

/-! ### Edges lead to the end -/

section Reaches

variable {leads : NodeId → NodeId → Prop}

/-- If edges lead to the exit on the branches of an item, they lead to its last node. -/
private theorem Item.reaches_of_lanes
    (cross : ∀ lane ∈ item.lanes, ∀ {port : Port} {exit : NodeId},
      (∀ wire ∈ lane.2.wires (some port) (some exit), leads wire.source wire.target) →
      (∀ block ∈ lane.2.blocks, 0 < block.width) →
      Relation.ReflTransGen leads port.node exit ∧
        ∀ id ∈ lane.2.ids, Relation.ReflTransGen leads id exit)
    (along : ∀ wire ∈ item.wires, leads wire.source wire.target)
    (forked : ∀ block ∈ item.blocks, 0 < block.width) (h : id ∈ item.ids) :
    Relation.ReflTransGen leads id item.last := by
  cases item with
  | step own =>
    obtain rfl := List.mem_singleton.mp h
    exact .refl
  | block head lanes merge =>
    have crossed : ∀ lane ∈ lanes, Relation.ReflTransGen leads head merge ∧
        ∀ id ∈ lane.2.ids, Relation.ReflTransGen leads id merge := by
      intro lane member
      refine @cross lane member ⟨head, lane.1⟩ merge ?_ ?_
      · exact fun wire inside => along wire (mem_laneWires.mpr ⟨lane, member, inside⟩)
      · intro block inside
        exact forked block (by simp [mem_laneBlocks.mpr ⟨lane, member, inside⟩])
    rw [Item.ids_block, List.cons_append, List.mem_cons, List.mem_append] at h
    rcases h with rfl | inside | last
    · -- A block has a branch, and along it the merge is reached from the head.
      have wide : 0 < lanes.length := forked ⟨id, merge, lanes.length⟩ (by simp)
      exact (crossed lanes[0] (List.getElem_mem wide)).1
    · obtain ⟨lane, member, inside⟩ := mem_laneIds.mp inside
      exact (crossed lane member).2 id inside
    · obtain rfl := List.mem_singleton.mp last
      exact .refl

/-- Along the edges of a sequence its exit is reached from its entry and from each node. -/
theorem Line.reaches_exit {port : Port} {exit : NodeId}
    (along : ∀ wire ∈ line.wires (some port) (some exit), leads wire.source wire.target)
    (forked : ∀ block ∈ line.blocks, 0 < block.width) :
    Relation.ReflTransGen leads port.node exit ∧
      ∀ id ∈ line.ids, Relation.ReflTransGen leads id exit := by
  induction line generalizing port exit with
  | done =>
    have single := along ⟨port.node, exit, port.branch⟩ (by simp [Line.wires, link])
    exact ⟨.single single, by simp⟩
  | cons item out rest lanes ih =>
    have into : leads port.node item.first :=
      along ⟨port.node, item.first, port.branch⟩ (by simp [Line.wires, link])
    have inside : ∀ id ∈ item.ids, Relation.ReflTransGen leads id item.last := fun id member =>
      Item.reaches_of_lanes lanes (fun wire here => along wire (by simp [Line.wires, here]))
        (fun block here => forked block (by simp [here])) member
    obtain ⟨onward, behind⟩ := @ih ⟨item.last, out⟩ exit
      (fun wire here => along wire (by simp [Line.wires, here]))
      (fun block here => forked block (by simp [here]))
    refine ⟨.head into ((inside item.first item.first_mem_ids).trans onward), ?_⟩
    intro id member
    rcases List.mem_append.mp (Line.ids_cons item out rest ▸ member) with here | later
    · exact (inside id here).trans onward
    · exact behind id later

/-- Along the edges of an item its last node is reached from each node. -/
theorem Item.reaches_last (along : ∀ wire ∈ item.wires, leads wire.source wire.target)
    (forked : ∀ block ∈ item.blocks, 0 < block.width) (h : id ∈ item.ids) :
    Relation.ReflTransGen leads id item.last :=
  Item.reaches_of_lanes (fun _ _ _ _ here branched => Line.reaches_exit here branched) along
    forked h

end Reaches

/-! ### The depth goes on along edges -/

/-- Between two lists of spots, an edge that leads from one of the former to one of the
latter, which stands as deep as the former leaves off. -/
def Wire.Goes (wire : Wire) (sources targets : List Spot) : Prop :=
  ∃ before ∈ sources, ∃ after ∈ targets,
    before.id = wire.source ∧ after.id = wire.target ∧ before.below = after.above

/-- More spots do not keep an edge from going on at its depth. -/
theorem Wire.Goes.mono {sources targets others further : List Spot} (h : wire.Goes sources targets)
    (hsources : sources ⊆ others) (htargets : targets ⊆ further) : wire.Goes others further := by
  obtain ⟨before, hbefore, after, hafter, joined⟩ := h
  exact ⟨before, hsources hbefore, after, htargets hafter, joined⟩

/-- If the depth goes on along the edges of the branches of an item, it does so in the item. -/
private theorem Item.goes_of_lanes
    (goes : ∀ lane ∈ item.lanes, ∀ {wire : Wire} {depth : Int} {via} (start finish : Spot),
      start.below = depth → finish.above = depth →
      wire ∈ lane.2.wires (some ⟨start.id, via⟩) (some finish.id) →
      wire.Goes (start :: lane.2.spots depth) (lane.2.spots depth ++ [finish]))
    (h : wire ∈ item.wires) : wire.Goes (item.spots depth) (item.spots depth) := by
  cases item with
  | step id => simp [Item.wires] at h
  | block head lanes merge =>
    obtain ⟨lane, member, h⟩ := mem_laneWires.mp h
    have onLane : lane.2.spots (depth + 1) ⊆ laneSpots (depth + 1) lanes :=
      fun spot inside => mem_laneSpots.mpr ⟨lane, member, inside⟩
    -- A branch goes from the head, left one deeper, to the merge, entered as deep.
    refine Wire.Goes.mono (goes lane member ⟨head, .head, depth⟩ ⟨merge, .merge, depth + 1⟩
      rfl rfl h) ?_ ?_
    · exact List.Subset.trans (List.cons_subset_cons _ onLane) (List.subset_append_left _ _)
    · rw [Item.spots, List.cons_append]
      refine List.subset_cons_of_subset _ (List.append_subset.mpr ⟨?_, ?_⟩)
      · exact List.Subset.trans onLane (List.subset_append_left _ _)
      · exact List.subset_append_right _ _

/-- Along the edges of a sequence the depth goes on, from a spot before it to a spot
behind it, both at its depth. -/
theorem Line.goes_of_mem_wires {via : Option String} (start finish : Spot)
    (hstart : start.below = depth) (hfinish : finish.above = depth)
    (h : wire ∈ line.wires (some ⟨start.id, via⟩) (some finish.id)) :
    wire.Goes (start :: line.spots depth) (line.spots depth ++ [finish]) := by
  induction line generalizing depth start finish via wire with
  | done =>
    obtain ⟨source, target⟩ := mem_link.mp h
    simp only [Option.some.injEq, Port.mk.injEq] at source target
    exact ⟨start, List.mem_cons_self, finish, by simp, source.1, target, hstart.trans hfinish.symm⟩
  | cons item out rest lanes ih =>
    rw [Line.wires, List.mem_append, List.mem_append] at h
    rw [Line.spots]
    rcases h with (h | h) | h
    · obtain ⟨source, target⟩ := mem_link.mp h
      simp only [Option.some.injEq, Port.mk.injEq] at source target
      obtain ⟨first, hfirst, firstId, firstAbove⟩ := item.exists_first_spot depth
      exact ⟨start, List.mem_cons_self, first, by simp [hfirst], source.1, firstId.trans target,
        hstart.trans firstAbove.symm⟩
    · have inside : wire.Goes (item.spots depth) (item.spots depth) := Item.goes_of_lanes lanes h
      refine inside.mono ?_ ?_
      · exact List.Subset.trans (List.subset_append_left _ _) (List.subset_cons_self _ _)
      · rw [List.append_assoc]
        exact List.subset_append_left _ _
    · obtain ⟨last, hlast, lastId, lastBelow⟩ := item.exists_last_spot depth
      rw [← lastId] at h
      refine (ih last finish lastBelow hfinish h).mono ?_ ?_
      · refine List.cons_subset.mpr ⟨by simp [hlast], ?_⟩
        exact List.Subset.trans (List.subset_append_right _ _) (List.subset_cons_self _ _)
      · rw [List.append_assoc]
        exact List.subset_append_right _ _

/-- Inside an item the depth goes on along the edges. -/
theorem Item.goes_of_mem_wires (depth : Int) (h : wire ∈ item.wires) :
    wire.Goes (item.spots depth) (item.spots depth) :=
  Item.goes_of_lanes (fun _ _ _ _ _ start finish hstart hfinish inside =>
    Line.goes_of_mem_wires start finish hstart hfinish inside) h

end Workflow
