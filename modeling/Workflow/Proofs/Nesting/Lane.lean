import Mathlib.Data.List.Pairwise
import Workflow.Proofs.Nesting.Neighbour

/-!
# The branches of a block

A branch of a block is entered from the head of the block at its first node, and left for the
merge. So an edge of a flow that hosts the block joins two nodes of one branch, or it is at one
of the ends of the block.

## Main results

* `Hosts.lane_onward`, `Hosts.lane_inward` — edges out of a branch and into it
* `Hosts.exists_lane_of_leads` — what the head leads to, the merge apart, begins a branch
* `Hosts.around_entrance_iff` — the nodes of a branch are those reached from its first one
* `Nests.length_edgesTo_entrance_le` — one edge at most leads to where a branch begins
-/

namespace Workflow

variable {lanes : List Lane} {lane other : Lane} {line : Line} {head merge id child : NodeId}

/-- Branches without a node in common are told apart by any node of theirs. -/
theorem lane_unique (distinct : (laneIds lanes).Nodup) (member : lane ∈ lanes)
    (memberToo : other ∈ lanes) (here : id ∈ lane.2.ids) (there : id ∈ other.2.ids) :
    lane = other := by
  by_contra apart
  rw [laneIds, List.nodup_flatMap] at distinct
  have : Std.Symm (Function.onFun List.Disjoint fun lane : Lane => lane.2.ids) :=
    ⟨fun _ _ separate id inside insideToo => separate insideToo inside⟩
  exact distinct.2.forall member memberToo apart here there

/-- A sequence is entered at one of its own nodes, if it has one. -/
theorem Line.mem_ids_of_entrance (begins : line.entrance none = some id) : id ∈ line.ids := by
  simpa using Line.mem_of_entrance begins

/-- A sequence that has a node is entered at one of its nodes. -/
theorem Line.exists_entrance (here : id ∈ line.ids) : ∃ first, line.entrance none = some first := by
  cases line with
  | done => cases here
  | cons item out rest => exact ⟨item.first, rfl⟩

namespace Flow

variable {flow : Flow}

section Lane

variable (hosts : flow.Hosts (.block head lanes merge))
include hosts

/-- The ends of a block are not on its branches. -/
theorem Hosts.ends_notMem_laneIds : head ∉ laneIds lanes ∧ merge ∉ laneIds lanes := by
  have distinct := hosts.distinct
  rw [Item.ids_block, List.nodup_append, List.nodup_cons] at distinct
  exact ⟨distinct.1.1, fun inside =>
    distinct.2.2 merge (List.mem_cons_of_mem _ inside) merge List.mem_cons_self rfl⟩

theorem Hosts.nodup_laneIds : (laneIds lanes).Nodup := by
  have distinct := hosts.distinct
  rw [Item.ids_block, List.nodup_append, List.nodup_cons] at distinct
  exact distinct.1.2

variable (member : lane ∈ lanes)
include member

theorem Hosts.mem_ids_of_lane (here : id ∈ lane.2.ids) : id ∈ (Item.block head lanes merge).ids ∧
    id ≠ head ∧ id ≠ merge := by
  have inside : id ∈ laneIds lanes := mem_laneIds.mpr ⟨lane, member, here⟩
  refine ⟨?_, fun same => hosts.ends_notMem_laneIds.1 (same ▸ inside),
    fun same => hosts.ends_notMem_laneIds.2 (same ▸ inside)⟩
  rw [Item.ids_block]
  exact List.mem_append_left _ (List.mem_cons_of_mem _ inside)

/-- An edge out of a node of a branch leads along the branch or to the merge. -/
theorem Hosts.lane_onward (here : id ∈ lane.2.ids) (leads : flow.Leads id child) :
    child ∈ lane.2.ids ∨ child = merge := by
  obtain ⟨inside, below, short⟩ := hosts.mem_ids_of_lane member here
  obtain ⟨wire, along, rfl, rfl⟩ := hosts.onward inside short leads
  obtain ⟨other, memberToo, along⟩ := mem_laneWires.mp along
  rw [Line.wires_eq] at along
  rcases List.mem_append.mp along with into | inner
  · exact absurd (congrArg Port.node (Option.some.inj (mem_link.mp into).1)).symm below
  · obtain rfl := lane_unique hosts.nodup_laneIds member memberToo here
      (Line.source_mem_inner inner)
    simpa using Line.target_mem_inner inner

/-- An edge into a node of a branch leads along the branch, or from the head to where the branch
begins. -/
theorem Hosts.lane_inward (here : child ∈ lane.2.ids) (leads : flow.Leads id child) :
    id ∈ lane.2.ids ∨ id = head ∧ lane.2.entrance none = some child := by
  obtain ⟨inside, below, short⟩ := hosts.mem_ids_of_lane member here
  obtain ⟨wire, along, rfl, rfl⟩ := hosts.inward inside below leads
  obtain ⟨other, memberToo, along⟩ := mem_laneWires.mp along
  have same : wire.target ∈ other.2.ids → lane = other :=
    lane_unique hosts.nodup_laneIds member memberToo here
  rw [Line.wires_eq] at along
  rcases List.mem_append.mp along with into | inner
  · right
    obtain ⟨from', begins⟩ := mem_link.mp into
    have source : head = wire.source := congrArg Port.node (Option.some.inj from')
    refine ⟨source.symm, ?_⟩
    cases empty : other.2 with
    | done =>
      rw [empty, Line.entrance] at begins
      exact absurd (Option.some.inj begins).symm short
    | cons item out rest =>
      rw [empty, Line.entrance] at begins
      have first : wire.target ∈ other.2.ids := by
        rw [empty]
        exact Line.mem_ids_of_entrance begins
      rw [same first, empty]
      exact begins
  · left
    have target : wire.target ∈ other.2.ids := by
      have ends := Line.target_mem_inner inner
      rw [Option.toList_some, List.mem_append, List.mem_singleton] at ends
      exact ends.resolve_right short
    rw [same target]
    exact Line.source_mem_inner inner

/-- The head leads to where a branch begins. -/
theorem Hosts.leads_entrance (begins : lane.2.entrance none = some id) : flow.Leads head id := by
  refine hosts.fits.leads ⟨head, id, lane.1⟩ (mem_laneWires.mpr ⟨lane, member, ?_⟩)
  rw [Line.wires_eq]
  refine List.mem_append_left _ (mem_link.mpr ⟨rfl, ?_⟩)
  cases empty : lane.2 with
  | done =>
    rw [empty] at begins
    cases begins
  | cons item out rest =>
    rw [empty] at begins
    exact begins

/-- From where a branch begins, its nodes are what is reached around the merge. -/
theorem Hosts.around_entrance_iff (begins : lane.2.entrance none = some child) :
    flow.Around merge child id ↔ id ∈ lane.2.ids := by
  constructor
  · intro around
    induction around with
    | refl => exact Line.mem_ids_of_entrance begins
    | tail _ leads ih => exact (hosts.lane_onward member ih leads.1).resolve_right leads.2
  · intro here
    obtain ⟨-, below, -⟩ := hosts.mem_ids_of_lane member here
    have around : flow.Around merge head id := hosts.around_iff.mpr
      (List.mem_cons_of_mem _ (mem_laneIds.mpr ⟨lane, member, here⟩))
    induction around with
    | refl => exact absurd rfl below
    | @tail id next _ leads ih =>
      rcases hosts.lane_inward member here leads.1 with inside | ⟨-, same⟩
      · exact (ih inside (hosts.mem_ids_of_lane member inside).2.1).tail leads
      · rw [begins] at same
        exact Option.some.inj same ▸ .refl

omit member in
/-- What the head leads to is the merge, or begins a branch. -/
theorem Hosts.exists_lane_of_leads (leads : flow.Leads head id) (short : id ≠ merge) :
    ∃ lane ∈ lanes, lane.2.entrance none = some id := by
  obtain ⟨wire, along, rfl, rfl⟩ := hosts.onward (Item.first_mem_ids (.block head lanes merge))
    hosts.merge_ne_head.symm leads
  have inside := Item.target_mem_ids along
  have apart := Item.target_ne_first hosts.distinct along
  rw [Item.ids_block, List.mem_append, List.mem_singleton, List.mem_cons] at inside
  obtain ⟨lane, member, here⟩ := mem_laneIds.mp ((inside.resolve_right short).resolve_left apart)
  refine ⟨lane, member, ?_⟩
  rcases hosts.lane_inward member here leads with back | ⟨-, begins⟩
  · exact absurd rfl (hosts.mem_ids_of_lane member back).2.1
  · exact begins

end Lane

/-- One edge at most leads to where a branch begins. -/
theorem Nests.length_edgesTo_entrance_le (nests : flow.Nests line)
    (block : .block head lanes merge ∈ line.items) (member : lane ∈ lanes)
    (begins : lane.2.entrance none = some id) : (flow.edgesTo id).length ≤ 1 := by
  cases first : lane.2 with
  | done =>
    rw [first] at begins
    cases begins
  | cons item out rest =>
    rw [first] at begins
    obtain rfl := Option.some.inj begins
    -- The first item of the branch is an item of the whole sequence, one layer further in.
    obtain ⟨context, name, behind, rfl⟩ := Line.exists_context_of_mem_items block
    obtain ⟨before, after, rfl⟩ := List.append_of_mem member
    have inner := Line.Context.plug_concat context
      (.within head before lane.1 after merge name behind) (.cons item out rest)
    rw [Line.Frame.wrap, ← first] at inner
    rw [← inner, first] at nests
    exact nests.length_edgesTo_first_le

end Flow

end Workflow
