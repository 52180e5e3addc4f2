import Mathlib.Logic.Relation
import Workflow.Block.Merge

/-!
# Walks that keep the depth

A walk along the edges of a flow carries a depth: each head adds one to it and each
merge takes one away. The walk stays open while the depth does not fall below zero
and no merge brings it back to zero. The merge that does closes the start.

## Main definitions

* `Flow.Leads` — an edge leads from one node to another
* `Flow.OpenAt`, `Flow.ClosesAt` — whether a walk goes on past a node, or is closed there
* `Flow.Arrives`, `Flow.Leaves` — an open walk comes to a node, or goes on past it
* `Flow.Closes` — a merge closes a start
* `Flow.Steady` — the depth at a node does not depend on the walk
* `Flow.Around` — a walk that keeps off a node

## Main results

* `Arrives.one_le` — below a head that is no merge an open walk has depth at least one
* `closes_of_joining` — a start that is head and merge at once is closed by itself alone
-/

namespace Workflow

namespace Flow

/-- An edge leads from one node to another. -/
def Leads (flow : Flow) (source target : NodeId) : Prop :=
  ∃ edge ∈ flow.edges, edge.source = source ∧ edge.target = target

/-- A walk with this depth above a node is closed there. -/
def ClosesAt (flow : Flow) (id : NodeId) (above : Int) : Prop :=
  above + flow.rise id = 0 ∧ flow.isMerge id = true

/-- A walk with this depth above a node goes on past it. -/
def OpenAt (flow : Flow) (id : NodeId) (above : Int) : Prop :=
  0 ≤ above + flow.rise id ∧ ¬ flow.ClosesAt id above

/-- A walk from `start` that is open so far comes to a node, with this depth above it. -/
inductive Arrives (flow : Flow) (start : NodeId) : NodeId → Int → Prop
  | start : Arrives flow start start 0
  | next {id child : NodeId} {above : Int} (before : Arrives flow start id above)
      (isOpen : flow.OpenAt id above) (leads : flow.Leads id child) :
      Arrives flow start child (above + flow.rise id)

/-- An open walk from `start` leaves a node with this depth below it. -/
def Leaves (flow : Flow) (start id : NodeId) (depth : Int) : Prop :=
  ∃ above, flow.Arrives start id above ∧ flow.OpenAt id above ∧ above + flow.rise id = depth

/-- Some walk from `start` is first closed at `merge`. -/
def Closes (flow : Flow) (start merge : NodeId) : Prop :=
  ∃ above, flow.Arrives start merge above ∧ flow.ClosesAt merge above

/-- All walks from `start` that are open at a node have the same depth there. -/
def Steady (flow : Flow) (start : NodeId) : Prop :=
  ∀ {id : NodeId} {above other : Int}, flow.Arrives start id above → flow.OpenAt id above →
    flow.Arrives start id other → flow.OpenAt id other → above = other

/-- A walk leads from one node to another and does not enter `barrier`. -/
def Around (flow : Flow) (barrier : NodeId) : NodeId → NodeId → Prop :=
  Relation.ReflTransGen fun source target => flow.Leads source target ∧ target ≠ barrier

variable {flow after : Flow} {start id child merge : NodeId} {above : Int}

theorem leads_iff_mem_children : flow.Leads id child ↔ child ∈ flow.children id :=
  mem_children.symm

theorem leads_iff_mem_parents : flow.Leads id child ↔ id ∈ flow.parents child := by
  rw [mem_parents, Leads]
  exact exists_congr fun edge => and_congr_right fun _ => and_comm

theorem Leaves.arrives {depth : Int} (h : flow.Leaves start id depth)
    (leads : flow.Leads id child) : flow.Arrives start child depth := by
  obtain ⟨above, before, isOpen, rfl⟩ := h
  exact before.next isOpen leads

/-- A walk comes to a node by starting there, or from a node that it leaves. -/
theorem Arrives.eq_start_or (h : flow.Arrives start id above) :
    id = start ∧ above = 0 ∨ ∃ parent, flow.Leaves start parent above ∧ flow.Leads parent id := by
  cases h with
  | start => exact .inl ⟨rfl, rfl⟩
  | next before isOpen leads => exact .inr ⟨_, ⟨_, before, isOpen, rfl⟩, leads⟩

/-- A walk goes along edges. -/
theorem Arrives.reaches (h : flow.Arrives start id above) :
    Relation.ReflTransGen flow.Leads start id := by
  induction h with
  | start => exact .refl
  | next _ _ leads ih => exact ih.tail leads

/-! ### What a node adds to the depth -/

theorem rise_of_neither (hhead : flow.isHead id = false) (hmerge : flow.isMerge id = false) :
    flow.rise id = 0 := by
  simp [rise, hhead, hmerge]

theorem rise_of_head (hhead : flow.isHead id = true) (hmerge : flow.isMerge id = false) :
    flow.rise id = 1 := by
  simp [rise, hhead, hmerge]

theorem rise_of_merge (hhead : flow.isHead id = false) (hmerge : flow.isMerge id = true) :
    flow.rise id = -1 := by
  simp [rise, hhead, hmerge]

theorem rise_of_both (hhead : flow.isHead id = true) (hmerge : flow.isMerge id = true) :
    flow.rise id = 0 := by
  simp [rise, hhead, hmerge]

theorem rise_nonneg_of_not_merge (hmerge : flow.isMerge id = false) : 0 ≤ flow.rise id := by
  cases hhead : flow.isHead id
  · exact Int.le_of_eq (rise_of_neither hhead hmerge).symm
  · rw [rise_of_head hhead hmerge]
    decide

/-- The roles of a node decide what it adds to the depth. -/
theorem rise_congr (roles : after.isHead id = flow.isHead id ∧ after.isMerge id = flow.isMerge id) :
    after.rise id = flow.rise id := by
  rw [rise, rise, roles.1, roles.2]

/-- The roles of a node decide whether a walk is closed there. -/
theorem closesAt_congr
    (roles : after.isHead id = flow.isHead id ∧ after.isMerge id = flow.isMerge id) :
    after.ClosesAt id above ↔ flow.ClosesAt id above := by
  rw [ClosesAt, ClosesAt, rise_congr roles, roles.2]

/-- The roles of a node decide whether a walk goes on past it. -/
theorem openAt_congr
    (roles : after.isHead id = flow.isHead id ∧ after.isMerge id = flow.isMerge id) :
    after.OpenAt id above ↔ flow.OpenAt id above := by
  rw [OpenAt, OpenAt, rise_congr roles, closesAt_congr roles]

theorem OpenAt.of_pos (h : 0 < above + flow.rise id) : flow.OpenAt id above :=
  ⟨Int.le_of_lt h, fun closed => Int.ne_of_gt h closed.1⟩

/-! ### The depth below a head -/

/-- Where a walk comes to with depth at least one, it stays open only at depth at least one. -/
theorem OpenAt.one_le (h : flow.OpenAt id above) (habove : 1 ≤ above) :
    1 ≤ above + flow.rise id := by
  -- Only a merge takes the depth down, by one, and at zero it would close the walk.
  cases hmerge : flow.isMerge id
  · have rises := rise_nonneg_of_not_merge hmerge
    omega
  · have apart : above + flow.rise id ≠ 0 := fun level => h.2 ⟨level, hmerge⟩
    have low := h.1
    omega

/-- Below a head that is no merge an open walk has depth at least one. -/
theorem Arrives.one_le (h : flow.Arrives start id above) (hhead : flow.isHead start = true)
    (hmerge : flow.isMerge start = false) : id = start ∧ above = 0 ∨ 1 ≤ above := by
  induction h with
  | start => exact .inl ⟨rfl, rfl⟩
  | next before isOpen leads ih =>
    right
    -- The head itself adds one, and from there on the depth stays at least one.
    rcases ih with ⟨rfl, rfl⟩ | habove
    · rw [rise_of_head hhead hmerge]
      decide
    · exact isOpen.one_le habove

/-- An open walk has depth at least one below each node, if it starts at a head that is
no merge. -/
theorem Arrives.one_le_below (h : flow.Arrives start id above) (isOpen : flow.OpenAt id above)
    (hhead : flow.isHead start = true) (hmerge : flow.isMerge start = false) :
    1 ≤ above + flow.rise id := by
  rcases h.one_le hhead hmerge with ⟨rfl, rfl⟩ | habove
  · rw [rise_of_head hhead hmerge]
    decide
  · exact isOpen.one_le habove

/-- A start that is head and merge at once is closed by itself alone. -/
theorem closes_of_joining (hhead : flow.isHead start = true) (hmerge : flow.isMerge start = true) :
    flow.Closes start merge ↔ merge = start := by
  have level : flow.ClosesAt start 0 := ⟨by rw [rise_of_both hhead hmerge]; rfl, hmerge⟩
  constructor
  · rintro ⟨above, arrives, -⟩
    -- No walk leaves the start, since it is closed there.
    have stays : ∀ {id above}, flow.Arrives start id above → id = start ∧ above = 0 := by
      intro id above h
      induction h with
      | start => exact ⟨rfl, rfl⟩
      | next before isOpen leads ih =>
        obtain ⟨rfl, rfl⟩ := ih
        exact absurd level isOpen.2
    exact (stays arrives).1
  · rintro rfl
    exact ⟨0, .start, level⟩

end Flow

end Workflow
