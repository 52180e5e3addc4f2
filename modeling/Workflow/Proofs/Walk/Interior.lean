import Mathlib.Data.List.Chain
import Workflow.Proofs.Walk.EdgeOrder
import Workflow.Proofs.Walk.Spread

/-!
# What lies between a head and a merge

A block holds its head and whatever a way from the head leads to on which the merge does not stand,
identities without a node among them. A head that is its own merge has no such way. The merge comes
in only where it is asked for, and where the flow has it. This is all of the block with more steps
than there are edges, and with fewer it is a part of this.

## Main definitions

* `Flow.LeadsPast` — a way along edges on which a barrier does not stand
* `Flow.Encloses` — what lies between a head and a merge

## Main results

* `exists_leadsPast_iff` — a walk around a barrier, written out
* `collected_iff` — which nodes are collected for a block
-/

namespace Workflow

namespace Flow

/-- A way along edges leads from `start` to `id`, and `barrier` does not stand on it. -/
structure LeadsPast (flow : Flow) (barrier start id : NodeId) (way : List NodeId) : Prop where
  begins : way.head? = some start
  ends : way.getLast? = some id
  leads : way.IsChain flow.Leads
  keepsOff : barrier ∉ way

/-- The head, and what a way from it leads to on which the merge does not stand. -/
def Encloses (flow : Flow) (head merge id : NodeId) : Prop :=
  id = head ∨ ∃ way, flow.LeadsPast merge head id way

variable {flow : Flow} {limits : Limits} {head merge barrier start id child : NodeId}
  {way : List NodeId}

theorem LeadsPast.start_ne (past : flow.LeadsPast barrier start id way) : start ≠ barrier := by
  rintro rfl
  exact past.keepsOff (List.mem_of_head? past.begins)

theorem leadsPast_singleton (apart : start ≠ barrier) :
    flow.LeadsPast barrier start start [start] :=
  ⟨rfl, rfl, .singleton start, by simpa using apart.symm⟩

/-- A way that keeps off a barrier goes on along an edge that does not lead to it. -/
theorem LeadsPast.concat (past : flow.LeadsPast barrier start id way) (leads : flow.Leads id child)
    (apart : child ≠ barrier) : flow.LeadsPast barrier start child (way ++ [child]) := by
  refine ⟨?_, List.getLast?_concat, ?_, ?_⟩
  · rw [List.head?_append, past.begins]
    rfl
  · refine past.leads.append (.singleton child) fun last lasts first firsts => ?_
    obtain rfl := Option.some.inj (past.ends.symm.trans lasts)
    obtain rfl := Option.some.inj firsts
    exact leads
  · rw [List.mem_append, List.mem_singleton, not_or]
    exact ⟨past.keepsOff, apart.symm⟩

/-- A way that keeps off a barrier is a walk around it. -/
theorem LeadsPast.around (past : flow.LeadsPast barrier start id way) :
    flow.Around barrier start id := by
  have chain : way.IsChain fun source target => flow.Leads source target ∧ target ≠ barrier :=
    past.leads.imp_of_mem_imp fun _ target _ inside leads =>
      ⟨leads, fun same => past.keepsOff (same ▸ inside)⟩
  obtain ⟨rest, rfl⟩ := List.head?_eq_some_iff.mp past.begins
  refine List.relationReflTransGen_of_exists_isChain_cons rest chain ?_
  exact Option.some.inj ((List.getLast?_eq_some_getLast _).symm.trans past.ends)

/-- A walk around a barrier, written out. It does not start at the barrier. -/
theorem exists_leadsPast_iff :
    (∃ way, flow.LeadsPast barrier start id way) ↔
      start ≠ barrier ∧ flow.Around barrier start id := by
  constructor
  · rintro ⟨way, past⟩
    exact ⟨past.start_ne, past.around⟩
  · rintro ⟨apart, around⟩
    -- Each step of the walk goes to another node than the barrier; only the start is left to ask.
    induction around with
    | refl => exact ⟨_, leadsPast_singleton apart⟩
    | tail _ leads ih =>
      obtain ⟨way, past⟩ := ih
      exact ⟨_, past.concat leads.1 leads.2⟩

theorem encloses_iff_around (apart : head ≠ merge) :
    flow.Encloses head merge id ↔ flow.Around merge head id := by
  rw [Encloses, exists_leadsPast_iff, and_iff_right apart, or_iff_right_iff_imp]
  rintro rfl
  exact .refl

theorem encloses_self : flow.Encloses head head id ↔ id = head := by
  rw [Encloses, exists_leadsPast_iff, or_iff_left]
  exact fun past => past.1 rfl

/-! ### What is collected -/

theorem body_self : flow.body limits head head = [head] := if_pos rfl

/-- Whatever is collected of a body lies between the head and the merge. -/
theorem encloses_of_mem_body (member : id ∈ flow.body limits head merge) :
    flow.Encloses head merge id := by
  by_cases apart : head = merge
  · subst apart
    rw [body_self, List.mem_singleton] at member
    exact encloses_self.mpr member
  · rw [body_eq apart] at member
    exact (encloses_iff_around apart).mpr ((flow.scanned_body limits head merge).around id member)

/-- With more steps than edges, all is collected that lies between the head and the merge. -/
theorem mem_body_iff_encloses (enough : (flow.edges.length : Int) < limits.scanLimit) :
    id ∈ flow.body limits head merge ↔ flow.Encloses head merge id := by
  by_cases apart : head = merge
  · subst apart
    rw [body_self, List.mem_singleton, encloses_self]
  · rw [mem_body_iff_around apart enough, encloses_iff_around apart]

/-- A block is its body, and the merge if the flow has it. The body of a head that is its own merge
has the merge already. -/
theorem mem_block_iff_body : id ∈ flow.block limits head merge ↔
    id ∈ flow.body limits head merge ∨ id = merge ∧ (flow.has merge = true ∨ merge = head) := by
  rw [block, List.mem_append]
  by_cases apart : head = merge
  · subst apart
    simp [body_self]
  · have other : merge ≠ head := fun same => apart same.symm
    by_cases there : flow.has merge = true <;> simp [apart, other, there]

/-- What is collected for a block has the head in it, and lies between the head and the merge, or is
the merge, where it is asked for and the flow has it. With more steps than edges it is all of
this. -/
theorem collected_iff (flow : Flow) (limits : Limits) (head merge : NodeId) :
    head ∈ flow.body limits head merge ∧ head ∈ flow.block limits head merge ∧
    (∀ id ∈ flow.body limits head merge, flow.Encloses head merge id) ∧
    (∀ id ∈ flow.block limits head merge, flow.Encloses head merge id ∨
      id = merge ∧ (flow.has merge = true ∨ merge = head)) ∧
    ((flow.edges.length : Int) < limits.scanLimit → ∀ id,
      (id ∈ flow.body limits head merge ↔ flow.Encloses head merge id) ∧
      (id ∈ flow.block limits head merge ↔ flow.Encloses head merge id ∨
        id = merge ∧ (flow.has merge = true ∨ merge = head))) := by
  refine ⟨head_mem_body, mem_block_iff_body.mpr (.inl head_mem_body),
    fun id => encloses_of_mem_body, fun id member => ?_,
    fun enough id => ⟨mem_body_iff_encloses enough, ?_⟩⟩
  · exact (mem_block_iff_body.mp member).imp_left encloses_of_mem_body
  · rw [mem_block_iff_body, mem_body_iff_encloses enough]

/-- In the flow with the cycle, an identity without a node lies between the outer head and its
merge, and the merge does not. -/
theorem collected_iff_eddy :
    (eddy.edges.length : Int) < ({ scanLimit := 9 } : Limits).scanLimit ∧
    eddy.has "gone" = false ∧ eddy.Encloses "outer" "join" "gone" ∧
    ¬ eddy.Encloses "outer" "join" "join" ∧
    "join" ∈ eddy.block { scanLimit := 9 } "outer" "join" := by
  have enough : (eddy.edges.length : Int) < ({ scanLimit := 9 } : Limits).scanLimit := by
    decide +kernel
  obtain ⟨-, -, -, -, exactly⟩ := collected_iff eddy { scanLimit := 9 } "outer" "join"
  refine ⟨enough, by decide +kernel, (exactly enough "gone").1.mp (by decide +kernel), ?_,
    (exactly enough "join").2.mpr (.inr ⟨rfl, .inl (by decide +kernel)⟩)⟩
  exact fun inside => absurd ((exactly enough "join").1.mpr inside) (by decide +kernel)

end Flow

end Workflow
