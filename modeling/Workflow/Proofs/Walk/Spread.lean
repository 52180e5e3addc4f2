import Mathlib.Data.List.Nodup
import Mathlib.Data.List.Perm.Subperm
import Workflow.Block.Body
import Workflow.Proofs.Walk.Search

/-!
# The nodes around which a body is collected

The body of a block is collected by following nodes one after another. When the steps run out,
nodes may still be waiting in the queue, and what lies behind them is not collected. Otherwise
the body is exactly what walks from the head reach without entering the merge.

As in the search, the edges beyond the nodes that were followed bound the steps still
to come: a step follows one node, and queues no more nodes than it has edges.

## Main definitions

* `Flow.scan` — the collection of a body, with followed and waiting nodes apart
* `Flow.followed`, `Flow.waiting` — the nodes of a body that were followed, and those left waiting
* `Flow.Scanned` — what holds at each step of the collection

## Main results

* `mem_body_iff` — a body is its head and what the followed nodes lead to
* `mem_body_iff_around` — a body is what can be reached around the merge
-/

namespace Workflow

namespace Flow

/-- Collects a body like `spread`, and keeps apart the nodes that have been followed and those
that are left waiting when there are no more steps to take. -/
def scan (flow : Flow) (merge : NodeId) :
    Nat → List NodeId → List NodeId → List NodeId × List NodeId
  | 0, done, queue => (done, queue)
  | _ + 1, done, [] => (done, [])
  | steps + 1, done, id :: queue =>
    flow.scan merge steps (done ++ [id])
      (queue ++ flow.newcomers merge (done ++ id :: queue) id)

/-- The nodes of a body whose edges have been followed. -/
def followed (flow : Flow) (limits : Limits) (head merge : NodeId) : List NodeId :=
  (flow.scan merge limits.scanSteps [] [head]).1

/-- The nodes of a body that are left waiting when the steps have run out. -/
def waiting (flow : Flow) (limits : Limits) (head merge : NodeId) : List NodeId :=
  (flow.scan merge limits.scanSteps [] [head]).2

variable {flow : Flow} {head merge id child : NodeId} {steps : Nat} {done queue : List NodeId}
  {limits : Limits}

theorem spread_eq : flow.spread merge steps done queue =
    (flow.scan merge steps done queue).1 ++ (flow.scan merge steps done queue).2 := by
  fun_induction scan flow merge steps done queue with
  | case1 => rfl
  | case2 => exact (List.append_nil _).symm
  | case3 steps done id queue ih => rwa [spread]

/-- A body is what has been followed, and what is left waiting. -/
theorem body_eq (apart : head ≠ merge) : flow.body limits head merge =
    flow.followed limits head merge ++ flow.waiting limits head merge := by
  rw [body, if_neg apart, spread_eq]
  rfl

/-- A walk around a node does not come to it, unless it starts there. -/
theorem Around.ne (around : flow.Around merge head id) (apart : head ≠ merge) : id ≠ merge := by
  rcases around.cases_tail with rfl | ⟨_, -, -, off⟩
  · exact apart
  · exact off

private theorem eraseDups_sublist : (list : List NodeId) → list.eraseDups.Sublist list
  | [] => by simp
  | id :: rest => by
    rw [List.eraseDups_cons]
    exact ((eraseDups_sublist _).trans List.filter_sublist).cons_cons id
termination_by list => list.length
decreasing_by exact Nat.lt_succ_of_le (List.length_filter_le _ _)

private theorem nodup_eraseDups : (list : List NodeId) → list.eraseDups.Nodup
  | [] => by simp
  | id :: rest => by
    rw [List.eraseDups_cons, List.nodup_cons]
    exact ⟨by simp [List.mem_eraseDups], nodup_eraseDups _⟩
termination_by list => list.length
decreasing_by exact Nat.lt_succ_of_le (List.length_filter_le _ _)

theorem mem_newcomers {reached : List NodeId} : child ∈ flow.newcomers merge reached id ↔
    flow.Leads id child ∧ child ≠ merge ∧ child ∉ reached := by
  simp [newcomers, List.mem_eraseDups, leads_iff_mem_children]

theorem nodup_newcomers (flow : Flow) (merge : NodeId) (reached : List NodeId) (id : NodeId) :
    (flow.newcomers merge reached id).Nodup :=
  nodup_eraseDups _

theorem length_newcomers_le (flow : Flow) (merge : NodeId) (reached : List NodeId) (id : NodeId) :
    (flow.newcomers merge reached id).length ≤ (flow.children id).length :=
  ((eraseDups_sublist _).trans List.filter_sublist).length_le

/-! ### What holds while a body is collected -/

/-- What holds of the nodes that have been followed and of those that wait, while a body is
collected. -/
structure Scanned (flow : Flow) (head merge : NodeId) (done queue : List NodeId) : Prop where
  distinct : (done ++ queue).Nodup
  around : ∀ id ∈ done ++ queue, flow.Around merge head id
  begins : head ∈ done ++ queue
  sprung : ∀ id ∈ done ++ queue, id = head ∨ ∃ parent ∈ done, flow.Leads parent id
  shut : ∀ id ∈ done, ∀ child, flow.Leads id child → child ≠ merge → child ∈ done ++ queue

namespace Scanned

/-- At the start nothing was followed, and the head waits. -/
theorem start (flow : Flow) (head merge : NodeId) : flow.Scanned head merge [] [head] where
  distinct := List.nodup_singleton head
  around _ member := List.mem_singleton.mp member ▸ .refl
  begins := List.mem_singleton.mpr rfl
  sprung _ member := .inl (List.mem_singleton.mp member)
  shut _ member := absurd member List.not_mem_nil

/-- The first in the queue is followed: it is done then, and its newcomers wait. -/
theorem step (scanned : flow.Scanned head merge done (id :: queue)) :
    flow.Scanned head merge (done ++ [id])
      (queue ++ flow.newcomers merge (done ++ id :: queue) id) := by
  have regroup : done ++ [id] ++ (queue ++ flow.newcomers merge (done ++ id :: queue) id) =
      done ++ id :: queue ++ flow.newcomers merge (done ++ id :: queue) id := by
    simp
  have here : flow.Around merge head id := scanned.around id (by simp)
  refine ⟨?_, ?_, ?_, ?_, ?_⟩
  all_goals rw [regroup]
  · apply scanned.distinct.append (nodup_newcomers _ _ _ _)
    exact fun other known new => (mem_newcomers.mp new).2.2 known
  · intro other member
    rcases List.mem_append.mp member with known | new
    · exact scanned.around other known
    · obtain ⟨leads, apart, -⟩ := mem_newcomers.mp new
      exact here.tail ⟨leads, apart⟩
  · exact List.mem_append_left _ scanned.begins
  · intro other member
    rcases List.mem_append.mp member with known | new
    · exact (scanned.sprung other known).imp_right fun ⟨parent, inside, leads⟩ =>
        ⟨parent, List.mem_append_left _ inside, leads⟩
    · exact .inr ⟨id, by simp, (mem_newcomers.mp new).1⟩
  · intro other member child leads apart
    rcases List.mem_append.mp member with before | last
    · exact List.mem_append_left _ (scanned.shut other before child leads apart)
    · obtain rfl := List.mem_singleton.mp last
      by_cases known : child ∈ done ++ other :: queue
      · exact List.mem_append_left _ known
      · exact List.mem_append_right _ (mem_newcomers.mpr ⟨leads, apart, known⟩)

/-- It holds until the end, whether the steps run out or not. -/
theorem scan (scanned : flow.Scanned head merge done queue) (steps : Nat) :
    flow.Scanned head merge (flow.scan merge steps done queue).1
      (flow.scan merge steps done queue).2 := by
  fun_induction Flow.scan flow merge steps done queue with
  | case1 => exact scanned
  | case2 => exact scanned
  | case3 steps done id queue ih => exact ih scanned.step

/-- Where no node waits, each node that can be reached around the merge was followed. -/
theorem mem_of_around (scanned : flow.Scanned head merge done [])
    (around : flow.Around merge head id) : id ∈ done := by
  have known : ∀ {id}, id ∈ done ++ [] → id ∈ done := fun member => List.append_nil done ▸ member
  induction around with
  | refl => exact known scanned.begins
  | tail _ leads ih => exact known (scanned.shut _ ih _ leads.1 leads.2)

end Scanned

/-- The followed and the waiting nodes of a body. -/
theorem scanned_body (flow : Flow) (limits : Limits) (head merge : NodeId) :
    flow.Scanned head merge (flow.followed limits head merge) (flow.waiting limits head merge) :=
  (Scanned.start flow head merge).scan limits.scanSteps

/-! ### How far the steps reach -/

theorem subset_scan : done ⊆ (flow.scan merge steps done queue).1 := by
  fun_induction scan flow merge steps done queue with
  | case1 => exact List.Subset.refl _
  | case2 => exact List.Subset.refl _
  | case3 steps done id queue ih => exact fun other known => ih (List.mem_append_left _ known)

/-- A step follows one node, so where nodes are left waiting as many were followed as there were
steps. -/
theorem length_scan (left : (flow.scan merge steps done queue).2 ≠ []) :
    (flow.scan merge steps done queue).1.length = done.length + steps := by
  fun_induction scan flow merge steps done queue with
  | case1 => rfl
  | case2 => exact absurd rfl left
  | case3 steps done id queue ih =>
    rw [ih left, List.length_append, List.length_singleton]
    omega

/-- With steps for all edges beyond what was followed, no node is left waiting. -/
theorem Scanned.scan_snd_eq_nil (scanned : flow.Scanned head merge done queue)
    (enough : queue.length + flow.edgesBeyond done ≤ steps) :
    (flow.scan merge steps done queue).2 = [] := by
  fun_induction Flow.scan flow merge steps done queue with
  | case1 done queue =>
    have empty : queue.length = 0 := by omega
    exact List.eq_nil_of_length_eq_zero empty
  | case2 => rfl
  | case3 steps done next queue ih =>
    have unfollowed : next ∉ done := fun known =>
      List.disjoint_of_nodup_append scanned.distinct known List.mem_cons_self
    have same : flow.edgesBeyond (done ++ [next]) = flow.edgesBeyond (next :: done) := by
      simp [edgesBeyond, or_comm]
    have split := flow.edgesBeyond_eq unfollowed
    have few := flow.length_newcomers_le merge (done ++ next :: queue) next
    refine ih scanned.step ?_
    rw [List.length_cons] at enough
    rw [List.length_append]
    omega

/-- With a step to take, the head is followed. -/
theorem head_mem_followed (admits : 0 < limits.scanLimit) :
    head ∈ flow.followed limits head merge := by
  obtain ⟨steps, more⟩ : ∃ steps, limits.scanSteps = steps + 1 :=
    Nat.exists_eq_succ_of_ne_zero (by rw [Limits.scanSteps]; omega)
  rw [followed, more, scan]
  exact subset_scan (List.mem_singleton.mpr rfl)

/-- Nodes are left waiting only when all steps were taken. -/
theorem length_followed (left : flow.waiting limits head merge ≠ []) :
    (flow.followed limits head merge).length = limits.scanSteps :=
  (length_scan left).trans (Nat.zero_add _)

/-! ### Bodies -/

/-- A body is its head, and all that a followed node leads to except the merge. -/
theorem mem_body_iff (apart : head ≠ merge) : id ∈ flow.body limits head merge ↔
    id = head ∨ id ≠ merge ∧ ∃ parent ∈ flow.followed limits head merge, flow.Leads parent id := by
  have scanned := flow.scanned_body limits head merge
  rw [body_eq apart]
  constructor
  · intro member
    exact (scanned.sprung id member).imp_right fun sprung =>
      ⟨(scanned.around id member).ne apart, sprung⟩
  · rintro (rfl | ⟨off, parent, inside, leads⟩)
    · exact scanned.begins
    · exact scanned.shut parent inside id leads off

/-- Where no node is left waiting, a body is what walks from its head reach around the merge. -/
theorem mem_body_iff_of_waiting (apart : head ≠ merge)
    (clear : flow.waiting limits head merge = []) :
    id ∈ flow.body limits head merge ↔ flow.Around merge head id := by
  have scanned := flow.scanned_body limits head merge
  rw [body_eq apart]
  refine ⟨scanned.around id, fun around => ?_⟩
  rw [clear] at scanned
  exact List.mem_append_left _ (scanned.mem_of_around around)

/-- With more steps than edges, the body between a head and another node is what walks
from the head reach around that node. -/
theorem mem_body_iff_around (apart : head ≠ merge)
    (enough : (flow.edges.length : Int) < limits.scanLimit) :
    id ∈ flow.body limits head merge ↔ flow.Around merge head id := by
  refine mem_body_iff_of_waiting apart ((Scanned.start flow head merge).scan_snd_eq_nil ?_)
  have bound := flow.edgesBeyond_le []
  rw [Limits.scanSteps, List.length_singleton]
  omega

/-- Where the nodes that a head leads to lead to the merge only, one step collects the body. -/
theorem mem_body_iff_of_shallow (apart : head ≠ merge) (admits : 0 < limits.scanLimit)
    (shallow : ∀ {id child}, flow.Leads head id → id ≠ merge → flow.Leads id child →
      child = merge) :
    id ∈ flow.body limits head merge ↔ id = head ∨ id ≠ merge ∧ flow.Leads head id := by
  constructor
  · intro member
    rw [body_eq apart] at member
    have around := (flow.scanned_body limits head merge).around id member
    clear member
    induction around with
    | refl => exact .inl rfl
    | @tail id child _ leads ih =>
      rcases ih with rfl | ⟨off, first⟩
      · exact .inr ⟨leads.2, leads.1⟩
      · exact absurd (shallow first off leads.1) leads.2
  · rintro (rfl | ⟨off, leads⟩)
    · exact head_mem_body
    · exact (mem_body_iff apart).mpr (.inr ⟨off, head, head_mem_followed admits, leads⟩)

end Flow

end Workflow
