import Mathlib.Data.List.Basic
import Mathlib.Tactic.SplitIfs
import Workflow.Proofs.Walk.Basic

/-!
# The search for a closing merge

What the search finds closes the start. If the depth at a node does not depend on the
walk, and there are more steps than edges, the search finds a merge whenever one
closes the start.

The edges that leave a node not seen yet bound what is still to come: a step takes one
entry off the stack, and puts on it only children along edges that no longer count.

## Main results

* `descend_closes` — what the search finds closes the start
* `exists_descend_of_closes` — the search finds a merge if there is one
* `searchMerge?_eq_some_of_closes` — if only one merge closes the start, it is found
-/

namespace Workflow

namespace Flow

variable {flow : Flow} {start id merge : NodeId} {steps : Nat} {stack : List (NodeId × Int)}
  {seen : List NodeId} {limits : Limits}

/-- The number of edges that leave nodes outside a list. -/
def edgesBeyond (flow : Flow) (seen : List NodeId) : Nat :=
  (flow.edges.filter (·.source ∉ seen)).length

/-- The edges beyond a list split into those of one more node and those beyond it too. -/
theorem edgesBeyond_eq (h : id ∉ seen) :
    flow.edgesBeyond seen = (flow.children id).length + flow.edgesBeyond (id :: seen) := by
  rw [edgesBeyond, edgesBeyond, children, List.length_map, edgesFrom]
  induction flow.edges with
  | nil => rfl
  | cons edge edges ih =>
    simp only [List.filter_cons, List.mem_cons]
    -- An edge of the node counts on the left alone, and others alike on both sides.
    by_cases hid : edge.source = id
    · subst hid
      simp [h] at ih ⊢
      omega
    · by_cases hseen : edge.source ∈ seen
      · simpa [hid, hseen] using ih
      · simp [hid, hseen] at ih ⊢
        omega

theorem edgesBeyond_le (flow : Flow) (seen : List NodeId) :
    flow.edgesBeyond seen ≤ flow.edges.length :=
  List.length_filter_le _ _

/-- Past a node where a walk is open, walks come to its children too. -/
theorem Arrives.push {above : Int} (h : flow.Arrives start id above) (isOpen : flow.OpenAt id above)
    (others : ∀ entry ∈ stack, flow.Arrives start entry.1 entry.2) :
    ∀ entry ∈ (flow.children id).reverse.map (·, above + flow.rise id) ++ stack,
      flow.Arrives start entry.1 entry.2 := by
  intro entry member
  rcases List.mem_append.mp member with pushed | waiting
  · simp only [List.mem_map, List.mem_reverse] at pushed
    obtain ⟨child, isChild, rfl⟩ := pushed
    exact h.next isOpen (leads_iff_mem_children.mpr isChild)
  · exact others entry waiting

/-! ### What is found closes the start -/

/-- If walks come to all that is on the stack, what the search finds closes the start. -/
theorem descend_closes (arrives : ∀ entry ∈ stack, flow.Arrives start entry.1 entry.2)
    (h : flow.descend steps stack seen = some merge) : flow.Closes start merge := by
  induction steps generalizing stack seen with
  | zero => simp [descend] at h
  | succ steps ih =>
    cases stack with
    | nil => simp [descend] at h
    | cons entry stack =>
      obtain ⟨id, above⟩ := entry
      have here := arrives (id, above) List.mem_cons_self
      have others : ∀ entry ∈ stack, flow.Arrives start entry.1 entry.2 :=
        fun entry member => arrives entry (List.mem_cons_of_mem _ member)
      simp only [descend] at h
      split_ifs at h with closes skips
      · cases h
        exact ⟨above, here, closes⟩
      · -- The way is given up, or was followed before.
        exact ih others h
      · have isOpen : flow.OpenAt id above := ⟨by omega, closes⟩
        exact ih (here.push isOpen others) h

/-- What the search from a start finds closes the start. -/
theorem closes_of_searchMerge? (h : flow.searchMerge? limits start = some merge) :
    flow.Closes start merge :=
  descend_closes (by simp [Arrives.start]) h

/-- The search finds merges only. -/
theorem isMerge_of_searchMerge? (h : flow.searchMerge? limits start = some merge) :
    flow.isMerge merge = true := by
  obtain ⟨_, -, closed⟩ := closes_of_searchMerge? h
  exact closed.2

/-! ### A merge is found if there is one -/

/-- A search has dealt with a way into a node: it is not closed there, and it is given up
or the node's edges were followed at the depth in a list. -/
def Handled (flow : Flow) (done : List (NodeId × Int)) (id : NodeId) (above : Int) : Prop :=
  ¬ flow.ClosesAt id above ∧ (above + flow.rise id < 0 ∨ ∃ before, (id, before) ∈ done)

/-- A search that ends without an answer has dealt with all that was on its stack, and
with all children of the nodes whose edges it followed. -/
theorem handled_of_descend_eq_none (done : List (NodeId × Int))
    (arrives : ∀ entry ∈ stack, flow.Arrives start entry.1 entry.2)
    (enough : stack.length + flow.edgesBeyond (done.map (·.1)) ≤ steps)
    (h : flow.descend steps stack (done.map (·.1)) = none) :
    ∃ more, done ⊆ more ∧ (∀ entry ∈ stack, flow.Handled more entry.1 entry.2) ∧
      ∀ entry ∈ more, entry ∉ done →
        flow.Arrives start entry.1 entry.2 ∧ flow.OpenAt entry.1 entry.2 ∧
        ∀ child ∈ flow.children entry.1, flow.Handled more child (entry.2 + flow.rise entry.1) := by
  induction steps generalizing stack done with
  | zero =>
    obtain rfl : stack = [] := List.eq_nil_of_length_eq_zero (by omega)
    exact ⟨done, fun _ => id, by simp, fun entry member absent => absurd member absent⟩
  | succ steps ih =>
    cases stack with
    | nil => exact ⟨done, fun _ => id, by simp, fun entry member absent => absurd member absent⟩
    | cons entry stack =>
      obtain ⟨id, above⟩ := entry
      have here := arrives (id, above) List.mem_cons_self
      have others : ∀ entry ∈ stack, flow.Arrives start entry.1 entry.2 :=
        fun entry member => arrives entry (List.mem_cons_of_mem _ member)
      simp only [List.length_cons] at enough
      simp only [descend] at h
      split_ifs at h with closes skips
      · -- The way is given up, or was followed before.
        obtain ⟨more, hsub, handled, followed⟩ := ih done others (by omega) h
        refine ⟨more, hsub, fun entry member => ?_, followed⟩
        rcases List.mem_cons.mp member with rfl | member
        · refine ⟨closes, skips.imp_right fun known => ?_⟩
          obtain ⟨before, inDone, rfl⟩ := List.mem_map.mp known
          exact ⟨before.2, hsub inDone⟩
        · exact handled entry member
      · -- The edges of the node are followed now.
        have fresh : id ∉ done.map (·.1) := fun known => skips (.inr known)
        have isOpen : flow.OpenAt id above := ⟨by omega, closes⟩
        have split := flow.edgesBeyond_eq fresh
        obtain ⟨more, hsub, handled, followed⟩ := ih ((id, above) :: done)
          (here.push isOpen others)
          (by simp only [List.length_append, List.length_map, List.length_reverse,
                List.map_cons]; omega) h
        have children : ∀ child ∈ flow.children id,
            flow.Handled more child (above + flow.rise id) := fun child member =>
          handled (child, above + flow.rise id)
            (List.mem_append_left _ (List.mem_map_of_mem (List.mem_reverse.mpr member)))
        refine ⟨more, fun entry member => hsub (List.mem_cons_of_mem _ member),
          fun entry member => ?_, fun entry member absent => ?_⟩
        · rcases List.mem_cons.mp member with rfl | member
          · exact ⟨closes, .inr ⟨above, hsub List.mem_cons_self⟩⟩
          · exact handled entry (List.mem_append_right _ member)
        · by_cases same : entry = (id, above)
          · subst same
            exact ⟨here, isOpen, children⟩
          · exact followed entry member (by simp [same, absent])

/-- If the depth at a node does not depend on the walk, a search with more steps than edges
finds a merge whenever one closes the start. -/
theorem exists_descend_of_closes (steady : flow.Steady start) (enough : flow.edges.length < steps)
    (h : flow.Closes start merge) : ∃ found, flow.descend steps [(start, 0)] [] = some found := by
  by_contra hnone
  have ended : flow.descend steps [(start, 0)] [] = none :=
    Option.eq_none_iff_forall_ne_some.mpr fun found hfound => hnone ⟨found, hfound⟩
  have bound := flow.edgesBeyond_le []
  have begins : ∀ entry ∈ [(start, (0 : Int))], flow.Arrives start entry.1 entry.2 := by
    simp [Arrives.start]
  obtain ⟨done, -, first, followed⟩ := handled_of_descend_eq_none [] begins
    (by simp only [List.length_cons, List.length_nil, List.map_nil]; omega) ended
  -- Every way that a walk can take was dealt with, so the one to the merge was, too.
  have dealt : ∀ {id above}, flow.Arrives start id above → flow.Handled done id above := by
    intro id above arrives
    induction arrives with
    | start => exact first (start, 0) List.mem_cons_self
    | @next id child above before isOpen leads ih =>
      rcases ih.2 with low | ⟨other, member⟩
      · exact absurd isOpen.1 (by omega)
      · obtain ⟨arrives, otherOpen, children⟩ := followed (id, other) member (by simp)
        rw [steady before isOpen arrives otherOpen]
        exact children child (leads_iff_mem_children.mp leads)
  obtain ⟨above, arrives, closed⟩ := h
  exact (dealt arrives).1 closed

/-- If one merge only closes the start, and the depth at a node does not depend on the walk,
the search finds that merge. -/
theorem searchMerge?_eq_some_of_closes (steady : flow.Steady start)
    (only : ∀ other, flow.Closes start other ↔ other = merge)
    (enough : (flow.edges.length : Int) < limits.maxIterations) :
    flow.searchMerge? limits start = some merge := by
  have room : flow.edges.length < limits.searchSteps := by
    rw [Limits.searchSteps]
    omega
  obtain ⟨found, hfound⟩ := exists_descend_of_closes steady room ((only merge).mpr rfl)
  have search : flow.searchMerge? limits start = some found := hfound
  rw [search, (only found).mp (closes_of_searchMerge? search)]

end Flow

end Workflow
