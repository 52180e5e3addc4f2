import Workflow.Edit.Placeholder
import Workflow.Proofs.Walk.Chart

/-!
# The search in any order of the edges

Which merges close a start does not depend on the order of the edges, but which of them the
search finds may. If the depth at a node does not depend on the walk, the search finds one of
them whenever there is one. So if there is only one, the order does not matter at all.

## Main results

* `closes_reorder` — the edges in another order close the same starts
* `Steady.searchMerge?_reorder` — what the search finds, in any order of the edges
-/

namespace Workflow

namespace Flow

variable {flow : Flow} {start merge id child : NodeId} {above : Int} {edges : List Edge}
  {limits : Limits}

section Reorder

variable (same : edges.Perm flow.edges)
include same

theorem leads_reorder : ({ flow with edges } : Flow).Leads id child ↔ flow.Leads id child :=
  exists_congr fun _ => and_congr_left fun _ => same.mem_iff

/-- Roles of nodes do not depend on the edges, so walks are the same in another order. -/
theorem arrives_reorder :
    ({ flow with edges } : Flow).Arrives start id above ↔ flow.Arrives start id above := by
  constructor
  · intro h
    induction h with
    | start => exact .start
    | next before isOpen leads ih => exact ih.next isOpen ((leads_reorder same).mp leads)
  · intro h
    induction h with
    | start => exact .start
    | @next id child above before isOpen leads ih =>
      exact @Arrives.next { flow with edges } start id child above ih isOpen
        ((leads_reorder same).mpr leads)

theorem closes_reorder : ({ flow with edges } : Flow).Closes start merge ↔ flow.Closes start merge :=
  exists_congr fun _ => and_congr_left fun _ => arrives_reorder same

theorem Steady.reorder (steady : flow.Steady start) : ({ flow with edges } : Flow).Steady start :=
  fun arrives isOpen arrivesToo isOpenToo =>
    steady ((arrives_reorder same).mp arrives) isOpen ((arrives_reorder same).mp arrivesToo) isOpenToo

end Reorder

/-- If the depth at a node does not depend on the walk, the search finds nothing exactly when
nothing closes the start, and else a merge that closes it. If only one merge closes the start,
the search finds it in every order of the edges. -/
theorem Steady.searchMerge?_reorder (steady : flow.Steady start)
    (enough : (flow.edges.length : Int) < limits.maxIterations) :
    (flow.searchMerge? limits start = none ↔ ∀ merge, ¬ flow.Closes start merge) ∧
    (∀ merge, flow.searchMerge? limits start = some merge → flow.Closes start merge) ∧
    ∀ merge, (∀ other, flow.Closes start other ↔ other = merge) → ∀ edges, edges.Perm flow.edges →
      ({ flow with edges } : Flow).searchMerge? limits start = some merge := by
  have sound : ∀ merge, flow.searchMerge? limits start = some merge → flow.Closes start merge :=
    fun merge found => closes_of_searchMerge? found
  have room : flow.edges.length < limits.searchSteps := by
    rw [Limits.searchSteps]
    omega
  refine ⟨⟨fun nothing merge closes => ?_, fun unclosed => ?_⟩, sound, ?_⟩
  · obtain ⟨found, hfound⟩ := exists_descend_of_closes steady room closes
    rw [searchMerge?, hfound] at nothing
    cases nothing
  · exact Option.eq_none_iff_forall_ne_some.mpr fun merge found => unclosed merge (sound merge found)
  · intro merge only edges same
    refine searchMerge?_eq_some_of_closes (steady.reorder same) (fun other => ?_) ?_
    · rw [closes_reorder same, only]
    · rw [same.length_eq]
      exact enough

/-- A parallel step with a cycle and a condition on one branch. One way out of the condition
leads nowhere. -/
def eddy : Flow where
  nodes := [{ id := "outer", kind := some "parallel" }, { id := "a" }, { id := "b" },
    { id := "inner", kind := some "condition" }, .mergePlaceholder "close", .mergePlaceholder "join"]
  edges := [.connect "outer" "a" (some "A"), .connect "a" "b" none, .connect "b" "a" none,
    .connect "b" "inner" none, .connect "inner" "close" (some "true"),
    .connect "inner" "gone" (some "false"), .connect "close" "join" none,
    .connect "outer" "join" (some "B")]

/-- The depths in the flow with the cycle. -/
def eddyTable : List (NodeId × Int) :=
  [("outer", 0), ("a", 1), ("b", 1), ("inner", 1), ("close", 2), ("gone", 2), ("join", 1)]

/-- With a cycle, a nested block and an edge to nowhere, the search finds the one merge that
closes the outer head, also with the edges in reverse. -/
theorem Steady.searchMerge?_reorder_eddy : eddy.Steady "outer" ∧
    (∀ merge, eddy.Closes "outer" merge ↔ merge = "join") ∧
    (eddy.searchMerge? { maxIterations := 9 } "outer" = none ↔
      ∀ merge, ¬ eddy.Closes "outer" merge) ∧
    ({ eddy with edges := eddy.edges.reverse } : Flow).searchMerge? { maxIterations := 9 } "outer" =
      some "join" := by
  have charts : eddy.Charts "outer" fun id above => (id, above) ∈ eddyTable :=
    charts_of_table (by decide +kernel) (by decide +kernel) (by decide +kernel)
  have opens : ∀ entry ∈ eddyTable, entry.1 ≠ "join" → eddy.OpenAt entry.1 entry.2 := by
    decide +kernel
  have ends : ∀ entry ∈ eddyTable, entry.1 = "join" → eddy.ClosesAt entry.1 entry.2 := by
    decide +kernel
  have leads : eddy.Leads "outer" "join" := leads_iff_mem_children.mpr (by decide +kernel)
  have only := charts.closes_iff (fun here apart => opens _ here apart)
    (fun here => ends _ here rfl) (.single leads)
  have enough : (eddy.edges.length : Int) < ({ maxIterations := 9 } : Limits).maxIterations := by
    decide +kernel
  obtain ⟨nothing, -, ordered⟩ := Steady.searchMerge?_reorder charts.steady enough
  exact ⟨charts.steady, only, nothing, ordered "join" only _ (List.reverse_perm _)⟩

end Flow

end Workflow
