import Mathlib.Data.List.Nodup
import Workflow.Proofs.Walk.Search

/-!
# Charts of walks

A chart tells the depth at which each node stands on the way down from a start, the same for
every open walk. If walks stay open on it but at one node, which is closed there and can be
reached, that node alone closes the start.

## Main definitions

* `Flow.Charts` — a relation between nodes and depths that open walks from a start keep to

## Main results

* `Charts.steady` — the depth at a node on a chart does not depend on the walk
* `Charts.closes_iff` — the one end of a chart closes the start, and no other node does
* `charts_of_table` — a chart from a list of nodes and depths
-/

namespace Workflow

namespace Flow

/-- Nodes stand at depths that open walks from `start` keep to, each node at one depth. -/
structure Charts (flow : Flow) (start : NodeId) (stands : NodeId → Int → Prop) : Prop where
  begins : stands start 0
  unique : ∀ {id above other}, stands id above → stands id other → above = other
  onward : ∀ {id child above}, stands id above → flow.OpenAt id above → flow.Leads id child →
    stands child (above + flow.rise id)

instance (flow : Flow) (id : NodeId) (above : Int) : Decidable (flow.ClosesAt id above) :=
  inferInstanceAs (Decidable (_ ∧ _))

instance (flow : Flow) (id : NodeId) (above : Int) : Decidable (flow.OpenAt id above) :=
  inferInstanceAs (Decidable (_ ∧ _))

variable {flow : Flow} {start finish id : NodeId} {above : Int} {stands : NodeId → Int → Prop}

theorem Charts.stands_of_arrives (charts : flow.Charts start stands)
    (h : flow.Arrives start id above) : stands id above := by
  induction h with
  | start => exact charts.begins
  | next before isOpen leads ih => exact charts.onward ih isOpen leads

/-- On a chart the depth at a node does not depend on the walk. -/
theorem Charts.steady (charts : flow.Charts start stands) : flow.Steady start :=
  fun arrives _ arrivesToo _ =>
    charts.unique (charts.stands_of_arrives arrives) (charts.stands_of_arrives arrivesToo)

/-- On a chart where walks stay open but at one end, along edges that lead to the end a walk
arrives there. -/
theorem Charts.exists_arrives (charts : flow.Charts start stands)
    (opens : ∀ {id above}, stands id above → id ≠ finish → flow.OpenAt id above)
    (reaches : Relation.ReflTransGen flow.Leads start finish) :
    ∃ above, flow.Arrives start finish above := by
  -- Along the edges the walk goes on, unless it has come to the end before.
  have along : ∀ {id}, Relation.ReflTransGen flow.Leads start id →
      (∃ above, flow.Arrives start finish above) ∨ ∃ above, flow.Arrives start id above := by
    intro id path
    induction path with
    | refl => exact .inr ⟨0, .start⟩
    | @tail id child _ leads ih =>
      rcases ih with done | ⟨above, arrives⟩
      · exact .inl done
      · by_cases final : id = finish
        · subst final
          exact .inl ⟨above, arrives⟩
        · have isOpen := opens (charts.stands_of_arrives arrives) final
          exact .inr ⟨_, arrives.next isOpen leads⟩
  exact (along reaches).elim (fun done => done) fun done => done

/-- The one end of a chart closes the start if it can be reached, and no other node does. -/
theorem Charts.closes_iff (charts : flow.Charts start stands)
    (opens : ∀ {id above}, stands id above → id ≠ finish → flow.OpenAt id above)
    (ends : ∀ {above}, stands finish above → flow.ClosesAt finish above)
    (reaches : Relation.ReflTransGen flow.Leads start finish) (other : NodeId) :
    flow.Closes start other ↔ other = finish := by
  constructor
  · rintro ⟨above, arrives, closed⟩
    by_contra apart
    exact (opens (charts.stands_of_arrives arrives) apart).2 closed
  · rintro rfl
    obtain ⟨above, arrives⟩ := charts.exists_arrives opens reaches
    exact ⟨above, arrives, ends (charts.stands_of_arrives arrives)⟩

/-- A list of nodes with their depths is a chart if it goes on along the edges out of nodes
where a walk is open. -/
theorem charts_of_table {table : List (NodeId × Int)} (begins : (start, 0) ∈ table)
    (distinct : (table.map (·.1)).Nodup)
    (onward : ∀ entry ∈ table, flow.OpenAt entry.1 entry.2 → ∀ child ∈ flow.children entry.1,
      (child, entry.2 + flow.rise entry.1) ∈ table) :
    flow.Charts start fun id above => (id, above) ∈ table where
  begins := begins
  unique here there := congrArg Prod.snd (List.inj_on_of_nodup_map distinct here there rfl)
  onward here isOpen leads := onward _ here isOpen _ (leads_iff_mem_children.mp leads)

end Flow

end Workflow
