import Mathlib.Data.List.Perm.Lattice
import Workflow.Proofs.Editing.Succession
import Workflow.Proofs.Walk.Interior
import Workflow.Report.Basic
import Workflow.Service.Answer

/-!
# What reports and answers say of a block

A block is described in a report and in the answers of the service. Both name the same merge. The
report counts what was collected, and the answer lists the nodes among it. An edge is followed
wherever it leads, so an identity that no node has is counted, and not listed. The two agree on the
size of a block if and only if no edge from a node that was followed leads to such an identity.

## Main definitions

* `Flow.listed` — the nodes of a block that the service lists
* `Flow.strays` — what is collected for a block and no node has
* `BlockReport.NamesAnswered` — the service names the merge that a report names
* `BlockReport.CountsListed` — a report counts the nodes that the service lists

## Main results

* `bodySize_report` — a report counts the nodes that are listed and the strays
* `reports_countsListed_iff` — which reports say of a block what the service says
-/

namespace Workflow

namespace Flow

/-- The nodes of a block that the service lists. It lists none of a block that nothing closes. -/
def listed (flow : Flow) (limits : Limits) (head : NodeId) : List NodeId :=
  (flow.merge? limits head).elim [] fun merge => flow.idsIn (flow.block limits head merge)

/-- The identities that are collected for a block and that no node has. -/
def strays (flow : Flow) (limits : Limits) (head merge : NodeId) : List NodeId :=
  (flow.body limits head merge).filter (· ∉ flow.ids)

end Flow

namespace BlockReport

/-- The service names the merge that a report names, when it is asked for the merge and when it is
asked for the block. -/
def NamesAnswered (report : BlockReport) (flow : Flow) (limits : Limits) : Prop :=
  ∀ supply, (Request.ask .merge flow report.head).answer limits supply =
      (.ok (.merge report.head report.merge), supply) ∧
    ∃ nodes, (Request.ask .block flow report.head).answer limits supply =
      (.ok (.block report.head report.merge nodes), supply)

/-- A report counts the nodes other than the merge that the service lists. Nothing is said of a
block that is open, or whose head is its own merge. -/
def CountsListed (report : BlockReport) (flow : Flow) (limits : Limits) : Prop :=
  ∃ nodes, (∀ supply, (Request.ask .block flow report.head).answer limits supply =
      (.ok (.block report.head report.merge nodes), supply)) ∧
    ∀ merge, report.merge = some merge → merge ≠ report.head →
      report.bodySize = nodes.countP (· ≠ merge)

end BlockReport

namespace Flow

variable {flow : Flow} {limits : Limits} {head merge id : NodeId} {node : Node}
  {asked : List NodeId} {report : BlockReport} {supply : Supply}

/-! ### What is collected and what is listed -/

/-- Nothing is collected twice. -/
theorem nodup_body (flow : Flow) (limits : Limits) (head merge : NodeId) :
    (flow.body limits head merge).Nodup := by
  by_cases apart : head = merge
  · subst apart
    rw [body_self]
    exact List.nodup_singleton head
  · rw [body_eq apart]
    exact (flow.scanned_body limits head merge).distinct

/-- Of what is listed for a block, all but the merge are the nodes of its body. -/
theorem filter_idsIn_block (apart : merge ≠ head) :
    (flow.idsIn (flow.block limits head merge)).filter (· ≠ merge) =
      flow.idsIn (flow.body limits head merge) := by
  rw [idsIn, idsIn, List.filter_filter]
  refine List.filter_congr fun id _ => ?_
  by_cases own : id = merge
  · subst own
    simp [merge_notMem_body apart]
  · simp [own, mem_block_iff_body]

/-- A body is what of it is in the flow, and its strays. -/
theorem length_body (distinct : flow.ids.Nodup) : (flow.body limits head merge).length =
    (flow.idsIn (flow.body limits head merge)).length + (flow.strays limits head merge).length := by
  have once := flow.nodup_body limits head merge
  -- The flow and the body order them differently, and neither has one twice.
  have present : (flow.idsIn (flow.body limits head merge)).Perm
      ((flow.body limits head merge).filter (· ∈ flow.ids)) := by
    refine (List.perm_ext_iff_of_nodup (distinct.filter _) (once.filter _)).mpr fun id => ?_
    simp [and_comm]
  rw [present.length_eq, strays, ← List.countP_eq_length_filter, ← List.countP_eq_length_filter,
    List.length_eq_countP_add_countP (· ∈ flow.ids)]
  simp

/-- A block has no strays if and only if no edge that is followed leads to one. -/
theorem strays_eq_nil_iff (apart : merge ≠ head) (there : head ∈ flow.ids) :
    flow.strays limits head merge = [] ↔
      ∀ edge ∈ flow.edges, edge.source ∈ flow.followed limits head merge →
        edge.target = merge ∨ edge.target ∈ flow.ids := by
  have clear : flow.strays limits head merge = [] ↔
      ∀ id ∈ flow.body limits head merge, id ∈ flow.ids := by
    simp [strays]
  rw [clear]
  constructor
  · intro known edge inside followed
    by_contra stray
    rw [not_or] at stray
    exact stray.2 (known _ ((mem_body_iff apart.symm).mpr
      (.inr ⟨stray.1, edge.source, followed, edge, inside, rfl, rfl⟩)))
  · intro leads id member
    rcases (mem_body_iff apart.symm).mp member with rfl | ⟨off, _, followed, edge, inside, rfl, rfl⟩
    · exact there
    · exact (leads edge inside followed).resolve_left off

/-! ### What the service answers -/

theorem answer_merge (there : flow.has head = true) :
    (Request.ask .merge flow head).answer limits supply =
      (.ok (.merge head (flow.merge? limits head)), supply) := by
  rw [Request.answer, if_pos there]
  rfl

theorem answer_block (there : flow.has head = true) :
    (Request.ask .block flow head).answer limits supply =
      (.ok (.block head (flow.merge? limits head) (flow.listed limits head)), supply) := by
  rw [Request.answer, if_pos there, answerQuery, extent?, listed]
  cases flow.merge? limits head <;> rfl

/-! ### What is reported -/

/-- Each report is one on a node of the flow. -/
theorem exists_of_mem_reports (reported : report ∈ flow.reports limits asked) :
    ∃ node ∈ flow.nodes, flow.report limits node = report := by
  rw [reports] at reported
  split at reported
  · obtain ⟨node, opens, made⟩ := List.mem_map.mp reported
    exact ⟨node, (List.mem_filter.mp opens).1, made⟩
  · obtain ⟨node, found, made⟩ := List.mem_map.mp reported
    obtain ⟨id, -, there⟩ := List.mem_filterMap.mp found
    exact ⟨node, mem_of_node?_eq_some there, made⟩

/-- A head is reported on when it is asked for, or when no node is. -/
theorem report_mem_reports (found : flow.node? node.id = some node) (opens : node.isHead = true)
    (about : asked = [] ∨ node.id ∈ asked) :
    flow.report limits node ∈ flow.reports limits asked := by
  rw [reports]
  split
  · exact List.mem_map_of_mem (List.mem_filter.mpr ⟨mem_of_node?_eq_some found, opens⟩)
  · rename_i some'
    exact List.mem_map_of_mem (List.mem_filterMap.mpr ⟨_, about.resolve_left some', found⟩)

/-- A report counts the nodes other than the merge that are listed, and the strays. -/
theorem bodySize_report (distinct : flow.ids.Nodup)
    (closes : flow.merge? limits node.id = some merge) (apart : merge ≠ node.id) :
    (flow.report limits node).bodySize =
      ((flow.listed limits node.id).countP (· ≠ merge) : Int) +
        (flow.strays limits node.id merge).length := by
  rw [report, closes, listed, closes, List.countP_eq_length_filter]
  dsimp only [Option.elim]
  rw [filter_idsIn_block apart, length_body distinct]
  rfl

/-- A head of a flow is reported on, and a report names the merge that the service names. It counts
the nodes that the service lists if and only if no edge that was followed to collect the block leads
to an identity that no node has. -/
theorem reports_countsListed_iff (distinct : flow.ids.Nodup) (known : node ∈ flow.nodes)
    (opens : node.isHead = true) (about : asked = [] ∨ node.id ∈ asked) :
    (∃ report ∈ flow.reports limits asked, report.head = node.id) ∧
    ∀ report ∈ flow.reports limits asked, report.head = node.id →
      report.NamesAnswered flow limits ∧
      (report.CountsListed flow limits ↔
        ∀ merge, report.merge = some merge → merge ≠ node.id →
          ∀ edge ∈ flow.edges, edge.source ∈ flow.followed limits node.id merge →
            edge.target = merge ∨ edge.target ∈ flow.ids) := by
  have found := node?_eq_some_of_mem distinct known
  have there : flow.has node.id = true := by rw [has, found, Option.isSome_some]
  refine ⟨⟨_, report_mem_reports found opens about, rfl⟩, fun report reported own => ?_⟩
  -- By their identity there is one node only to report on.
  obtain rfl : flow.report limits node = report := by
    obtain ⟨other, inside, rfl⟩ := exists_of_mem_reports reported
    have same : other = node := List.inj_on_of_nodup_map distinct inside known own
    rw [same]
  refine ⟨fun supply => ⟨answer_merge there, _, answer_block there⟩, ?_⟩
  have counts : (flow.report limits node).CountsListed flow limits ↔
      ∀ merge, flow.merge? limits node.id = some merge → merge ≠ node.id →
        (flow.report limits node).bodySize = (flow.listed limits node.id).countP (· ≠ merge) := by
    constructor
    · rintro ⟨nodes, answers, size⟩
      have same := (answer_block there).symm.trans (answers .numbered)
      cases same
      exact size
    · exact fun size => ⟨_, fun supply => answer_block there, size⟩
  rw [counts]
  refine forall_congr' fun merge => forall₂_congr fun closes apart => ?_
  rw [bodySize_report distinct closes apart,
    ← strays_eq_nil_iff apart (has_iff_mem_ids.mp there), ← List.length_eq_zero_iff]
  omega

/-- A condition with a branch that leads to its merge, and one that leads to a node that may be
missing. -/
def lopsided (nodes : List Node) : Flow where
  nodes := [{ id := "head", kind := some "condition" }, .mergePlaceholder "merge"] ++ nodes
  edges := [.connect "head" "merge" (some "true"), .connect "head" "gone" (some "false")]

/-- The report on the condition. -/
def lopsidedReport : BlockReport where
  head := "head"
  kind := some "condition"
  merge := some "merge"
  cached := false
  bodySize := 2

/-- The report is the same whether the node is there or is missing. It counts what the service lists
only if the node is there. -/
theorem reports_countsListed_iff_lopsided :
    (lopsidedReport ∈ (lopsided [{ id := "gone" }]).reports {} [] ∧
      lopsidedReport.CountsListed (lopsided [{ id := "gone" }]) {}) ∧
    lopsidedReport ∈ (lopsided []).reports {} [] ∧
      lopsidedReport.NamesAnswered (lopsided []) {} ∧
      ¬ lopsidedReport.CountsListed (lopsided []) {} := by
  have opens : ({ id := "head", kind := some "condition" } : Node).isHead = true := by
    decide +kernel
  have whole : lopsidedReport ∈ (lopsided [{ id := "gone" }]).reports {} [] := by decide +kernel
  have torn : lopsidedReport ∈ (lopsided []).reports {} [] := by decide +kernel
  refine ⟨⟨whole, ?_⟩, torn, ?_⟩
  · have distinct : (lopsided [{ id := "gone" }]).ids.Nodup := by decide
    have leads : ∀ edge ∈ (lopsided [{ id := "gone" }]).edges,
        edge.target ∈ (lopsided [{ id := "gone" }]).ids := by decide
    obtain ⟨-, each⟩ := reports_countsListed_iff distinct List.mem_cons_self opens (.inl rfl)
    exact (each _ whole rfl).2.mpr fun merge _ _ edge inside _ => .inr (leads edge inside)
  · have distinct : (lopsided []).ids.Nodup := by decide
    obtain ⟨-, each⟩ := reports_countsListed_iff distinct List.mem_cons_self opens (.inl rfl)
    obtain ⟨names, counts⟩ := each _ torn rfl
    refine ⟨names, fun listed => ?_⟩
    rcases counts.mp listed "merge" rfl (by decide) (.connect "head" "gone" (some "false"))
      (by decide) (by decide +kernel) with same | stray
    · exact absurd same (by decide)
    · exact absurd stray (by decide)

/-- The report counts two nodes, and the service lists the head and the merge. -/
theorem not_countsListed_lopsided : (lopsided []).ids.Nodup ∧ (lopsided []).isHead "head" = true ∧
    (lopsided []).reports {} [] = [lopsidedReport] ∧
    (Request.ask .block (lopsided []) "head").answer {} .numbered =
      (.ok (.block "head" (some "merge") ["head", "merge"]), .numbered) ∧
    ¬ lopsidedReport.CountsListed (lopsided []) {} := by
  have lists : (Request.ask .block (lopsided []) "head").answer {} .numbered =
      (.ok (.block "head" (some "merge") ["head", "merge"]), .numbered) := rfl
  refine ⟨by decide, by decide +kernel, by decide +kernel, lists, ?_⟩
  rintro ⟨nodes, answers, size⟩
  have same := lists.symm.trans (answers .numbered)
  cases same
  exact absurd (size "merge" rfl (by decide)) (by decide)

end Flow

end Workflow
