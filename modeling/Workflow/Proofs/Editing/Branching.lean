import Workflow.Edit.Branches
import Workflow.Proofs.Editing.Bridging

/-!
# Setting branches

The edges of a flow in which the branches of a head were made to fit a list of names: those that
start no branch, those of the branches that have a name, and those of new branches, unless they
are at a slot that was cut off.

## Main definitions

* `Flow.LeadsOn` — an edge leads on that starts none of the branches cut off
* `Flow.Drops` — a branch that is cut off starts at a node

## Main results

* `leads_withBranches` — where edges lead after branches were set
-/

namespace Workflow

namespace Flow

variable {flow : Flow} {head merge id child : NodeId} {names : List String} {slots : List NodeId}
  {edges : List Edge} {edge : Edge}

/-- An edge that starts no branch of the head, or one of its first branches, leads from one node to
another. -/
def LeadsOn (flow : Flow) (head : NodeId) (kept : Nat) (id child : NodeId) : Prop :=
  (∃ edge ∈ flow.edges, startsBranch head edge = false ∧ edge.source = id ∧ edge.target = child) ∨
    ∃ edge ∈ (flow.branchEdges head).take kept, edge.source = id ∧ edge.target = child

/-- A branch for which no name is left starts at a node. -/
def Drops (flow : Flow) (head : NodeId) (kept : Nat) (id : NodeId) : Prop :=
  ∃ edge ∈ (flow.branchEdges head).drop kept, edge.target = id

theorem source_of_mem_branchEdges (member : edge ∈ flow.branchEdges head) :
    edge ∈ flow.edges ∧ edge.source = head := by
  obtain ⟨known, starts⟩ := List.mem_filter.mp member
  rw [startsBranch, decide_eq_true_iff] at starts
  exact ⟨known, starts.1⟩

theorem LeadsOn.leads {kept : Nat} (h : flow.LeadsOn head kept id child) : flow.Leads id child := by
  rcases h with ⟨edge, known, -, ends⟩ | ⟨edge, first, ends⟩
  · exact ⟨edge, known, ends⟩
  · exact ⟨edge, (source_of_mem_branchEdges (List.mem_of_mem_take first)).1, ends⟩

theorem Drops.leads {kept : Nat} (h : flow.Drops head kept id) : flow.Leads head id := by
  obtain ⟨edge, beyond, target⟩ := h
  obtain ⟨known, source⟩ := source_of_mem_branchEdges (List.mem_of_mem_drop beyond)
  exact ⟨edge, known, source, target⟩

/-- Only edges that start at the head are dropped. -/
theorem leadsOn_of_ne {kept : Nat} (leads : flow.Leads id child) (apart : id ≠ head) :
    flow.LeadsOn head kept id child := by
  obtain ⟨edge, known, source, target⟩ := leads
  refine .inl ⟨edge, known, ?_, source, target⟩
  rw [startsBranch, source]
  simp [apart]

/-- An edge out of the head stays or starts a branch that is dropped. -/
theorem leadsOn_or_drops (kept : Nat) (leads : flow.Leads head child) :
    flow.LeadsOn head kept head child ∨ flow.Drops head kept child := by
  obtain ⟨edge, known, source, target⟩ := leads
  cases starts : startsBranch head edge with
  | false => exact .inl (.inl ⟨edge, known, starts, source, target⟩)
  | true =>
    have branch : edge ∈ flow.branchEdges head := List.mem_filter.mpr ⟨known, starts⟩
    rw [← List.take_append_drop kept (flow.branchEdges head), List.mem_append] at branch
    rcases branch with first | beyond
    · exact .inl (.inr ⟨edge, first, source, target⟩)
    · exact .inr ⟨edge, beyond, target⟩

theorem drops_of_mem_surplusSlots (h : id ∈ flow.surplusSlots head names) :
    flow.Drops head names.length id := by
  obtain ⟨edge, beyond, slot⟩ := List.mem_filterMap.mp h
  obtain ⟨node, found, rfl⟩ := Option.map_eq_some_iff.mp slot
  exact ⟨edge, beyond, (id_of_node?_eq_some (Option.filter_eq_some_iff.mp found).1).symm⟩

/-- Naming the branches keeps the ends of the edges that are not dropped. -/
theorem exists_mem_renameBranches (ends : Edge → Prop)
    (unnamed : ∀ edge branch, ends { edge with branch } ↔ ends edge) :
    (∃ edge ∈ renameBranches head names edges, ends edge) ↔
      (∃ edge ∈ edges, startsBranch head edge = false ∧ ends edge) ∨
        ∃ edge ∈ (edges.filter (startsBranch head)).take names.length, ends edge := by
  fun_induction renameBranches head names edges with
  | case1 => simp
  | case2 edge rest starts ih => simpa [starts] using ih
  | case3 edge rest starts name names ih =>
    rw [List.exists_mem_cons_iff, ih, unnamed]
    simp [starts, or_left_comm]
  | case4 names edge rest starts ih =>
    rw [List.exists_mem_cons_iff, ih]
    simp [starts, or_assoc]

/-- The edges for which no name is left go, and all others stay, whatever is counted of them but
their names. -/
theorem countP_renameBranches (counts : Edge → Bool)
    (unnamed : ∀ edge branch, counts { edge with branch } = counts edge) :
    (renameBranches head names edges).countP counts +
      ((edges.filter (startsBranch head)).drop names.length).countP counts =
        edges.countP counts := by
  fun_induction renameBranches head names edges with
  | case1 => simp
  | case2 edge rest starts ih =>
    simp only [starts, List.filter_cons_of_pos, List.length_nil, List.drop_zero,
      List.countP_cons] at ih ⊢
    omega
  | case3 edge rest starts name names ih =>
    simp only [starts, List.filter_cons_of_pos, List.length_cons, List.drop_succ_cons,
      List.countP_cons, unnamed]
    omega
  | case4 names edge rest starts ih =>
    simp only [starts, Bool.false_eq_true, not_false_eq_true, List.filter_cons_of_neg,
      List.countP_cons]
    omega

/-- Where one edge at most leads, the edge of a branch that is dropped is the only one. -/
theorem Drops.not_leadsOn {kept : List String} (drops : flow.Drops head kept.length child)
    (single : (flow.edgesTo child).length ≤ 1) : ¬ flow.LeadsOn head kept.length id child := by
  intro on
  have total := @countP_renameBranches head kept flow.edges (fun edge => edge.target = child)
    fun _ _ => rfl
  have stays : 0 < (renameBranches head kept flow.edges).countP (·.target = child) := by
    rw [List.countP_pos_iff]
    obtain ⟨edge, member, ends⟩ := (exists_mem_renameBranches
      (fun edge => edge.source = id ∧ edge.target = child) fun _ _ => Iff.rfl).mpr on
    exact ⟨edge, member, decide_eq_true ends.2⟩
  have goes : 0 < ((flow.branchEdges head).drop kept.length).countP (·.target = child) := by
    rw [List.countP_pos_iff]
    obtain ⟨edge, beyond, target⟩ := drops
    exact ⟨edge, beyond, decide_eq_true target⟩
  rw [edgesTo, ← List.countP_eq_length_filter] at single
  rw [branchEdges] at goes
  omega

/-- The head leads to each new slot, and each new slot to the merge. -/
theorem connects_newBranches : (newBranches head merge names slots).Connects id child ↔
    ∃ slot ∈ (newBranches head merge names slots).nodes.map (·.id),
      id = head ∧ child = slot ∨ id = slot ∧ child = merge := by
  simp only [Patch.Connects, newBranches, List.mem_flatMap, List.map_map, List.mem_map]
  constructor
  · rintro ⟨_, ⟨arm, member, two⟩, rfl, rfl⟩
    refine ⟨_, ⟨arm, member, rfl⟩, ?_⟩
    rcases List.mem_cons.mp two with rfl | two
    · exact .inl ⟨rfl, rfl⟩
    · obtain rfl := List.mem_singleton.mp two
      exact .inr ⟨rfl, rfl⟩
  · rintro ⟨_, ⟨arm, member, rfl⟩, ⟨rfl, rfl⟩ | ⟨rfl, rfl⟩⟩
    · exact ⟨_, ⟨arm, member, List.mem_cons_self⟩, rfl, rfl⟩
    · exact ⟨_, ⟨arm, member, List.mem_cons_of_mem _ List.mem_cons_self⟩, rfl, rfl⟩

/-- After branches were set, edges lead where they led before or along new branches, unless they
are at a slot that was cut off. -/
theorem leads_withBranches {head : Node} :
    (flow.withBranches head merge names slots).flow.Leads id child ↔
      (flow.LeadsOn head.id names.length id child ∨
        ∃ slot ∈ (flow.withBranches head merge names slots).added,
          id = head.id ∧ child = slot ∨ id = slot ∧ child = merge) ∧
      id ∉ flow.surplusSlots head.id names ∧ child ∉ flow.surplusSlots head.id names := by
  rw [withBranches]
  dsimp only
  rw [leads_settle, Leads, edges_withNode, ← Leads, leads_without, leads_append,
    ← connects_newBranches, Patch.Connects, Leads,
    exists_mem_renameBranches (fun edge => edge.source = id ∧ edge.target = child)
      fun edge branch => Iff.rfl]
  rfl

/-- With a name for each branch, no slot is cut off. -/
theorem surplusSlots_eq_nil (enough : (flow.branchEdges head).length ≤ names.length) :
    flow.surplusSlots head names = [] := by
  rw [surplusSlots, List.drop_eq_nil_of_le enough, List.filterMap_nil]

/-- With a branch for each name, none is new. -/
theorem added_withBranches_eq_nil {head : Node}
    (enough : names.length ≤ (flow.branchEdges head.id).length) :
    (flow.withBranches head merge names slots).added = [] := by
  rw [withBranches, List.drop_eq_nil_of_le enough]
  rfl

/-- With more names than branches, a branch is new. -/
theorem exists_added_withBranches {head : Node}
    (more : (flow.branchEdges head.id).length < names.length)
    (full : slots.length = names.length - (flow.branchEdges head.id).length) :
    ∃ slot, slot ∈ (flow.withBranches head merge names slots).added := by
  apply List.exists_mem_of_length_pos
  rw [withBranches]
  simp only [newBranches, List.length_map, List.length_zip, List.length_drop]
  omega

end Flow

end Workflow
