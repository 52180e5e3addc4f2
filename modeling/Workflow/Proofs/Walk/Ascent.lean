import Mathlib.Data.List.Infix
import Mathlib.Data.List.Perm.Subperm
import Workflow.Block.Starter
import Workflow.Proofs.Walk.Way

/-!
# The way up from a merge

From a merge the way up goes along first parents until no level is left open. The levels are counted
upwards, and a node that is head and merge at once counts as a merge only. If there is no such node
on the way up, the same way down closes its head at the merge, with the depth counted downwards.

## Main definitions

* `Flow.levelsOn` — the levels that the nodes of a way up add
* `Flow.Climbs` — a way up along first parents from a merge to the head that leaves no level open

## Main results

* `climb_eq_some_iff`, `starter?_eq_some_iff` — what is found above a merge is at the end of a way up
* `Climbs.closesAlong`, `ClosesAlong.climbs` — a way up is a way down that closes its head, reversed
* `closes_of_starter?` — the head that is found above a merge is closed there
-/

namespace Workflow

namespace Flow

/-- The levels that the nodes of a way up add to those still open. -/
def levelsOn (flow : Flow) : List NodeId → Int
  | [] => 0
  | id :: chain => flow.levels id + flow.levelsOn chain

/-- A way up along first parents, from a node below which some levels are open. It keeps off the
nodes that were seen, and ends at the first node that leaves no level open. -/
structure Ascends (flow : Flow) (id : NodeId) (seen : List NodeId) (below : Int)
    (chain : List NodeId) (opener : NodeId) : Prop where
  parents : (id :: chain).IsChain fun child parent => flow.firstParent? child = some parent
  distinct : chain.Nodup
  unseen : ∀ other ∈ chain, other ∉ seen
  ends : chain.getLast? = some opener
  kept : ∀ part, part <+: chain → part ≠ chain → 0 ≤ below + flow.levelsOn part
  opens : below + flow.levelsOn chain < 0

/-- A way up along first parents from a merge to the head whose block it closes. -/
def Climbs (flow : Flow) (merge : NodeId) (chain : List NodeId) (opener : NodeId) : Prop :=
  flow.Ascends merge [merge] 0 chain opener

variable {flow : Flow} {merge opener id parent start : NodeId} {seen chain before part : List NodeId}
  {below : Int} {steps : Nat} {limits : Limits}

/-! ### The levels of a way up -/

@[simp] theorem levelsOn_nil : flow.levelsOn [] = 0 := rfl

@[simp] theorem levelsOn_cons (flow : Flow) (id : NodeId) (chain : List NodeId) :
    flow.levelsOn (id :: chain) = flow.levels id + flow.levelsOn chain := rfl

@[simp] theorem levelsOn_append (flow : Flow) (chain more : List NodeId) :
    flow.levelsOn (chain ++ more) = flow.levelsOn chain + flow.levelsOn more := by
  induction chain with
  | nil => simp
  | cons id chain ih =>
    rw [List.cons_append, levelsOn_cons, levelsOn_cons, ih]
    omega

theorem neg_one_le_levels (flow : Flow) (id : NodeId) : -1 ≤ flow.levels id := by
  rw [levels]
  split
  · decide
  · split <;> decide

/-- Only a head that is no merge closes a level on the way up. -/
theorem isHead_of_levels_neg (h : flow.levels id < 0) :
    flow.isHead id = true ∧ flow.isMerge id = false := by
  cases joins : flow.isMerge id <;> cases heads : flow.isHead id <;>
    simp [levels, joins, heads] at h ⊢

/-- A node that is not head and merge at once counts on the way up as it does on the way down. -/
theorem rise_eq_neg_levels (single : ¬ (flow.isHead id = true ∧ flow.isMerge id = true)) :
    flow.rise id = -flow.levels id := by
  cases joins : flow.isMerge id <;> cases heads : flow.isHead id <;>
    simp [rise, levels, joins, heads] at single ⊢

theorem depth_reverse
    (single : ∀ id ∈ chain, ¬ (flow.isHead id = true ∧ flow.isMerge id = true)) :
    flow.depth chain.reverse = -flow.levelsOn chain := by
  induction chain with
  | nil => rfl
  | cons id chain ih =>
    rw [List.reverse_cons, depth_append, depth_singleton, levelsOn_cons,
      ih fun other inside => single other (List.mem_cons_of_mem _ inside),
      rise_eq_neg_levels (single id List.mem_cons_self)]
    omega

/-! ### What is found above a node -/

theorem Ascends.exists_cons (h : flow.Ascends id seen below chain opener) :
    ∃ parent rest, chain = parent :: rest ∧ flow.firstParent? id = some parent ∧ parent ∉ seen := by
  cases chain with
  | nil => cases h.ends
  | cons parent rest =>
    exact ⟨parent, rest, rfl, h.parents.rel, h.unseen parent List.mem_cons_self⟩

/-- A way up ends at the parent if that leaves no level open. -/
theorem ascends_single (first : flow.firstParent? id = some parent) (fresh : parent ∉ seen)
    (kept : 0 ≤ below) (low : below + flow.levels parent < 0) :
    flow.Ascends id seen below [parent] parent := by
  refine ⟨by simpa using first, List.nodup_singleton _, by simpa using fresh, rfl,
    fun part inside proper => ?_, by simpa using low⟩
  rcases List.prefix_cons_iff.mp inside with rfl | ⟨rest, rfl, empty⟩
  · simpa using kept
  · rw [List.prefix_nil.mp empty] at proper
    exact absurd rfl proper

/-- A way up goes on from the parent if that leaves a level open. -/
theorem Ascends.cons (first : flow.firstParent? id = some parent) (fresh : parent ∉ seen)
    (kept : 0 ≤ below)
    (h : flow.Ascends parent (parent :: seen) (below + flow.levels parent) chain opener) :
    flow.Ascends id seen below (parent :: chain) opener := by
  have apart : parent ∉ chain := fun inside => h.unseen parent inside List.mem_cons_self
  refine ⟨h.parents.cons_cons first, List.nodup_cons.mpr ⟨apart, h.distinct⟩, ?_, ?_, ?_, ?_⟩
  · intro other inside
    rcases List.mem_cons.mp inside with rfl | inside
    · exact fresh
    · exact fun known => h.unseen other inside (List.mem_cons_of_mem _ known)
  · rw [List.getLast?_cons, h.ends]
    rfl
  · intro part inside proper
    rcases List.prefix_cons_iff.mp inside with rfl | ⟨rest, rfl, within⟩
    · simpa using kept
    · have still := h.kept rest within fun whole => proper (by rw [whole])
      rw [levelsOn_cons]
      omega
  · have low := h.opens
    rw [levelsOn_cons]
    omega

/-- If the parent leaves a level open, the rest of a way up goes on from there. -/
theorem Ascends.tail (h : flow.Ascends id seen below (parent :: chain) opener)
    (still : 0 ≤ below + flow.levels parent) :
    flow.Ascends parent (parent :: seen) (below + flow.levels parent) chain opener := by
  have nonempty : chain ≠ [] := by
    rintro rfl
    have low := h.opens
    rw [levelsOn_cons, levelsOn_nil] at low
    omega
  obtain ⟨apart, distinct⟩ := List.nodup_cons.mp h.distinct
  refine ⟨h.parents.tail, distinct, fun other inside known => ?_, ?_,
    fun part inside proper => ?_, ?_⟩
  · rcases List.mem_cons.mp known with rfl | known
    · exact apart inside
    · exact h.unseen other (List.mem_cons_of_mem _ inside) known
  · rw [← h.ends, List.getLast?_cons_of_ne_nil nonempty]
  · have still := h.kept (parent :: part) (List.prefix_cons_inj _ |>.mpr inside)
      fun whole => proper (List.cons.inj whole).2
    rw [levelsOn_cons] at still
    omega
  · have low := h.opens
    rw [levelsOn_cons] at low
    omega

/-- What a climb finds is at the end of a way up that is no longer than the steps allow. -/
theorem climb_eq_some_iff (kept : 0 ≤ below) :
    flow.climb steps (flow.firstParent? id) seen below = some opener ↔
      ∃ chain, chain.length ≤ steps ∧ flow.Ascends id seen below chain opener := by
  induction steps generalizing id seen below with
  | zero =>
    constructor
    · intro found
      cases found
    · rintro ⟨chain, short, h⟩
      obtain ⟨parent, rest, rfl, -⟩ := h.exists_cons
      cases short
  | succ steps ih =>
    cases first : flow.firstParent? id with
    | none =>
      constructor
      · intro found
        cases found
      · rintro ⟨chain, -, h⟩
        obtain ⟨parent, rest, -, there, -⟩ := h.exists_cons
        rw [first] at there
        cases there
    | some parent =>
      have firstOnly : ∀ {chain}, flow.Ascends id seen below chain opener →
          ∃ rest, chain = parent :: rest ∧ parent ∉ seen := by
        intro chain h
        obtain ⟨other, rest, rfl, there, fresh⟩ := h.exists_cons
        rw [first] at there
        cases there
        exact ⟨rest, rfl, fresh⟩
      rw [climb]
      by_cases known : parent ∈ seen
      · rw [if_pos known]
        constructor
        · intro found
          cases found
        · rintro ⟨chain, -, h⟩
          obtain ⟨rest, -, fresh⟩ := firstOnly h
          exact absurd known fresh
      rw [if_neg known]
      by_cases low : below + flow.levels parent < 0
      · -- The parent leaves no level open, so the way up ends there.
        rw [if_pos low, Option.some.injEq]
        constructor
        · rintro rfl
          exact ⟨[parent], by simp, ascends_single first known kept low⟩
        · rintro ⟨chain, -, h⟩
          obtain ⟨rest, rfl, -⟩ := firstOnly h
          by_contra apart
          have still := h.kept [parent] ⟨rest, rfl⟩ fun whole => by
            have ends := h.ends
            rw [← whole] at ends
            exact apart (Option.some.inj ends)
          rw [levelsOn_cons, levelsOn_nil] at still
          omega
      · rw [if_neg low, ih (by omega)]
        constructor
        · rintro ⟨chain, short, h⟩
          exact ⟨parent :: chain, Nat.succ_le_succ short, h.cons first known kept⟩
        · rintro ⟨chain, short, h⟩
          obtain ⟨rest, rfl, -⟩ := firstOnly h
          exact ⟨rest, Nat.le_of_succ_le_succ short, h.tail (by omega)⟩

/-- The head that is found above a merge is at the end of a way up. -/
theorem starter?_eq_some_iff : flow.starter? limits merge = some opener ↔
    ∃ chain, chain.length ≤ limits.searchSteps ∧ flow.Climbs merge chain opener :=
  climb_eq_some_iff (Int.le_refl 0)

theorem leads_of_firstParent? (h : flow.firstParent? id = some parent) : flow.Leads parent id :=
  leads_iff_mem_parents.mpr (List.mem_of_head? h)

/-- Each node of a way up but the first is the source of an edge. -/
theorem mem_sources_of_parents
    (parents : (id :: chain).IsChain fun child parent => flow.firstParent? child = some parent)
    (inside : parent ∈ chain) : parent ∈ flow.edges.map (·.source) := by
  induction chain generalizing id with
  | nil => cases inside
  | cons first chain ih =>
    rcases List.mem_cons.mp inside with rfl | inside
    · obtain ⟨edge, member, rfl, -⟩ := leads_of_firstParent? parents.rel
      exact List.mem_map_of_mem member
    · exact ih parents.tail inside

/-- A way up is no longer than the list of edges. -/
theorem Ascends.length_le (h : flow.Ascends id seen below chain opener) :
    chain.length ≤ flow.edges.length := by
  have sources : chain ⊆ flow.edges.map (·.source) :=
    fun parent inside => mem_sources_of_parents h.parents inside
  simpa using (h.distinct.subperm sources).length_le

/-- With as many steps as there are edges, each way up is found. -/
theorem starter?_eq_some_iff_climbs (enough : (flow.edges.length : Int) ≤ limits.maxIterations) :
    flow.starter? limits merge = some opener ↔ ∃ chain, flow.Climbs merge chain opener := by
  rw [starter?_eq_some_iff]
  refine exists_congr fun chain => and_iff_right_of_imp fun h => ?_
  have short := h.length_le
  rw [Limits.searchSteps]
  omega

/-! ### The way up and the way down -/

/-- A way up ends at a head that is no merge, with one level less than there were. -/
theorem Ascends.level (h : flow.Ascends id seen below chain opener) :
    below + flow.levelsOn chain = -1 ∧ flow.isHead opener = true ∧ flow.isMerge opener = false := by
  obtain ⟨before, rfl⟩ := List.getLast?_eq_some_iff.mp h.ends
  have still := h.kept before (List.prefix_append _ _) (by simp)
  have low := h.opens
  rw [levelsOn_append, levelsOn_cons, levelsOn_nil] at low ⊢
  have step := flow.neg_one_le_levels opener
  exact ⟨by omega, isHead_of_levels_neg (by omega)⟩

/-- On the way down from the head that a way up comes to, the depth is at least one. -/
theorem Climbs.one_le (climbs : flow.Climbs merge chain opener)
    (single : ∀ id ∈ chain, ¬ (flow.isHead id = true ∧ flow.isMerge id = true))
    (inside : part <+: chain.reverse) (nonempty : part ≠ []) : 1 ≤ flow.depth part := by
  obtain ⟨rest, split⟩ := inside
  have whole : chain = rest.reverse ++ part.reverse := by
    rw [← List.reverse_append, split, List.reverse_reverse]
  have proper : rest.reverse ≠ chain := by
    rw [whole]
    simpa using nonempty
  have still := climbs.kept rest.reverse ⟨part.reverse, whole.symm⟩ proper
  have level := climbs.level.1
  have down : flow.depth part = -flow.levelsOn part.reverse := by
    rw [← depth_reverse, List.reverse_reverse]
    intro id inside
    exact single id (whole ▸ List.mem_append_right _ inside)
  rw [whole, levelsOn_append] at level
  omega

/-- A way up without a node that is head and merge at once is a way down that closes its head. -/
theorem Climbs.closesAlong (climbs : flow.Climbs merge chain opener)
    (merges : flow.isMerge merge = true) (plain : flow.isHead merge = false)
    (single : ∀ id ∈ chain, ¬ (flow.isHead id = true ∧ flow.isMerge id = true)) :
    flow.ClosesAlong (chain.reverse ++ [merge]) opener merge := by
  have level : flow.depth (chain.reverse ++ [merge]) = 0 := by
    have up := climbs.level.1
    rw [depth_append, depth_reverse single, depth_singleton, rise_of_merge plain merges]
    omega
  refine closesAlong_of_pos ?_ List.getLast?_concat ?_ merges level
    fun part inside proper nonempty => ?_
  · obtain ⟨before, rfl⟩ := List.getLast?_eq_some_iff.mp climbs.ends
    simp
  · rw [← List.reverse_cons, List.isChain_reverse]
    exact climbs.parents.imp fun _ _ => leads_of_firstParent?
  · exact climbs.one_le single ((List.prefix_concat_iff.mp inside).resolve_left proper) nonempty

/-- A way down that closes its head is a way up reversed, if each node on it is the first parent of
the next, and none is head and merge at once. -/
theorem ClosesAlong.climbs (closed : flow.ClosesAlong (before ++ [merge]) start merge)
    (opens : flow.isHead start = true) (distinct : (before ++ [merge]).Nodup)
    (parents : (before ++ [merge]).IsChain fun parent child => flow.firstParent? child = some parent)
    (single : ∀ id ∈ before ++ [merge], ¬ (flow.isHead id = true ∧ flow.isMerge id = true)) :
    flow.Climbs merge before.reverse start := by
  have plain : flow.isHead merge = false :=
    Bool.eq_false_iff.mpr fun head => single merge (by simp) ⟨head, closed.merges⟩
  have nonempty : before ≠ [] := by
    rintro rfl
    obtain rfl : merge = start := by simpa using closed.begins
    rw [plain] at opens
    cases opens
  have singleBefore : ∀ id ∈ before, ¬ (flow.isHead id = true ∧ flow.isMerge id = true) :=
    fun id inside => single id (List.mem_append_left _ inside)
  -- Counted downwards, the depth before the merge is one.
  have level : flow.depth before = 1 := by
    have total := closed.level
    rw [depth_append, depth_singleton, rise_of_merge plain closed.merges] at total
    omega
  have up : ∀ part, part ⊆ before → flow.levelsOn part.reverse = -flow.depth part := by
    intro part inside
    rw [← List.reverse_reverse part, depth_reverse, List.reverse_reverse, Int.neg_neg]
    exact fun id member => singleBefore id (inside (List.mem_reverse.mp member))
  obtain ⟨distinct, -, apart⟩ := List.nodup_append.mp distinct
  refine ⟨?_, List.nodup_reverse.mpr distinct, ?_, ?_, ?_, ?_⟩
  · rwa [← List.reverse_concat, List.isChain_reverse]
  · intro other inside known
    exact apart other (List.mem_reverse.mp inside) merge (by simp) (List.mem_singleton.mp known)
  · have begins := closed.begins
    rw [List.head?_append_of_ne_nil _ nonempty] at begins
    rw [List.getLast?_reverse, begins]
  · intro part inside proper
    obtain ⟨rest, split⟩ := inside
    have whole : before = rest.reverse ++ part.reverse := by
      rw [← List.reverse_append, split, List.reverse_reverse]
    -- What is left of the way down begins at the head, so its depth is one at least.
    have left : rest.reverse <+: before := ⟨part.reverse, whole.symm⟩
    have nonempty : rest.reverse ≠ [] := by
      intro empty
      rw [List.reverse_eq_nil_iff.mp empty, List.append_nil] at split
      exact proper split
    have shorter : rest.reverse ≠ before ++ [merge] := fun same =>
      ne_of_append_isPrefix (same ▸ left) rfl
    have deep := closed.one_le opens (left.trans (List.prefix_append _ _)) nonempty shorter
    have climbed := up part.reverse (by rw [whole]; exact List.subset_append_right _ _)
    rw [List.reverse_reverse] at climbed
    rw [whole, depth_append] at level
    omega
  · rw [up before (List.Subset.refl _), level]
    decide

/-! ### What is found above a merge is closed there -/

/-- The head that is found above a merge is at the end of a way up along first parents. If no node
on it is head and merge at once, the head is closed at the merge along the same way down, with the
depth at least one before. If it is closed nowhere else, and the depth at a node does not depend on
the walk, the search from the head finds the merge. -/
theorem closes_of_starter? (merges : flow.isMerge merge = true) (plain : flow.isHead merge = false)
    (found : flow.starter? limits merge = some opener) :
    (∃ chain, flow.Climbs merge chain opener) ∧
    ∀ chain, flow.Climbs merge chain opener →
      (∀ id ∈ chain, ¬ (flow.isHead id = true ∧ flow.isMerge id = true)) →
      flow.isHead opener = true ∧ flow.ClosesAlong (chain.reverse ++ [merge]) opener merge ∧
      (∀ part, part <+: chain.reverse → part ≠ [] → 1 ≤ flow.depth part) ∧
      (flow.Steady opener →
        (∀ one other, flow.Closes opener one → flow.Closes opener other → one = other) →
        ∀ limits : Limits, (flow.edges.length : Int) < limits.maxIterations →
          flow.searchMerge? limits opener = some merge) := by
  obtain ⟨chain, -, climbs⟩ := starter?_eq_some_iff.mp found
  refine ⟨⟨chain, climbs⟩, fun chain climbs single => ?_⟩
  have along := climbs.closesAlong merges plain single
  refine ⟨climbs.level.2.1, along, fun part => climbs.one_le single, ?_⟩
  intro steady unique limits enough
  have closes := closes_iff_exists_way.mpr ⟨_, along⟩
  refine searchMerge?_eq_some_of_closes steady (fun other => ⟨fun closed => ?_, ?_⟩) enough
  · exact unique other merge closed closes
  · rintro rfl
    exact closes

/-- The way up from the last merge of the flow with the cycle. -/
def eddyChain : List NodeId := ["close", "inner", "b", "a", "outer"]

theorem climbs_eddy : eddy.Climbs "join" eddyChain "outer" := by
  have kept : ∀ part ∈ eddyChain.inits, part ≠ eddyChain → 0 ≤ 0 + eddy.levelsOn part := by
    decide +kernel
  exact ⟨by decide +kernel, by decide +kernel, by decide +kernel, rfl,
    fun part inside => kept part ((List.mem_inits _ _).mpr inside), by decide +kernel⟩

theorem charts_eddy : eddy.Charts "outer" fun id above => (id, above) ∈ eddyTable :=
  charts_of_table (by decide +kernel) (by decide +kernel) (by decide +kernel)

theorem closes_eddy_iff (merge : NodeId) : eddy.Closes "outer" merge ↔ merge = "join" := by
  have opens : ∀ entry ∈ eddyTable, entry.1 ≠ "join" → eddy.OpenAt entry.1 entry.2 := by
    decide +kernel
  have ends : ∀ entry ∈ eddyTable, entry.1 = "join" → eddy.ClosesAt entry.1 entry.2 := by
    decide +kernel
  have leads : eddy.Leads "outer" "join" := leads_iff_mem_children.mpr (by decide +kernel)
  exact charts_eddy.closes_iff (fun here apart => opens _ here apart) (fun here => ends _ here rfl)
    (.single leads) merge

/-- The way up from the last merge of the flow with the cycle goes through the nested block, and is
the way down on which the outer head is closed. -/
theorem closes_of_starter?_eddy :
    eddy.starter? {} "join" = some "outer" ∧
    eddy.ClosesAlong ["outer", "a", "b", "inner", "close", "join"] "outer" "join" ∧
    eddy.searchMerge? { maxIterations := 9 } "outer" = some "join" := by
  have found : eddy.starter? {} "join" = some "outer" := by decide +kernel
  obtain ⟨-, down⟩ := closes_of_starter? (by decide +kernel) (by decide +kernel) found
  obtain ⟨-, along, -, finds⟩ := down eddyChain climbs_eddy (by decide +kernel)
  refine ⟨found, along, finds charts_eddy.steady ?_ _ (by decide +kernel)⟩
  intro one other closed closedToo
  rw [(closes_eddy_iff one).mp closed, (closes_eddy_iff other).mp closedToo]

end Flow

end Workflow
