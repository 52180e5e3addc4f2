import Mathlib.Data.List.Chain
import Workflow.Proofs.Walk.EdgeOrder

/-!
# Ways as lists of nodes

A way that closes a start, written out node by node, with the depth as a sum over the nodes. If the
start is a head, each block that is opened later on the way is closed on it, too, before the end.

## Main definitions

* `Flow.depth` — what the nodes of a way add to the depth
* `Flow.ClosesAlong` — a way from a start is first closed at a merge

## Main results

* `closes_iff_exists_way` — a merge closes a start if and only if it does so along some way
* `ClosesAlong.exists_inner` — a block that is opened on the way of a head is closed before the end
* `exists_way_of_searchMerge?` — what the search finds closes the start along a way
-/

namespace Workflow

namespace Flow

/-- What the nodes of a way add to the depth. -/
def depth (flow : Flow) : List NodeId → Int
  | [] => 0
  | id :: way => flow.rise id + flow.depth way

/-- A way along edges leads from `start` to `merge`. The depth does not fall below zero on it, and
`merge` is the first merge at which it is zero. -/
structure ClosesAlong (flow : Flow) (way : List NodeId) (start merge : NodeId) : Prop where
  begins : way.head? = some start
  ends : way.getLast? = some merge
  leads : way.IsChain flow.Leads
  merges : flow.isMerge merge = true
  level : flow.depth way = 0
  nonneg : ∀ part, part <+: way → 0 ≤ flow.depth part
  first : ∀ part id, part ++ [id] <+: way → part ++ [id] ≠ way → flow.isMerge id = true →
    flow.depth (part ++ [id]) ≠ 0

variable {flow : Flow} {start merge id inner : NodeId} {above : Int}
  {way before after part done rest : List NodeId} {limits : Limits}

/-! ### The depth of a way -/

@[simp] theorem depth_nil : flow.depth [] = 0 := rfl

@[simp] theorem depth_append (flow : Flow) (way more : List NodeId) :
    flow.depth (way ++ more) = flow.depth way + flow.depth more := by
  induction way with
  | nil => simp
  | cons id way ih =>
    rw [List.cons_append, depth, depth, ih]
    omega

@[simp] theorem depth_singleton (flow : Flow) (id : NodeId) : flow.depth [id] = flow.rise id := by
  simp [depth]

theorem neg_one_le_rise (flow : Flow) (id : NodeId) : -1 ≤ flow.rise id := by
  rw [rise]
  split <;> split <;> decide

/-- Only a merge takes the depth down. -/
theorem isMerge_of_rise_neg (h : flow.rise id < 0) : flow.isMerge id = true := by
  by_contra plain
  have rises := rise_nonneg_of_not_merge (Bool.eq_false_iff.mpr plain)
  omega

theorem ne_of_append_isPrefix (inside : part ++ [id] <+: way) : part ≠ way := by
  rintro rfl
  have length := inside.length_le
  rw [List.length_append, List.length_singleton] at length
  omega

/-- A way whose depth is above zero until it ends at zero is closed where it ends. -/
theorem closesAlong_of_pos (begins : way.head? = some start) (ends : way.getLast? = some merge)
    (leads : way.IsChain flow.Leads) (merges : flow.isMerge merge = true)
    (level : flow.depth way = 0)
    (deep : ∀ part, part <+: way → part ≠ way → part ≠ [] → 0 < flow.depth part) :
    flow.ClosesAlong way start merge := by
  refine ⟨begins, ends, leads, merges, level, fun part inside => ?_,
    fun part id inside proper _ => ?_⟩
  · by_cases whole : part = way
    · exact Int.le_of_eq (whole ▸ level.symm)
    · by_cases empty : part = []
      · rw [empty]
        exact Int.le_refl 0
      · exact Int.le_of_lt (deep part inside whole empty)
  · exact Int.ne_of_gt (deep _ inside proper (by simp))

/-! ### Open walks as ways -/

/-- A walk that comes to a node, written out: before the node it is open everywhere. -/
structure ArrivesAlong (flow : Flow) (before : List NodeId) (start id : NodeId) : Prop where
  begins : (before ++ [id]).head? = some start
  leads : (before ++ [id]).IsChain flow.Leads
  isOpen : ∀ part other, part ++ [other] <+: before → flow.OpenAt other (flow.depth part)

theorem Arrives.exists_way (h : flow.Arrives start id above) :
    ∃ before, flow.ArrivesAlong before start id ∧ flow.depth before = above := by
  induction h with
  | start => exact ⟨[], ⟨rfl, .singleton start, by simp⟩, rfl⟩
  | @next id child above _ isOpen leads ih =>
    obtain ⟨before, along, rfl⟩ := ih
    refine ⟨before ++ [id], ⟨?_, ?_, fun part other inside => ?_⟩, by simp⟩
    · rw [List.head?_append, along.begins]
      rfl
    · exact along.leads.append (.singleton child) (by simpa using leads)
    · -- The node itself is the last at which the walk is open.
      rcases List.prefix_concat_iff.mp inside with whole | earlier
      · obtain ⟨rfl, same⟩ := List.append_inj' whole rfl
        obtain rfl := List.singleton_inj.mp same
        exact isOpen
      · exact along.isOpen part other earlier

theorem ArrivesAlong.arrives (h : flow.ArrivesAlong before start id) :
    flow.Arrives start id (flow.depth before) := by
  induction before using List.reverseRecOn generalizing id with
  | nil =>
    obtain rfl : id = start := by simpa using h.begins
    exact .start
  | append_singleton before parent ih =>
    have earlier : flow.ArrivesAlong before start parent := by
      refine ⟨?_, h.leads.left_of_append, fun part other inside =>
        h.isOpen part other (inside.trans (List.prefix_append _ _))⟩
      have begins := h.begins
      rwa [List.head?_append_of_ne_nil _ (by simp)] at begins
    have leads : flow.Leads parent id := by
      have whole := h.leads
      rw [List.append_assoc] at whole
      simpa using whole.right_of_append
    have onward := (ih earlier).next (h.isOpen before parent (List.prefix_refl _)) leads
    simpa using onward

/-- A merge closes a start if and only if it does so along some way. -/
theorem closes_iff_exists_way :
    flow.Closes start merge ↔ ∃ way, flow.ClosesAlong way start merge := by
  constructor
  · rintro ⟨above, arrives, level, merges⟩
    obtain ⟨before, along, rfl⟩ := arrives.exists_way
    -- Each part but the whole ends at a node where the walk is open.
    have opens : ∀ part id, part ++ [id] <+: before ++ [merge] → part ++ [id] ≠ before ++ [merge] →
        flow.OpenAt id (flow.depth part) := fun part id inside proper =>
      along.isOpen part id ((List.prefix_concat_iff.mp inside).resolve_left proper)
    refine ⟨before ++ [merge], along.begins, by simp, along.leads, merges, by simpa using level,
      fun part inside => ?_, fun part id inside proper joins zero => ?_⟩
    · rcases List.eq_nil_or_concat part with rfl | ⟨part, id, rfl⟩
      · simp
      · rw [List.concat_eq_append] at inside ⊢
        by_cases whole : part ++ [id] = before ++ [merge]
        · simp [whole, level]
        · simpa using (opens part id inside whole).1
    · exact (opens part id inside proper).2 ⟨by simpa using zero, joins⟩
  · rintro ⟨way, closed⟩
    obtain ⟨before, rfl⟩ : ∃ before, way = before ++ [merge] := by
      obtain ⟨nonempty, last⟩ := List.getLast?_eq_some_iff.mp closed.ends
      exact ⟨nonempty, last⟩
    have along : flow.ArrivesAlong before start merge := by
      refine ⟨closed.begins, closed.leads, fun part other inside => ?_⟩
      have within : part ++ [other] <+: before ++ [merge] := inside.trans (List.prefix_append _ _)
      have proper : part ++ [other] ≠ before ++ [merge] := fun whole =>
        ne_of_append_isPrefix (whole ▸ inside) rfl
      refine ⟨by simpa using closed.nonneg _ within, fun shut => ?_⟩
      exact closed.first part other within proper shut.2 (by simpa using shut.1)
    exact ⟨_, along.arrives, by simpa using closed.level, closed.merges⟩

/-! ### Blocks opened on the way -/

/-- On the way of a head, the depth is at least one between the start and the end. -/
theorem ClosesAlong.one_le (closed : flow.ClosesAlong way start merge)
    (opens : flow.isHead start = true) (inside : part <+: way) (nonempty : part ≠ [])
    (proper : part ≠ way) : 1 ≤ flow.depth part := by
  induction part using List.reverseRecOn with
  | nil => exact absurd rfl nonempty
  | append_singleton part id ih =>
    have low := closed.nonneg _ inside
    rw [depth_append, depth_singleton] at low ⊢
    cases joins : flow.isMerge id with
    | true =>
      have apart := closed.first part id inside proper joins
      rw [depth_append, depth_singleton] at apart
      omega
    | false =>
      by_cases empty : part = []
      · -- The first node is the head.
        subst empty
        obtain ⟨last, rfl⟩ := inside
        obtain rfl : id = start := by simpa using closed.begins
        rw [depth_nil, rise_of_head opens joins]
        decide
      · have shorter : part <+: way := (List.prefix_append _ _).trans inside
        have deep := ih shorter empty (ne_of_append_isPrefix inside)
        have rises := rise_nonneg_of_not_merge joins
        omega

/-- A way that goes from above zero to zero or below comes to zero first at a merge. -/
theorem exists_first_level (deep : 0 < flow.depth done) (low : flow.depth (done ++ rest) ≤ 0) :
    ∃ more closer last, rest = more ++ closer :: last ∧ flow.isMerge closer = true ∧
      flow.depth (done ++ more ++ [closer]) = 0 ∧
      ∀ part, part <+: more → 0 < flow.depth (done ++ part) := by
  induction rest generalizing done with
  | nil =>
    rw [List.append_nil] at low
    omega
  | cons id rest ih =>
    by_cases still : 0 < flow.depth (done ++ [id])
    · obtain ⟨more, closer, last, rfl, joins, level, above⟩ := ih still (by simpa using low)
      refine ⟨id :: more, closer, last, rfl, joins, by simpa using level, fun part inside => ?_⟩
      rcases List.prefix_cons_iff.mp inside with rfl | ⟨shorter, rfl, within⟩
      · simpa using deep
      · simpa using above shorter within
    · have step := flow.neg_one_le_rise id
      rw [depth_append, depth_singleton] at still
      refine ⟨[], id, rest, rfl, isMerge_of_rise_neg (by omega), ?_, fun part inside => ?_⟩
      · rw [List.append_nil, depth_append, depth_singleton]
        omega
      · rw [List.prefix_nil.mp inside, List.append_nil]
        exact deep

/-- A node that is head and merge at once is closed where it starts. -/
theorem closesAlong_joining (head : flow.isHead id = true) (joins : flow.isMerge id = true) :
    flow.ClosesAlong [id] id id := by
  have level : flow.depth [id] = 0 := by rw [depth_singleton, rise_of_both head joins]
  refine closesAlong_of_pos rfl rfl (.singleton id) joins level ?_
  intro part inside proper nonempty
  have one := List.length_pos_iff.mpr nonempty
  exact absurd (inside.eq_of_length_le one) proper

/-- A block that is opened on the way of a head is closed on it, too, before the end. -/
theorem ClosesAlong.exists_inner (closed : flow.ClosesAlong way start merge)
    (opens : flow.isHead start = true) (split : way = before ++ inner :: after)
    (later : before ≠ []) (head : flow.isHead inner = true) :
    ∃ block rest closer, inner :: after = block ++ rest ∧ rest ≠ [] ∧
      flow.ClosesAlong block inner closer := by
  have leads : (inner :: after).IsChain flow.Leads :=
    (split ▸ closed.leads).right_of_append
  -- Before the block the depth is one at least, so from there on it falls below zero.
  have low : flow.depth (inner :: after) < 0 := by
    have deep := closed.one_le opens ⟨inner :: after, split.symm⟩ later (by simp [split])
    have level := closed.level
    rw [split, depth_append] at level
    omega
  cases joins : flow.isMerge inner with
  | true =>
    refine ⟨[inner], after, inner, rfl, fun none => ?_, closesAlong_joining head joins⟩
    rw [none, depth_singleton, rise_of_both head joins] at low
    omega
  | false =>
    have deep : 0 < flow.depth [inner] := by
      rw [depth_singleton, rise_of_head head joins]
      decide
    obtain ⟨more, closer, last, rfl, merges, level, above⟩ :=
      exists_first_level deep (Int.le_of_lt low)
    -- All of the block but its end has a depth above zero.
    have within : ∀ part, part <+: inner :: more ++ [closer] → part ≠ inner :: more ++ [closer] →
        part ≠ [] → 0 < flow.depth part := by
      intro part inside proper nonempty
      have shorter := (List.prefix_concat_iff.mp inside).resolve_left proper
      rcases List.prefix_cons_iff.mp shorter with rfl | ⟨part, rfl, behind⟩
      · exact absurd rfl nonempty
      · exact above part behind
    refine ⟨inner :: more ++ [closer], last, closer, by simp, fun none => ?_, ?_⟩
    · rw [none] at low
      exact absurd level (Int.ne_of_lt low)
    · have leadsOn : (inner :: more ++ [closer]).IsChain flow.Leads :=
        leads.prefix ⟨last, by simp⟩
      exact closesAlong_of_pos rfl List.getLast?_concat leadsOn merges level within

/-! ### What the search finds -/

/-- What the search finds is a merge, and it closes the start along a way. If the start is a head,
each block that is opened later on the way is closed on it before the end. -/
theorem exists_way_of_searchMerge? (found : flow.searchMerge? limits start = some merge) :
    (∃ node, flow.node? merge = some node ∧ node.isMerge = true) ∧
    ∃ way, flow.ClosesAlong way start merge ∧ (flow.isHead start = true →
      ∀ before inner after, way = before ++ inner :: after → before ≠ [] →
        flow.isHead inner = true →
        ∃ block rest closer, inner :: after = block ++ rest ∧ rest ≠ [] ∧
          flow.ClosesAlong block inner closer) := by
  have merges : (flow.node? merge).any Node.isMerge = true := isMerge_of_searchMerge? found
  obtain ⟨way, closed⟩ := closes_iff_exists_way.mp (closes_of_searchMerge? found)
  refine ⟨by simpa [Option.any_eq_true] using merges, way, closed, ?_⟩
  intro opens before inner after split later head
  exact closed.exists_inner opens split later head

/-- In the flow with a cycle and a nested block, the outer head is closed along a way. -/
theorem exists_way_of_searchMerge?_eddy :
    eddy.searchMerge? {} "outer" = some "join" ∧ ∃ way, eddy.ClosesAlong way "outer" "join" := by
  have found : eddy.searchMerge? {} "outer" = some "join" := by decide +kernel
  obtain ⟨-, way, closed, -⟩ := exists_way_of_searchMerge? found
  exact ⟨found, way, closed⟩

end Flow

end Workflow
