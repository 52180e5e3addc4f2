import Workflow.Proofs.Editing.Spanning

/-!
# Heads and the places where edges come together

An emptied branch keeps a slot, so that its head is not joined straight to the place where branches
come together. Only the edge around the body of a loop leads there. Edits keep it so: an edge that
leads straight after an edit stands for one that led straight before.

## Main definitions

* `Flow.Parts` — only edges around the bodies of loops lead straight
* `Flow.NamesMerges` — each merge that is named is one

## Main results

* `Edit.straight_cases` — the edges that lead straight after an edit, told by those before it
* `Edit.parts` — edits keep heads apart from where edges come together
-/

namespace Workflow

namespace Flow

/-- Only edges around the bodies of loops lead from heads straight to where edges come together. An
edge without a name is not around a loop. -/
def Parts (flow : Flow) : Prop :=
  ∀ edge, flow.Straight edge → edge.branch = some Branch.loopBypass

/-- Each merge that is named is one. -/
def NamesMerges (flow : Flow) : Prop :=
  ∀ node ∈ flow.nodes, ∀ merge, node.content.mergeNodeId = some merge → flow.isMerge merge = true

instance (flow : Flow) : Decidable flow.Parts :=
  decidable_of_iff (∀ edge ∈ flow.edges, flow.Straight edge → edge.branch = some Branch.loopBypass)
    ⟨fun h edge straight => h edge straight.mem straight, fun h edge _ => h edge⟩

instance (flow : Flow) : Decidable flow.NamesMerges :=
  inferInstanceAs (Decidable (∀ node ∈ flow.nodes, ∀ merge ∈ node.content.mergeNodeId,
    flow.isMerge merge = true))

variable {flow : Flow} {node old slot head : Node} {edge : Edge} {id merge target : NodeId}
  {step : NewStep} {limits : Limits} {names : List String} {slots : List NodeId}
  {edges : List Edge}

/-! ### Merges that are named -/

theorem NamesMerges.isMerge_merge? (named : flow.NamesMerges)
    (found : flow.merge? limits id = some merge) : flow.isMerge merge = true := by
  cases own : flow.rememberedMerge? id with
  | none =>
    rw [merge?_of_not_remembered own] at found
    exact isMerge_of_searchMerge? found
  | some remembered =>
    rw [merge?_of_remembered own, Option.some.injEq] at found
    obtain ⟨node, there, names⟩ := Option.bind_eq_some_iff.mp own
    exact found ▸ named node (mem_of_node?_eq_some there) remembered
      (Option.filter_eq_some_iff.mp names).1

theorem NamesMerges.isMerge_presentMerge? (named : flow.NamesMerges)
    (present : flow.presentMerge? limits id = some merge) : flow.isMerge merge = true := by
  rw [presentMerge?] at present
  split at present
  · cases present
  · rename_i other found
    split at present
    · cases present
      exact named.isMerge_merge? found
    · exact isMerge_of_searchMerge? present

/-! ### A node in the place of another -/

/-- Where a node is replaced by one that plays no new role, the same edges lead straight. -/
theorem straight_replaceNode (straight : (flow.replaceNode node).flow.Straight edge)
    (found : flow.node? node.id = some old) (heads : node.isHead = true → old.isHead = true)
    (merges : node.isMerge = true → flow.Gathers node.id) : flow.Straight edge := by
  have fresh : (flow.replaceNode node).FreshFor flow := ⟨List.nodup_nil, by simp [replaceNode]⟩
  have recasts : flow.Recasts (flow.replaceNode node).flow [] := by
    refine recasts_of_retouches (flow.retouches_replaceNode node) fresh (fun other known => ?_)
      fun other known => ?_
    · split
      · rename_i here
        rw [here, found] at known
        exact Option.some.inj known ▸ heads
      · exact id
    · split
      · rename_i here
        exact here ▸ merges
      · exact gathers_of_node? known
  exact recasts.straight_of_mem straight.mem (Nat.le_refl _) straight

/-! ### A new step -/

/-- Where a step is inserted, no new edge leads straight but the one around a loop. -/
theorem straight_splice {source : NodeId} {cut : Edge}
    (found : flow.edge? source target = some cut) (fans : step.Fans)
    (fresh : (flow.splice cut step).FreshFor flow)
    (straight : (flow.splice cut step).flow.Straight edge) :
    edge.branch = some Branch.loopBypass ∨ flow.Straight edge := by
  have takes := takesIn_splice found fans fresh
  refine (takes.straight_cases fans straight).resolve_left fun into => ?_
  -- Only the edge that took the place of the old one enters the head of the step.
  have unused : ¬ flow.Mentions step.head.id := fresh.unused _ List.mem_cons_self
  refine takes.not_gathers unused (fun node put same => ?_) ?_ (into ▸ straight.gathers)
  · have first : node = step.head :=
      List.inj_on_of_nodup_map fresh.distinct put List.mem_cons_self same
    exact first ▸ fans.plain
  · refine Nat.le_of_eq ?_
    rw [length_edgesTo, countP_target_splice found, countP_target_eq_zero unused,
      fans.countP_target_head, if_pos rfl]

/-- An edge into the head of a block in the place of a slot led into the slot. -/
theorem exists_of_target_head (fans : step.Fans)
    (fresh : (flow.fillWithBlock limits slot step).FreshFor flow)
    (member : edge ∈ (flow.fillWithBlock limits slot step).flow.edges)
    (into : edge.target = step.head.id) :
    ∃ before ∈ flow.edgesTo slot.id, edge = .connect before.source step.head.id before.branch := by
  have unused : ¬ flow.Mentions step.head.id := fresh.unused _ List.mem_cons_self
  rw [edges_fillWithBlock] at member
  rcases List.mem_append.mp member with kept | member
  · exact absurd (into ▸ mentions_target (mem_edges_without.mp kept).1) unused
  · rcases List.mem_append.mp member with member | out
    · rcases List.mem_append.mp member with entering | inner
      · obtain ⟨before, known, rfl⟩ := List.mem_map.mp entering
        exact ⟨before, known, rfl⟩
      · exact absurd into (fans.targets edge inner).2
    · obtain ⟨before, leaves, rfl⟩ := List.mem_map.mp out
      have known := (mem_edgesFrom.mp (List.mem_of_mem_take leaves)).1
      have same : before.target = step.head.id := into
      exact absurd (same ▸ mentions_target known) unused

/-- Edges come together at the head of a block in the place of a slot only if they did at the
slot. -/
theorem gathers_of_fillWithBlock (found : flow.node? slot.id = some slot) (fans : step.Fans)
    (fresh : (flow.fillWithBlock limits slot step).FreshFor flow)
    (gathers : (flow.fillWithBlock limits slot step).flow.Gathers step.head.id) :
    flow.Gathers slot.id := by
  have takes := @takesIn_fillWithBlock flow step slot limits fans fresh
  have unused : ¬ flow.Mentions step.head.id := fresh.unused _ List.mem_cons_self
  refine ⟨mem_ids_of_node? found, ?_⟩
  obtain ⟨-, joins | more⟩ := gathers
  · -- The head is a merge only if the block takes the role of the slot.
    left
    rcases takes.merges joins with before | ⟨node, put, same, joins⟩
    · exact absurd (.inl before.1) unused
    · obtain ⟨part, inside, rfl⟩ := List.mem_map.mp put
      rw [Node.id_pin] at same
      rw [isMerge_pin] at joins
      rcases List.mem_cons.mp inside with rfl | behind
      · rw [fillHead] at joins
        split at joins
        · rename_i taken
          rw [takesJoin, Bool.and_eq_true] at taken
          exact (isMerge_of_node? found).trans taken.1
        · exact absurd joins (by simp [fans.plain])
      · have twice : step.head.id ∈ step.parts.map (·.id) := same ▸ List.mem_map_of_mem behind
        exact absurd twice (List.nodup_cons.mp fresh.distinct).1
  · right
    have most := flow.countP_target_fillWithBlock_le limits slot step step.head.id
    rw [countP_target_eq_zero unused, fans.countP_target_head, if_pos rfl,
      ← length_edgesTo] at most
    omega

/-- Where a block takes the place of a slot, an edge leads straight only around a loop, or if it led
straight before, or if the edge into the slot that it stands for did. -/
theorem straight_fillWithBlock (found : flow.node? slot.id = some slot) (fans : step.Fans)
    (fresh : (flow.fillWithBlock limits slot step).FreshFor flow)
    (straight : (flow.fillWithBlock limits slot step).flow.Straight edge) :
    edge.branch = some Branch.loopBypass ∨
      ∃ before, flow.Straight before ∧ before.branch = edge.branch := by
  have takes := @takesIn_fillWithBlock flow step slot limits fans fresh
  rcases takes.straight_cases fans straight with into | around | before
  · obtain ⟨before, entering, rfl⟩ := exists_of_target_head fans fresh straight.mem into
    obtain ⟨known, target⟩ := mem_edgesTo.mp entering
    exact .inr ⟨before, ⟨known, takes.isHead_of_mentions (mentions_source known) straight.opens,
      target.symm ▸ gathers_of_fillWithBlock found fans fresh straight.gathers⟩, rfl⟩
  · exact .inl around
  · exact .inr ⟨edge, before, rfl⟩

/-! ### Names on branches -/

/-- An edge after branches were named is one that starts none, or one that has a new name. -/
theorem mem_renameBranches {head : NodeId} (member : edge ∈ renameBranches head names edges) :
    edge ∈ edges ∧ startsBranch head edge = false ∨
      ∃ before ∈ edges, startsBranch head before = true ∧
        ∃ name, edge = { before with branch := some name } := by
  fun_induction renameBranches head names edges with
  | case1 => cases member
  | case2 first rest starts ih =>
    rcases ih member with ⟨known, other⟩ | ⟨before, known, named⟩
    · exact .inl ⟨List.mem_cons_of_mem _ known, other⟩
    · exact .inr ⟨before, List.mem_cons_of_mem _ known, named⟩
  | case3 first rest starts name names ih =>
    rcases List.mem_cons.mp member with rfl | later
    · exact .inr ⟨first, List.mem_cons_self, starts, name, rfl⟩
    · rcases ih later with ⟨known, other⟩ | ⟨before, known, named⟩
      · exact .inl ⟨List.mem_cons_of_mem _ known, other⟩
      · exact .inr ⟨before, List.mem_cons_of_mem _ known, named⟩
  | case4 names first rest starts ih =>
    rcases List.mem_cons.mp member with rfl | later
    · exact .inl ⟨List.mem_cons_self, by simpa using starts⟩
    · rcases ih later with ⟨known, other⟩ | ⟨before, known, named⟩
      · exact .inl ⟨List.mem_cons_of_mem _ known, other⟩
      · exact .inr ⟨before, List.mem_cons_of_mem _ known, named⟩

/-- Names on branches leave roles as they are. -/
theorem recasts_withBranches (found : flow.node? head.id = some head)
    (fresh : (flow.withBranches head merge names slots).FreshFor flow) :
    flow.Recasts (flow.withBranches head merge names slots).flow
      (newBranches head.id merge (names.drop (flow.branchEdges head.id).length) slots).nodes := by
  obtain ⟨touch, labels, retouches⟩ := exists_retouches_withBranches found fresh
  -- A node that is found is the head, or is there with another text at most.
  have roles : ∀ node, flow.node? node.id = some node →
      (touch node).isHead = node.isHead ∧ (touch node).isMerge = node.isMerge := by
    intro node known
    rcases labels.cases node with still | ⟨slot, text, there, -, -, written⟩
    · rw [still]
      exact ⟨rfl, rfl⟩
    · obtain rfl := Option.some.inj (known.symm.trans there)
      rw [written]
      exact ⟨rfl, rfl⟩
  refine recasts_of_retouches retouches fresh (fun node known => ?_) fun node known => ?_
  · split
    · rename_i here
      rw [here, found] at known
      exact Option.some.inj known ▸ id
    · rw [(roles node known).1]
      exact id
  · have old : node.isMerge = true → flow.Gathers node.id := gathers_of_node? known
    split
    · rename_i here
      rw [here, found] at known
      exact Option.some.inj known ▸ old
    · rw [(roles node known).2]
      exact old

/-- What enters a node after branches were set: what entered it before, the head where it is a new
slot, and new slots where it is the merge. -/
theorem length_edgesTo_withBranches_le (flow : Flow) (head : Node) (merge : NodeId)
    (names : List String) (slots : List NodeId) (id : NodeId) :
    ((flow.withBranches head merge names slots).flow.edgesTo id).length ≤
      (flow.edgesTo id).length + ((flow.withBranches head merge names slots).added.count id +
        if merge = id then (flow.withBranches head merge names slots).added.length else 0) := by
  let rungs := (names.drop (flow.branchEdges head.id).length).zip slots
  have added : (flow.withBranches head merge names slots).added = rungs.map (·.2) := by
    simp [withBranches, newBranches, rungs, Node.branchPlaceholder, Function.comp_def]
  have ladder := countP_target_ladder rungs (·.2) (some ·.1) head.id merge id
  have renamed := @countP_renameBranches head.id names flow.edges (fun edge => edge.target = id)
    fun _ _ => rfl
  have fewer : (flow.withBranches head merge names slots).flow.edges.Sublist
      (renameBranches head.id names flow.edges ++ rungs.flatMap fun rung =>
        [.connect head.id rung.2 (some rung.1), .connect rung.2 merge none]) :=
    List.filter_sublist
  have most := fewer.countP_le (p := fun edge => edge.target = id)
  rw [List.countP_append, ladder] at most
  rw [length_edgesTo, length_edgesTo, added, List.length_map]
  omega

section Branches

variable (found : flow.node? head.id = some head) (joins : flow.isMerge merge = true)
  (fresh : (flow.withBranches head merge names slots).FreshFor flow)
include found joins fresh

/-- Edges come together at an old node after branches were set only if they did before. -/
theorem gathers_of_withBranches (old : flow.Mentions id)
    (gathers : (flow.withBranches head merge names slots).flow.Gathers id) : flow.Gathers id := by
  -- No more edges enter it than before, unless it is the merge.
  by_cases here : merge = id
  · exact here ▸ ⟨mem_ids_of_isMerge joins, .inl joins⟩
  · have none : (flow.withBranches head merge names slots).added.count id = 0 :=
      List.count_eq_zero.mpr fun new => fresh.unused id new old
    have most := flow.length_edgesTo_withBranches_le head merge names slots id
    rw [none, if_neg here] at most
    exact (recasts_withBranches found fresh).gathers_of_mentions old most gathers

/-- The slot of a new branch is no head, and no edges come together there. -/
theorem slot_withBranches (new : id ∈ (flow.withBranches head merge names slots).added) :
    (flow.withBranches head merge names slots).flow.isHead id = false ∧
      ¬ (flow.withBranches head merge names slots).flow.Gathers id := by
  have recasts := @recasts_withBranches flow head merge names slots found fresh
  have unused := fresh.unused id new
  have apart : merge ≠ id := fun same => unused (same ▸ .inl (mem_ids_of_isMerge joins))
  refine ⟨recasts.isHead_eq_false unused fun node put _ => ?_,
    recasts.not_gathers unused (fun node put _ => ?_) ?_⟩
  · obtain ⟨arm, -, rfl⟩ := List.mem_map.mp put
    rfl
  · obtain ⟨arm, -, rfl⟩ := List.mem_map.mp put
    rfl
  · have most := flow.length_edgesTo_withBranches_le head merge names slots id
    rw [length_edgesTo flow, countP_target_eq_zero unused,
      List.count_eq_one_of_mem fresh.distinct new, if_neg apart] at most
    exact most

/-- Where branches are set, an edge that leads straight did so before, or has a new name and stands
for one that did. -/
theorem straight_withBranches
    (straight : (flow.withBranches head merge names slots).flow.Straight edge) :
    flow.Straight edge ∨ ∃ before, flow.Straight before ∧ startsBranch head.id before = true ∧
      edge.source = before.source ∧ edge.target = before.target := by
  have recasts := @recasts_withBranches flow head merge names slots found fresh
  obtain ⟨member, -, -⟩ := mem_edges_without.mp straight.mem
  rcases List.mem_append.mp member with renamed | new
  · rcases mem_renameBranches renamed with ⟨known, -⟩ | ⟨before, known, starts, name, rfl⟩
    · exact .inl ⟨known, recasts.isHead_of_mentions (mentions_source known) straight.opens,
        gathers_of_withBranches found joins fresh (mentions_target known) straight.gathers⟩
    · refine .inr ⟨before, ⟨known, ?_, ?_⟩, starts, rfl, rfl⟩
      · exact recasts.isHead_of_mentions (mentions_source known) straight.opens
      · exact gathers_of_withBranches found joins fresh (mentions_target known) straight.gathers
  · obtain ⟨id, inside, ⟨-, target⟩ | ⟨source, -⟩⟩ :=
      connects_newBranches.mp ⟨edge, new, rfl, rfl⟩
    · exact absurd straight.gathers (target ▸ (slot_withBranches found joins fresh inside).2)
    · exact absurd straight.opens (by simp [source, (slot_withBranches found joins fresh inside).1])

end Branches

end Flow

namespace Edit

variable {edit : Edit} {flow : Flow} {limits : Limits} {supply rest : Supply} {change : Change}
  {edge : Edge} {id : NodeId}

theorem straight_delete (simple : flow.Simple) (named : flow.NamesMerges)
    (done : (delete id).run flow limits supply = .ok (change, rest)) (fresh : change.FreshFor flow)
    (straight : change.flow.Straight edge) :
    ∃ before, flow.Straight before ∧ before.branch = edge.branch := by
  obtain ⟨node, found, cases⟩ := delete_cases done
  obtain rfl := Flow.id_of_node?_eq_some found
  have known := Flow.mem_ids_of_node? found
  rcases cases with ⟨starts, rfl⟩ | ⟨-, -, merge, present, -, rfl⟩ | ⟨-, -, deletes⟩
  · refine ⟨edge, Flow.straight_replaceNode straight found id (fun joins => ?_), rfl⟩
    cases joins
  · exact Flow.straight_removeBlock simple (named.isMerge_presentMerge? present) known fresh
      straight
  · cases deletes with
    | join joins =>
      refine ⟨edge, Flow.straight_replaceNode straight found (fun opens => ?_)
        (fun _ => ⟨known, .inr joins⟩), rfl⟩
      cases opens
    | slot =>
      refine ⟨edge, Flow.straight_replaceNode straight found (fun opens => ?_)
        (fun joins => Flow.gathers_of_node? found ?_), rfl⟩
      · cases opens
      · -- Of the two flags of a merge, the emptied step keeps one.
        rw [Node.isMerge, Bool.or_eq_true]
        exact .inr joins
    | gone =>
      exact Flow.straight_removeAndBridge (Flow.spans_stepGaps known) (fun _ _ => Iff.rfl) fresh
        straight

/-- After an edit that is made, an edge that leads straight is around a loop, or stands for one that
led straight before: one of the same branch, or one of a branch that got a new name. -/
theorem straight_cases (simple : flow.Simple) (named : flow.NamesMerges)
    (done : edit.run flow limits supply = .ok (change, rest)) (fresh : change.FreshFor flow)
    (straight : change.flow.Straight edge) : edge.branch = some Branch.loopBypass ∨
      ∃ before, flow.Straight before ∧ (before.branch = edge.branch ∨
        ∃ id names, edit = setBranches id names ∧ Flow.startsBranch id before = true ∧
          edge.source = before.source ∧ edge.target = before.target) := by
  cases edit with
  | delete id =>
    obtain ⟨before, led, same⟩ := straight_delete simple named done fresh straight
    exact .inr ⟨before, led, .inl same⟩
  | swap id kind label params =>
    obtain ⟨node, found, alike, rfl⟩ := swap_cases done
    obtain rfl := Flow.id_of_node?_eq_some found
    refine .inr ⟨edge, Flow.straight_replaceNode straight found (fun opens => alike.trans opens)
      (fun joins => ?_), .inl rfl⟩
    rw [Flow.isMerge_refill] at joins
    exact Flow.gathers_of_node? found joins
  | insert source target kind label branches =>
    obtain ⟨cut, found, rfl⟩ := insert_cases done
    refine (Flow.straight_splice found (NewStep.fans_make fresh.distinct) fresh straight).imp_right
      fun led => ⟨edge, led, .inl rfl⟩
  | fill id kind label params branches =>
    obtain ⟨slot, found, -, ⟨plain, rfl⟩ | ⟨block, -, -, rfl⟩⟩ := fill_cases done
    · obtain rfl := Flow.id_of_node?_eq_some found
      refine .inr ⟨edge, Flow.straight_replaceNode straight found (fun opens => ?_)
        (fun joins => ?_), .inl rfl⟩
      · simp [Node.isHead, Node.blockKind?, plain] at opens
      · exact Flow.gathers_of_node? found joins
    · obtain rfl := Flow.id_of_node?_eq_some found
      obtain ⟨names, head, merge, slots, made, -, -⟩ :=
        NewStep.makeBlock_cases block label params branches supply
      rw [made] at fresh straight
      refine (Flow.straight_fillWithBlock found (NewStep.fans_block fresh.distinct) fresh
        straight).imp_right ?_
      rintro ⟨before, led, same⟩
      exact ⟨before, led, .inl same⟩
  | setBranches id names =>
    obtain ⟨head, merge, found, -, -, present, slots, -, rfl⟩ := setBranches_cases done
    obtain rfl := Flow.id_of_node?_eq_some found
    right
    rcases Flow.straight_withBranches found (named.isMerge_merge? present) fresh straight with
      led | ⟨before, led, starts, source, target⟩
    · exact ⟨edge, led, .inl rfl⟩
    · exact ⟨before, led, .inr ⟨head.id, names, rfl, starts, source, target⟩⟩

/-- Where no two edges lead from one node to the same other, and each merge that is named is one, an
edit that is made keeps heads apart from where edges come together. -/
theorem parts (simple : flow.Simple) (named : flow.NamesMerges) (parts : flow.Parts)
    (done : edit.run flow limits supply = .ok (change, rest)) (fresh : change.FreshFor flow) :
    change.flow.Parts := by
  intro edge straight
  rcases straight_cases simple named done fresh straight with
    around | ⟨before, led, same | ⟨id, names, -, starts, -⟩⟩
  · exact around
  · exact same ▸ parts before led
  · -- The edge around a loop starts no branch, so it gets no name.
    exact absurd (parts before led) (of_decide_eq_true starts).2

/-- A loop with a slot in its body. -/
def ring : Flow where
  nodes := [{ id := "each", kind := some "loop", content := { mergeNodeId := some "close" } },
    .branchPlaceholder "slot" "Loop Body", .mergePlaceholder "close",
    { id := "end", kind := some "end" }]
  edges := [.connect "each" "slot" (some Branch.loopBody), .connect "slot" "close" none,
    .connect "each" "close" (some Branch.loopBypass), .connect "close" "end" none]

/-- The slot gives way to another. -/
def ringEmptied : Change where
  flow := { ring with
    nodes := [{ id := "each", kind := some "loop", content := { mergeNodeId := some "close" } },
      .mergePlaceholder "close", { id := "end", kind := some "end" },
      .branchPlaceholder "000000000001" "Loop Body"]
    edges := [.connect "each" "close" (some Branch.loopBypass), .connect "close" "end" none,
      .connect "each" "000000000001" (some Branch.loopBody),
      .connect "000000000001" "close" none] }
  removed := ["slot"]
  added := ["000000000001"]

/-- Without its slot, the body of the loop does not lead straight to the merge. -/
theorem parts_ring : ring.Straight (.connect "each" "close" (some Branch.loopBypass)) ∧
    ringEmptied.removed = ["slot"] ∧ ringEmptied.flow.Parts := by
  have done : (delete "slot").run ring {} .numbered =
      .ok (ringEmptied, Supply.numbered.skip 1) := by rfl
  have fresh : ringEmptied.FreshFor ring := by decide +kernel
  have apart : ring.Parts := by decide +kernel
  exact ⟨by decide +kernel, rfl, parts (by decide +kernel) (by decide +kernel) apart done fresh⟩

end Edit

end Workflow
