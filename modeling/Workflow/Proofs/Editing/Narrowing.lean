import Workflow.Proofs.Editing.BlockRemoval
import Workflow.Proofs.Editing.Session
import Workflow.Proofs.Editing.Stranding

/-!
# Fewer branches, and then none

A block is given fewer names than it has branches, and then it is deleted. Blocks that did not
hold it close where they did. A block around it closes where it did if nothing was stranded. With
stranded steps the merge of the deleted block is left behind, and the block around it is closed
early. There is one more case: the merge itself may be marked as the slot of a branch. Then an
empty branch takes it away, the block is open, and the deletion is refused.

## Main results

* `Trims.searchMerge?_eq_iff` — whether a block around a merge that was cut off closes where it did
* `Trims.exists_delete`, `Trims.delete_refused` — what the deletion comes to
* `Session.merge?_delete_narrowed` — which heads close where they did
-/

namespace Workflow

namespace Flow

variable {flow trimmed : Flow} {line : Line} {head merge other final id : NodeId}
  {lanes bundle : List Lane} {names : List String} {limits : Limits} {patch : Patch}
  {gaps : List Gap} {removed : List NodeId}

/-- Closing gaps names no merge. -/
theorem unnamed_closedOver (unnamed : ∀ node ∈ flow.nodes, node.content.mergeNodeId = none)
    (bridges : patch.Bridges gaps) :
    ∀ node ∈ (flow.closedOver removed patch).nodes, node.content.mergeNodeId = none := by
  intro settled member
  obtain ⟨node, inside, rfl⟩ := List.mem_map.mp member
  have nameless : node.content.mergeNodeId = none := by
    rcases List.mem_append.mp inside with old | new
    · exact unnamed node (mem_nodes_without.mp old).1
    · obtain ⟨text, slot⟩ := bridges.slots node new
      rw [slot]
      rfl
  simp [Node.settle, Node.mapContent, Content.withMerge, nameless]

/-- Taking nodes out and closing the gaps adds the edges of the patch at most. -/
theorem length_edges_closedOver_le (flow : Flow) (removed : List NodeId) (patch : Patch) :
    (flow.closedOver removed patch).edges.length ≤ flow.edges.length + patch.edges.length := by
  rw [closedOver, edges_settle, edges_append, List.length_append]
  exact Nat.add_le_add_right (List.length_filter_le _ _) _

/-- In a well-nested flow in which no merge is named, the merge of each block is found. -/
theorem Nests.merge?_eq_of_unnamed (nests : flow.Nests line) (covers : limits.Covers flow)
    (unnamed : ∀ node ∈ flow.nodes, node.content.mergeNodeId = none)
    (block : .block head lanes merge ∈ line.items) : flow.merge? limits head = some merge := by
  obtain ⟨context, out, rest, rfl⟩ := Line.exists_context_of_mem_items block
  rw [merge?_of_unnamed unnamed, nests.searchMerge?_eq covers]

section Block

variable (trims : flow.Trims trimmed head names) (nests : flow.Nests line)
  (block : .block head lanes merge ∈ line.items)
include trims nests block

/-! ### Where other blocks are closed -/

section Other

variable (hosts : flow.Hosts (.block other bundle final))
  (outside : other ∉ (Item.block head lanes merge).ids)

include outside in
/-- What is reached past the merge of the block, and is not in the block, is reached still. -/
theorem Trims.reaches_of_around (around : flow.Around merge other id)
    (off : id ∉ (Item.block head lanes merge).ids) :
    Relation.ReflTransGen trimmed.Leads other id := by
  obtain ⟨inner, -⟩ := nests.hosts_of_mem_items block
  -- A path into the block does not come out of it but through the merge.
  have along : ∀ {id}, flow.Around merge other id → id ∈ (Item.block head lanes merge).ids ∨
      id ∉ (Item.block head lanes merge).ids ∧ Relation.ReflTransGen trimmed.Leads other id := by
    intro id path
    induction path with
    | refl => exact .inr ⟨outside, .refl⟩
    | @tail id child path leads ih =>
      by_cases here : child ∈ (Item.block head lanes merge).ids
      · exact .inl here
      · right
        refine ⟨here, ?_⟩
        rcases ih with inBlock | ⟨offToo, before⟩
        · have short : id ≠ merge := by
            rintro rfl
            rcases path.cases_tail with same | ⟨_, -, step⟩
            · exact outside (same ▸ inBlock)
            · exact step.2 rfl
          obtain ⟨wire, along, -, rfl⟩ := inner.onward inBlock short leads.1
          exact absurd (Item.target_mem_ids along) here
        · exact before.tail ((trims.frames nests block).kept leads.1 offToo here)
  exact ((along around).resolve_left off).2

include hosts outside in
/-- A block that held one whose merge was cut off closes where it did if and only if its merge can
be reached past that one. -/
theorem Trims.searchMerge?_eq_iff (cut : merge ∈ flow.surplusSlots head names)
    (inside : head ∈ (Item.block other bundle final).ids)
    (enough : (trimmed.edges.length : Int) < limits.maxIterations) :
    trimmed.searchMerge? limits other = some final ↔ flow.Around merge other final := by
  obtain ⟨inner, -⟩ := nests.hosts_of_mem_items block
  have begins : other ∉ flow.surplusSlots head names :=
    nests.outside_notMem_surplusSlots block outside
  have off : final ∉ (Item.block head lanes merge).ids :=
    hosts.last_notMem inner inside fun same => outside (same ▸ Item.first_mem_ids _)
  constructor
  · intro found
    obtain ⟨above, arrives, -⟩ := closes_of_searchMerge? found
    -- Edges that stay do not lead to the merge that was cut off.
    refine arrives.reaches.lift (fun node => node) fun source target leads => ?_
    obtain ⟨on, -, kept⟩ := trims.leads_iff.mp leads
    exact ⟨on.leads, (ne_of_mem_of_not_mem cut kept).symm⟩
  · intro around
    have reaches := trims.reaches_of_around nests block outside around off
    exact searchMerge?_eq_some_of_closes (trims.charts hosts begins).steady
      (fun early => trims.closes_iff hosts begins reaches) enough

end Other

/-! ### The deletion -/

/-- A head that stays is still there, in its role. -/
theorem Trims.exists_head : ∃ node, trimmed.node? head = some node ∧ node.isHead = true ∧
    node.isMerge = false := by
  obtain ⟨hosts, known⟩ := nests.hosts_of_mem_items block
  have begins : head ∉ flow.surplusSlots head names := nests.head_notMem_surplusSlots block
  obtain ⟨node, found⟩ := Option.isSome_iff_exists.mp (has_iff_mem_ids.mpr
    (trims.ids.mpr ⟨known head (Item.first_mem_ids (.block head lanes merge)), begins⟩))
  obtain ⟨hhead, hmerge⟩ := trims.roles begins
  exact ⟨node, found, (isHead_of_node? found).symm.trans (hhead.trans hosts.plays_ends.1.1),
    (isMerge_of_node? found).symm.trans (hmerge.trans hosts.plays_ends.1.2)⟩

/-- If the merge was cut off as a slot, the deletion is refused. -/
theorem Trims.delete_refused (cut : merge ∈ flow.surplusSlots head names) (supply : Supply) :
    (Edit.delete head).run trimmed limits supply = .error (.openBlock head) := by
  obtain ⟨hosts, -⟩ := nests.hosts_of_mem_items block
  obtain ⟨node, found, opens, -⟩ := trims.exists_head nests block
  have begins : head ∉ flow.surplusSlots head names := nests.head_notMem_surplusSlots block
  refine Edit.run_eq_error_iff.mpr (plan_delete_open found opens ?_)
  rw [presentMerge?, merge?_of_unnamed trims.unnamed]
  cases finds : trimmed.searchMerge? limits head with
  | none => rfl
  | some last =>
    obtain ⟨rfl, stays⟩ := trims.eq_last_of_closes hosts begins (closes_of_searchMerge? finds)
    exact absurd cut stays

variable (stays : merge ∉ flow.surplusSlots head names) (named : names ≠ [])
  (fewer : names.length < (flow.branchEdges head).length) (covers : limits.Covers flow)
include stays named fewer covers

/-- If the merge stays, it is what closes the block at present. -/
theorem Trims.presentMerge?_eq : trimmed.presentMerge? limits head = some merge := by
  obtain ⟨hosts, known⟩ := nests.hosts_of_mem_items block
  have begins : head ∉ flow.surplusSlots head names := nests.head_notMem_surplusSlots block
  have present : trimmed.has merge = true := has_iff_mem_ids.mpr
    (trims.ids.mpr ⟨known merge (Item.last_mem_ids (.block head lanes merge)), stays⟩)
  have room := (covers.edges_lt (known head (Item.first_mem_ids (.block head lanes merge)))).1
  have less := trims.fewer
  have found : trimmed.searchMerge? limits head = some merge :=
    searchMerge?_eq_some_of_closes (trims.charts hosts begins).steady
      (fun early => trims.closes_iff hosts begins
        (trims.reaches_merge nests block stays named fewer)) (by omega)
  rw [presentMerge?, merge?_of_unnamed trims.unnamed, found]
  simp [present]

/-- If the merge stays, the block is deleted. With stranded steps its merge is left behind, and
without them it goes as a whole. -/
theorem Trims.exists_delete (supply : Supply) : ∃ removed gaps patch left,
    (Edit.delete head).run trimmed limits supply =
      .ok ({ flow := trimmed.closedOver removed patch, removed := trimmed.idsIn removed,
             added := patch.nodes.map (·.id) }, left) ∧
    patch.Bridges gaps ∧ patch.edges.length ≤ 2 ∧
    ((∀ id ∈ patch.nodes.map (·.id), ¬ flow.Mentions id) →
      (flow.Strands head merge names →
        flow.Lowers (trimmed.closedOver removed patch) (.block head lanes merge) merge) ∧
      (¬ flow.Strands head merge names →
        flow.Skips (trimmed.closedOver removed patch) (.block head lanes merge))) := by
  obtain ⟨hosts, known⟩ := nests.hosts_of_mem_items block
  obtain ⟨node, found, opens, plain⟩ := trims.exists_head nests block
  have planned := plan_delete_head found opens
    (trims.presentMerge?_eq nests block stays named fewer covers) hosts.merge_ne_head
  have room := (covers.edges_lt (known head (Item.first_mem_ids (.block head lanes merge)))).2
  have less := trims.fewer
  have whole : ∀ id, id ∈ trimmed.body limits head merge ↔ trimmed.Around merge head id := fun id =>
    mem_body_iff_around hosts.merge_ne_head.symm (by omega)
  have shared := trims.sharesMerge_iff nests block stays whole
  -- One edge at most leads into the block, and one out of it, so there is one gap at most.
  obtain ⟨single, lone⟩ :
      (trimmed.edgesTo head).length ≤ 1 ∧ (trimmed.edgesFrom merge).length ≤ 1 := by
    obtain ⟨context, out, rest, rfl⟩ := Line.exists_context_of_mem_items block
    exact ⟨Nat.le_trans (trims.into head) nests.length_edgesTo_first_le,
      Nat.le_trans (trims.outOf merge) nests.length_edgesFrom_last_le⟩
  have two : ∀ removed targets, targets.length ≤ 1 → (StateT.run
      (trimmed.bridgeAll (trimmed.gaps removed head targets)) supply).1.edges.length ≤ 2 := by
    intro removed targets few
    have edges := length_bridgeAll_le trimmed (trimmed.gaps removed head targets) supply
    have gaps := @length_gaps_le trimmed head removed targets single
    omega
  rw [removeBlock, id_of_node?_eq_some found, plain] at planned
  by_cases strands : flow.Strands head merge names
  · rw [shared.mpr strands] at planned
    simp only [Bool.or_true, Bool.false_eq_true, if_true, if_false] at planned
    exact ⟨_, _, _, _, Edit.run_eq_ok_iff.mpr ⟨_, planned, rfl⟩,
      bridges_bridgeAll trimmed _ supply, two _ _ (Nat.le_refl 1), fun fresh =>
        ⟨fun _ => trims.lowers_bridgeAll nests block whole stays supply fresh, absurd strands⟩⟩
  · rw [Bool.eq_false_iff.mpr fun shares => strands (shared.mp shares)] at planned
    simp only [Bool.or_false, Bool.false_eq_true, if_false] at planned
    refine ⟨_, _, _, _, Edit.run_eq_ok_iff.mpr ⟨_, planned, rfl⟩,
      bridges_bridgeAll trimmed _ supply, two _ _ ?_, fun fresh =>
        ⟨fun stranded => absurd stranded strands,
          fun _ => trims.skips_bridgeAll nests block whole stays strands supply rfl fresh⟩⟩
    refine Nat.le_trans (List.length_filter_le _ _) ?_
    rwa [children, List.length_map]

end Block

end Flow

namespace Session

variable {session trimmed last : Session} {line : Line} {head merge : NodeId} {lanes : List Lane}
  {names : List String} {setting deletion : Except Refusal Change}

/-- Setting fewer names than there are branches cuts off the branches left over. -/
theorem exists_setBranches (nests : session.flow.Nests line)
    (covers : session.limits.Covers session.flow)
    (unnamed : ∀ node ∈ session.flow.nodes, node.content.mergeNodeId = none)
    (block : .block head lanes merge ∈ line.items)
    (branching : (session.flow.node? head).bind Node.blockKind? = some .parallel ∨
      (session.flow.node? head).bind Node.blockKind? = some .loop)
    (named : names ≠ []) (fewer : names.length < (session.flow.branchEdges head).length) :
    ∃ change left, (Edit.setBranches head names).run session.flow session.limits session.supply =
      .ok (change, left) ∧ session.flow.Trims change.flow head names := by
  have begins : head ∉ session.flow.surplusSlots head names :=
    nests.head_notMem_surplusSlots block
  have closes := nests.merge?_eq_of_unnamed covers unnamed block
  cases found : session.flow.node? head with
  | none =>
    rw [found] at branching
    rcases branching with none' | none' <;> cases none'
  | some node =>
    rw [found, Option.bind_some] at branching
    have apart : ¬ (node.blockKind? ≠ some .parallel ∧ node.blockKind? ≠ some .loop) :=
      fun other => branching.elim other.1 other.2
    have planned : (Edit.setBranches head names).plan session.flow session.limits =
        .ok (session.flow.withBranches node merge names <$>
          Fresh.several (names.length - (session.flow.branchEdges head).length)) := by
      rw [Edit.plan, Flow.setBranches, found]
      simp only [if_neg apart, if_neg named, closes]
      rfl
    exact ⟨_, _, Edit.run_eq_ok_iff.mpr ⟨_, planned, Fresh.run_map _ _ _⟩,
      Flow.trims_withBranches found fewer begins unnamed⟩

/-- In a well-nested flow in which no merge is named, a block is given fewer names than it has
branches, and then it is deleted. The deletion is made unless the merge was cut off as the slot of a
branch. The head of another block closes where it did if its block did not hold the deleted one, or
if nothing was stranded. With stranded steps, a block around the deleted one is closed at another
node as well. -/
theorem merge?_delete_narrowed (nests : session.flow.Nests line)
    (covers : session.limits.Covers session.flow)
    (unnamed : ∀ node ∈ session.flow.nodes, node.content.mergeNodeId = none)
    (block : .block head lanes merge ∈ line.items)
    (branching : (session.flow.node? head).bind Node.blockKind? = some .parallel ∨
      (session.flow.node? head).bind Node.blockKind? = some .loop)
    (named : names ≠ []) (fewer : names.length < (session.flow.branchEdges head).length)
    (sets : session.perform (.setBranches head names) = (setting, trimmed))
    (deletes : trimmed.perform (.delete head) = (deletion, last))
    (fresh : session.flow.DrawsFresh deletion) :
    (∃ change, setting = .ok change) ∧
    ((∃ change, deletion = .ok change) ↔ merge ∉ session.flow.surplusSlots head names) ∧
    ∀ other bundle final, .block other bundle final ∈ line.items →
      other ∉ (Item.block head lanes merge).ids →
      (head ∉ (Item.block other bundle final).ids ∨
          merge ∉ session.flow.surplusSlots head names ∧
            ¬ session.flow.Strands head merge names →
        last.flow.merge? last.limits other = session.flow.merge? session.limits other) ∧
      (head ∈ (Item.block other bundle final).ids →
        merge ∈ session.flow.surplusSlots head names →
          (last.flow.merge? last.limits other = session.flow.merge? session.limits other ↔
            session.flow.Around merge other final)) ∧
      ((∃ early, early ≠ final ∧ last.flow.Closes other early) ↔
        head ∈ (Item.block other bundle final).ids ∧
          merge ∉ session.flow.surplusSlots head names ∧
          session.flow.Strands head merge names) := by
  obtain ⟨change, left, done, trims⟩ :=
    exists_setBranches nests covers unnamed block branching named fewer
  rw [perform_of_ok done, Prod.mk.injEq] at sets
  obtain ⟨rfl, rfl⟩ := sets
  obtain ⟨inner, -⟩ := nests.hosts_of_mem_items block
  refine ⟨⟨_, rfl⟩, ?_⟩
  have less := trims.fewer
  have room := covers.search
  have two : 2 ≤ session.flow.nodes.length := by
    obtain ⟨context, out, rest, rfl⟩ := Line.exists_context_of_mem_items block
    have size := nests.length_ids_le
    rw [Item.ids_block, List.length_append, List.length_cons, List.length_singleton] at size
    omega
  by_cases cut : merge ∈ session.flow.surplusSlots head names
  · -- The deletion is refused, so the branches have been cut off and nothing else.
    rw [perform_of_error (trims.delete_refused nests block cut left), Prod.mk.injEq] at deletes
    obtain ⟨rfl, rfl⟩ := deletes
    refine ⟨⟨fun ⟨_, made⟩ => (by cases made), absurd cut⟩, ?_⟩
    intro other bundle final inside outside
    obtain ⟨hosts, known⟩ := nests.hosts_of_mem_items inside
    have enough : (change.flow.edges.length : Int) < session.limits.maxIterations := by omega
    have begins : other ∉ session.flow.surplusSlots head names :=
      nests.outside_notMem_surplusSlots block outside
    rw [Flow.merge?_of_unnamed trims.unnamed, nests.merge?_eq_of_unnamed covers unnamed inside]
    refine ⟨fun cases => ?_, fun around _ => ?_, ?_, fun strands => absurd cut strands.2.1⟩
    · have off := cases.resolve_right fun stays => stays.1 cut
      have still := (trims.frames nests block).hosts hosts known (hosts.apart inner outside off)
      exact still.searchMerge?_eq enough
    · exact trims.searchMerge?_eq_iff nests block hosts outside cut around enough
    · rintro ⟨early, apart, closes⟩
      exact absurd (trims.eq_last_of_closes hosts begins closes).1 apart
  · obtain ⟨removed, gaps, patch, rest, made, bridges, few, cases⟩ :=
      trims.exists_delete nests block cut named fewer covers left
    rw [perform_of_ok made, Prod.mk.injEq] at deletes
    obtain ⟨rfl, rfl⟩ := deletes
    obtain ⟨lowers, skips⟩ := cases fresh.unused
    refine ⟨⟨fun _ => cut, fun _ => ⟨_, rfl⟩⟩, ?_⟩
    intro other bundle final inside outside
    obtain ⟨hosts, known⟩ := nests.hosts_of_mem_items inside
    have more := Flow.length_edges_closedOver_le change.flow removed patch
    have enough : ((change.flow.closedOver removed patch).edges.length : Int) <
        session.limits.maxIterations := by omega
    rw [Flow.merge?_of_unnamed (Flow.unnamed_closedOver trims.unnamed bridges),
      nests.merge?_eq_of_unnamed covers unnamed inside]
    by_cases strands : session.flow.Strands head merge names
    · have lowers := lowers strands
      refine ⟨fun cases => ?_, fun _ gone => absurd gone cut, ?_⟩
      · have off := cases.resolve_right fun clean => clean.2 strands
        exact (lowers.hosts hosts known (hosts.apart inner outside off)).searchMerge?_eq enough
      · rw [lowers.closes_early_iff hosts inner known outside nests]
        exact ⟨fun around => ⟨around, cut, strands⟩, fun around => around.1⟩
    · have skips := skips strands
      refine ⟨fun _ => skips.searchMerge?_eq hosts inner known outside enough,
        fun _ gone => absurd gone cut, ?_, fun around => absurd around.2.2 strands⟩
      rintro ⟨early, apart, closes⟩
      exact absurd ((skips.closes_iff hosts inner known outside early).mp closes) apart

/-- A parallel step on the one branch of a condition, with a step on one of its branches. -/
def frayed : Session where
  flow := {
    nodes := [{ id := "outer", kind := some "condition" },
      { id := "fork", kind := some "parallel" }, { id := "step", kind := some "action" },
      .mergePlaceholder "close", .mergePlaceholder "join", { id := "end", kind := some "end" }]
    edges := [.connect "outer" "fork" (some "true"), .connect "fork" "close" (some "A"),
      .connect "fork" "step" (some "B"), .connect "step" "close" none,
      .connect "close" "join" none, .connect "join" "end" none] }
  supply := .numbered

/-- The parallel step of the sample. -/
def frayedFork : Item :=
  .block "fork" [(some "A", .done), (some "B", .cons (.step "step") none .done)] "close"

/-- The condition of the sample, with the parallel step on its branch. -/
def frayedOuter : Item := .block "outer" [(some "true", .cons frayedFork none .done)] "join"

/-- The sequence of which the sample is the graph. -/
def frayedLine : Line := .cons frayedOuter none (.cons (.step "end") none .done)

/-- The branch with the step is cut off. -/
def frayedTrimmed : Except Refusal Change × Session := frayed.perform (.setBranches "fork" ["A"])

/-- Then the parallel step is deleted. -/
def frayedDeleted : Except Refusal Change × Session := frayedTrimmed.2.perform (.delete "fork")

/-- The step is stranded, and the condition around the parallel step is closed early. -/
theorem merge?_delete_narrowed_frayed :
    frayed.flow.Nests frayedLine ∧ frayed.flow.Strands "fork" "close" ["A"] ∧
      (∃ change, frayedTrimmed.1 = .ok change) ∧ (∃ change, frayedDeleted.1 = .ok change) ∧
      ∃ early, early ≠ "join" ∧ frayedDeleted.2.flow.Closes "outer" early := by
  have nests : frayed.flow.Nests frayedLine := by decide +kernel
  have covers : frayed.limits.Covers frayed.flow := by decide +kernel
  have unnamed : ∀ node ∈ frayed.flow.nodes, node.content.mergeNodeId = none := by decide +kernel
  have branching : (frayed.flow.node? "fork").bind Node.blockKind? = some .parallel ∨
      (frayed.flow.node? "fork").bind Node.blockKind? = some .loop := by decide +kernel
  have fewer : ["A"].length < (frayed.flow.branchEdges "fork").length := by decide +kernel
  have sets : frayed.perform (.setBranches "fork" ["A"]) = (frayedTrimmed.1, frayedTrimmed.2) := rfl
  have deletes : frayedTrimmed.2.perform (.delete "fork") =
      (frayedDeleted.1, frayedDeleted.2) := rfl
  have fresh : frayed.flow.DrawsFresh frayedDeleted.1 := by decide +kernel
  have members : ∀ item ∈ [frayedFork, frayedOuter], item ∈ frayedLine.items := by
    simp [frayedLine, frayedOuter, frayedFork, Line.items, Item.items, laneItems]
  have strands : frayed.flow.Strands "fork" "close" ["A"] :=
    ⟨.connect "fork" "step" (some "B"), by decide +kernel, by decide, "step", .refl,
      by decide +kernel⟩
  obtain ⟨trimmed, deleted, others⟩ := merge?_delete_narrowed nests covers unnamed
    (members frayedFork (by simp)) branching (by decide) fewer sets deletes fresh
  have stays : "close" ∉ frayed.flow.surplusSlots "fork" ["A"] := by decide +kernel
  exact ⟨nests, strands, trimmed, deleted.mpr stays,
    (others "outer" _ "join" (members frayedOuter (by simp)) (by decide +kernel)).2.2.mpr
      ⟨by decide +kernel, stays, strands⟩⟩

/-- After both edits another merge than before is found from the condition. -/
theorem not_merge?_delete_narrowed_frayed :
    frayed.flow.Nests frayedLine ∧ frayed.limits.Covers frayed.flow ∧
    (∀ node ∈ frayed.flow.nodes, node.content.mergeNodeId = none) ∧
    frayedFork ∈ frayedLine.items ∧
    (frayed.flow.node? "fork").bind Node.blockKind? = some .parallel ∧
    ["A"].length < (frayed.flow.branchEdges "fork").length ∧
    frayed.flow.DrawsFresh frayedTrimmed.1 ∧ frayed.flow.DrawsFresh frayedDeleted.1 ∧
    (∃ change, frayedTrimmed.1 = .ok change) ∧ (∃ change, frayedDeleted.1 = .ok change) ∧
    frayedOuter ∈ frayedLine.items ∧ "outer" ∉ frayedFork.ids ∧
    frayed.flow.merge? frayed.limits "outer" = some "join" ∧
    frayedDeleted.2.flow.merge? frayedDeleted.2.limits "outer" = some "close" :=
  ⟨by decide +kernel, by decide +kernel, by decide +kernel,
    by simp [frayedLine, frayedOuter, frayedFork, Line.items, Item.items, laneItems],
    by decide +kernel, by decide +kernel, by decide +kernel, by decide +kernel, ⟨_, rfl⟩, ⟨_, rfl⟩,
    by simp [frayedLine, frayedOuter, frayedFork, Line.items, Item.items, laneItems],
    by decide +kernel, by decide +kernel, by decide +kernel⟩

end Session

end Workflow
