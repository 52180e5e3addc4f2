import Workflow.Proofs.Editing.Bridging
import Workflow.Proofs.Editing.Session
import Workflow.Proofs.Editing.Supplanting
import Workflow.Proofs.Editing.Takeover

/-!
# Deleting a block above a joining head

A block fills the slot at which another block closes, and then the block above is deleted. The
new block stays behind, since its head is still marked as a merge. Blocks that did not hold the
deleted block close where they did. A block around it is closed early, because the head that is
left behind takes away the level that it opens.

## Main results

* `Joins.supplants` — the joining block has taken the place of the deleted block
* `Joins.exists_delete` — the deletion is made, and takes out the body only
* `Session.merge?_delete_above_join` — which heads close where they did
-/

namespace Workflow

namespace Flow

variable {flow joined : Flow} {line : Line} {head merge opener closer id child : NodeId}
  {lanes arms : List Lane} {limits : Limits} {patch : Patch} {gaps : List Gap}
  {removed : List NodeId}

section Above

variable (joins : flow.Joins joined head merge opener closer arms)
  (hosts : flow.Hosts (.block head lanes merge))
  (known : ∀ id ∈ (Item.block head lanes merge).ids, id ∈ flow.ids)
include joins hosts known

/-! ### The body of the block above -/

/-- From the head above, the same nodes are reached around the joining head as were reached around
the merge that has gone. -/
theorem Joins.around_iff : joined.Around opener head id ↔ id ∈ head :: laneIds lanes := by
  have ids : (Item.block head lanes merge).ids = head :: laneIds lanes ++ [merge] :=
    Item.ids_block head lanes merge
  have distinct := hosts.distinct
  rw [ids, List.nodup_append] at distinct
  have short : ∀ id ∈ head :: laneIds lanes, id ≠ merge := fun id inside =>
    distinct.2.2 id inside merge List.mem_cons_self
  have old : ∀ id ∈ (Item.block head lanes merge).ids,
      id ∉ (Item.block opener arms closer).ids := fun id inside new =>
    joins.unused id new (.inl (known id inside))
  constructor
  · intro around
    induction around with
    | refl => exact List.mem_cons_self
    | @tail id child _ leads ih =>
      have inside : id ∈ (Item.block head lanes merge).ids := ids ▸ List.mem_append_left _ ih
      rcases joins.leads_iff.mp leads.1 with kept | ⟨-, rfl⟩ | ⟨wire, member, rfl, -⟩ | ⟨rfl, -⟩
      · obtain ⟨before, -, ends⟩ := leads_without.mp kept
        obtain ⟨wire, member, -, rfl⟩ := hosts.onward inside (short id ih) before
        have target := Item.target_mem_ids member
        rw [ids, List.mem_append] at target
        exact target.resolve_right ends
      · exact absurd rfl leads.2
      · exact absurd (Item.source_mem_ids member) (old _ inside)
      · exact absurd (Item.last_mem_ids (.block opener arms id)) (old _ inside)
  · intro inside
    have around := hosts.around_iff.mpr inside
    induction around with
    | refl => exact .refl
    | @tail id child path leads ih =>
      have before : id ∈ head :: laneIds lanes := hosts.around_iff.mp path
      have kept : (flow.without [merge]).Leads id child :=
        leads_without.mpr ⟨leads.1, by simpa using short id before, by simpa using leads.2⟩
      refine (ih before).tail ⟨joins.leads_iff.mpr (.inl kept), ?_⟩
      rintro rfl
      exact joins.unused child (Item.first_mem_ids (.block child arms closer))
        leads.1.mentions_target

/-- Where edges lead to the head above, they led there before. -/
theorem Joins.leads_head (nests : flow.Nests line) (into : joined.Leads id head) :
    flow.Leads id head := by
  have headIn : head ∈ (Item.block head lanes merge).ids := Item.first_mem_ids _
  rcases joins.leads_iff.mp into with kept | ⟨-, same⟩ | ⟨wire, member, -, same⟩ | ⟨-, back⟩
  · exact (leads_without.mp kept).1
  · exact absurd (.inl (same ▸ known head headIn))
      (joins.unused opener (Item.first_mem_ids (.block opener arms closer)))
  · exact absurd (.inl (same ▸ known head headIn))
      (joins.unused wire.target (Item.target_mem_ids member))
  · -- The edge behind the merge would close a circle.
    exact absurd ((Relation.TransGen.single back).trans_left (hosts.reaches_last headIn))
      nests.acyclic

/-! ### What is left behind -/

section Removal

variable (nests : flow.Nests line) (whole : ∀ id, id ∈ removed ↔ id ∈ head :: laneIds lanes)
  (bridges : patch.Bridges gaps)
  (ends : ∀ gap ∈ gaps, gap.target = opener ∧ joined.Leads gap.edge.source head)
  (fresh : ∀ id ∈ patch.nodes.map (·.id), ¬ joined.Mentions id ∧ ¬ flow.Mentions id)
include nests whole bridges ends fresh

/-- An edge that is left was there before, or takes the place of one into the head above or of one
out of the merge that has gone. -/
theorem Joins.leads_cases (leads : (joined.closedOver removed patch).Leads id child) :
    flow.Leads id child ∨ ¬ flow.Mentions child ∧ (flow.Mentions id → flow.Leads id head) ∨
      ¬ flow.Mentions id ∧ (flow.Mentions child → flow.Leads merge child) := by
  have opens := joins.unused opener (Item.first_mem_ids (.block opener arms closer))
  have closes := joins.unused closer (Item.last_mem_ids (.block opener arms closer))
  rcases leads_closedOver.mp leads with ⟨along, stays, -⟩ | connects
  · rcases joins.leads_iff.mp along with kept | ⟨into, -⟩ | ⟨wire, member, rfl, rfl⟩ | ⟨rfl, out⟩
    · exact .inl (leads_without.mp kept).1
    · -- Edges into the old merge came from the body, which has gone.
      obtain ⟨wire, member, rfl, -⟩ := hosts.inward
        (Item.last_mem_ids (.block head lanes merge)) hosts.merge_ne_head into
      have short := Item.source_ne_last hosts.distinct member
      have inside := Item.source_mem_ids member
      rw [Item.ids_block, List.mem_append, List.mem_singleton, ← whole] at inside
      exact absurd (inside.resolve_right short) stays
    · have source := joins.unused _ (Item.source_mem_ids member)
      exact .inr (.inl ⟨joins.unused _ (Item.target_mem_ids member),
        fun present => absurd present source⟩)
    · exact .inr (.inr ⟨closes, fun _ => out⟩)
  · obtain ⟨gap, member, ⟨rfl, target⟩ | ⟨slot, rfl⟩⟩ := bridges.connects_cases connects
    · obtain ⟨joint, into⟩ := ends gap member
      refine .inr (.inl ⟨?_, fun _ => joins.leads_head hosts known nests into⟩)
      rcases target with rfl | slot
      · exact joint ▸ opens
      · exact (fresh child slot).2
    · obtain ⟨joint, -⟩ := ends gap member
      exact .inr (.inl ⟨joint ▸ opens, fun present => absurd present (fresh id slot).2⟩)

/-- Where the body above a joining head is taken out and the flow closed over it, the joining
block has taken the place of the whole block above. -/
theorem Joins.supplants
    (entered : ∀ {id}, joined.Leads id head → id ∉ removed → ∃ gap ∈ gaps, gap.edge.source = id) :
    flow.Supplants (joined.closedOver removed patch) (.block head lanes merge)
      opener arms closer := by
  have inside : ∀ id, id ∈ (Item.block head lanes merge).ids ↔ id ∈ removed ∨ id = merge := by
    intro id
    rw [Item.ids_block, List.mem_append, List.mem_singleton, whole]
  have new : ∀ id ∈ (Item.block opener arms closer).ids, id ∉ removed := fun id here gone =>
    joins.unused id here (.inl (known id ((inside id).mpr (.inl gone))))
  have closes : closer ∈ (Item.block opener arms closer).ids := Item.last_mem_ids _
  have unmentioned : ∀ id ∈ patch.nodes.map (·.id), id ∉ joined.ids := fun id slot old =>
    (fresh id slot).1 (.inl old)
  refine ⟨joins.block.closedOver new unmentioned, joins.unused, ?_, ?_, ?_, ?_,
    joins.leads_cases hosts known nests whole bridges ends fresh⟩
  · intro id present outside
    rw [inside, not_or] at outside
    have old : id ∉ (Item.block opener arms closer).ids := fun here =>
      joins.unused id here (.inl present)
    have slot : id ∉ patch.nodes.map (·.id) := fun new => (fresh id new).2 (.inl present)
    obtain ⟨hhead, hmerge⟩ := roles_closedOver outside.1 slot
    have same := joins.roles old outside.2
    exact ⟨hhead.trans same.1, hmerge.trans same.2⟩
  · intro id child along outside off
    rw [inside, not_or] at outside off
    have kept : (flow.without [merge]).Leads id child :=
      leads_without.mpr ⟨along, by simpa using outside.2, by simpa using off.2⟩
    exact leads_closedOver.mpr (.inl ⟨joins.leads_iff.mpr (.inl kept), outside.1, off.1⟩)
  · -- The gap behind an edge into the head is closed by an edge or through a slot.
    intro id into outside
    rw [inside, not_or] at outside
    have kept : (flow.without [merge]).Leads id head :=
      leads_without.mpr ⟨into, by simpa using outside.2, by simpa using hosts.merge_ne_head.symm⟩
    obtain ⟨gap, member, rfl⟩ := entered (joins.leads_iff.mpr (.inl kept)) outside.1
    obtain ⟨target, -⟩ := ends gap member
    rcases bridges.crosses gap member with direct | ⟨slot, here, enters, onward⟩
    · exact .inl (leads_closedOver.mpr (.inr (target ▸ direct)))
    · exact .inr ⟨slot, plays_slot bridges (unmentioned slot here) here,
        leads_closedOver.mpr (.inr enters), leads_closedOver.mpr (.inr (target ▸ onward))⟩
  · -- Behind the merge the flow does not lead back into the body.
    intro child onward
    have off : child ∉ removed := fun back =>
      nests.acyclic ((Relation.TransGen.single onward).trans_left
        (hosts.reaches_last ((inside child).mpr (.inl back))))
    exact leads_closedOver.mpr (.inl ⟨joins.leads_iff.mpr (.inr (.inr (.inr ⟨rfl, onward⟩))),
      new closer closes, off⟩)

end Removal

/-! ### The deletion -/

omit hosts known in
/-- The head above names the joining head, and that is there. -/
theorem Joins.presentMerge?_eq (opens : opener ≠ "") :
    joined.presentMerge? limits head = some opener := by
  obtain ⟨node, -, pinned⟩ := joins.pinned
  exact presentMerge?_of_node? pinned rfl opens
    (joins.block.present opener (Item.first_mem_ids (.block opener arms closer)))

/-- The deletion of the head above takes out its body, and the joining head stays. -/
theorem Joins.exists_delete (nests : flow.Nests line) (covers : limits.Covers joined)
    (opens : opener ≠ "") (supply : Supply) : ∃ removed patch left,
      (∀ id, id ∈ removed ↔ id ∈ head :: laneIds lanes) ∧
      (Edit.delete head).run joined limits supply =
        .ok ({ flow := joined.closedOver removed patch, removed := joined.idsIn removed,
               added := patch.nodes.map (·.id) }, left) ∧
      ((∀ id ∈ patch.nodes.map (·.id), ¬ joined.Mentions id ∧ ¬ flow.Mentions id) →
        flow.Supplants (joined.closedOver removed patch) (.block head lanes merge)
          opener arms closer) := by
  obtain ⟨node, -, pinned⟩ := joins.pinned
  have headIn : head ∈ (Item.block head lanes merge).ids := Item.first_mem_ids _
  have old : head ∉ (Item.block opener arms closer).ids := fun new =>
    joins.unused head new (.inl (known head headIn))
  have plays := hosts.plays_ends.1
  have same := joins.roles old hosts.merge_ne_head.symm
  have isHead := (isHead_of_node? pinned).symm.trans (same.1.trans plays.1)
  have plain := (isMerge_of_node? pinned).symm.trans (same.2.trans plays.2)
  have apart : opener ≠ head := fun same =>
    old (same ▸ Item.first_mem_ids (.block opener arms closer))
  have planned : (Edit.delete head).plan joined limits = .ok (joined.removeBlock limits _ opener) :=
    plan_delete_head pinned isHead (joins.presentMerge?_eq opens) apart
  -- The joining head is a head, so it stays as what the flow goes on at.
  have shared : joined.sharesMerge opener (joined.body limits head opener) = true := by
    rw [sharesMerge, joins.block.opens.1]
    rfl
  have enough := (covers.edges_lt (mem_ids_of_node? pinned)).2
  have whole : ∀ id, id ∈ joined.body limits head opener ↔ id ∈ head :: laneIds lanes := fun id =>
    (mem_body_iff_around apart.symm enough).trans (joins.around_iff hosts known)
  rw [removeBlock, id_of_node?_eq_some pinned, plain, shared] at planned
  simp only [Role.isMerge, Bool.or_true, if_true] at planned
  refine ⟨joined.body limits head opener, _, _, whole, Edit.run_eq_ok_iff.mpr ⟨_, planned, rfl⟩, ?_⟩
  intro fresh
  refine joins.supplants hosts known nests whole (bridges_bridgeAll joined _ supply)
    (fun gap member => ?_) fresh fun into off => ?_
  · obtain ⟨goes, -, into⟩ := of_mem_gaps member
    exact ⟨List.mem_singleton.mp goes, into⟩
  · obtain ⟨gap, member, source, -⟩ := exists_gap into off (List.mem_singleton.mpr rfl)
    exact ⟨gap, member, source⟩

end Above

/-- Once the body above a joining head has gone, another head closes where it did if its block did
not hold the deleted one. Otherwise its block is closed at another node as well. -/
theorem Joins.closes_after_delete {other final : NodeId} {bundle : List Lane}
    (joins : flow.Joins joined head merge opener closer arms) (nests : flow.Nests line)
    (unnamed : ∀ node ∈ flow.nodes, node.content.mergeNodeId = none)
    (member : .block head lanes merge ∈ line.items)
    (inside : .block other bundle final ∈ line.items)
    (whole : ∀ id, id ∈ removed ↔ id ∈ head :: laneIds lanes)
    (supplants : flow.Supplants (joined.closedOver removed patch) (.block head lanes merge)
      opener arms closer)
    (fresh : ∀ id ∈ patch.nodes.map (·.id), ¬ flow.Mentions id)
    (room : limits.Covers (joined.closedOver removed patch))
    (survives : other ∈ (joined.closedOver removed patch).ids) :
    (head ∉ (Item.block other bundle final).ids →
      (joined.closedOver removed patch).merge? limits other = some final) ∧
    ((∃ early, early ≠ final ∧ (joined.closedOver removed patch).Closes other early) ↔
      head ∈ (Item.block other bundle final).ids) := by
  obtain ⟨inner, -⟩ := nests.hosts_of_mem_items member
  obtain ⟨hosts, known⟩ := nests.hosts_of_mem_items inside
  have opens : flow.isHead other = true := hosts.plays_ends.1.1
  have old : other ∈ flow.ids := mem_ids_of_isHead opens
  have unslotted : other ∉ patch.nodes.map (·.id) := fun slot => fresh other slot (.inl old)
  have stays : other ∉ removed := ((mem_ids_closedOver.mp survives).resolve_right unslotted).2
  have short : other ≠ merge := by
    rintro rfl
    exact absurd (joins.plays.1.symm.trans opens) Bool.false_ne_true
  have apart : other ≠ head := fun same => stays ((whole other).mpr (same ▸ List.mem_cons_self))
  have outside : other ∉ (Item.block head lanes merge).ids := by
    rw [Item.ids_block, List.mem_append, List.mem_singleton, ← whole]
    exact not_or.mpr ⟨stays, short⟩
  refine ⟨fun off => ?_, supplants.lowers.closes_early_iff hosts inner known outside nests⟩
  -- The head still names no merge, so the search says where it closes.
  have forgets : (joined.closedOver removed patch).rememberedMerge? other = none := by
    obtain ⟨node, found⟩ := Option.isSome_iff_exists.mp (has_iff_mem_ids.mpr old)
    have nameless := unnamed node (mem_of_node?_eq_some found)
    have still : joined.node? other = some node :=
      (joins.kept (fun new => joins.unused other new (.inl old)) short apart).trans found
    rw [rememberedMerge?, node?_closedOver still stays unslotted nameless, Option.bind_some,
      Content.rememberedMerge?, nameless]
    rfl
  rw [merge?_of_not_remembered forgets]
  exact (supplants.lowers.hosts hosts known (hosts.apart inner outside off)).searchMerge?_eq
    (room.edges_lt survives).1

end Flow

/-- A slot at which a block closes, and several edges come together, is filled with a block. Its
head, which is drawn first, becomes a join. -/
theorem Edit.exists_fill_join {flow : Flow} {context : Line.Context} {out : Option String}
    {rest : Line} {head merge : NodeId} {lanes : List Lane} {limits : Limits} {slot : Node}
    {kind : String} (nests : flow.Nests (context.plug (.cons (.block head lanes merge) out rest)))
    (covers : limits.Covers flow)
    (named : flow.NamesOwn (context.plug (.cons (.block head lanes merge) out rest)))
    (found : flow.node? merge = some slot) (waits : slot.content.isPlaceholder = true)
    (several : 1 < (flow.edgesTo merge).length) (opens : (BlockKind.ofName? kind).isSome)
    (label : Option String) (params : Option Json.Members) (branches : Option (List String))
    (supply : Supply) : ∃ change left arms,
      (fill merge kind label params branches).run flow limits supply = .ok (change, left) ∧
        (change.FreshFor flow →
          flow.Joins change.flow head merge (supply.upcoming 0) (supply.upcoming 1) arms) := by
  obtain ⟨block, known⟩ := Option.isSome_iff_exists.mp opens
  have entered : flow.edgesTo merge ≠ [] := by
    rw [← List.length_pos_iff]
    omega
  obtain ⟨names, slots, made, some', full⟩ :=
    NewStep.exists_makeBlock block label params branches supply
  refine ⟨_, _, block.lanes names slots, run_eq_ok_iff.mpr
    ⟨_, plan_fill_block found waits known entered, Fresh.run_map _ _ _⟩, fun fresh => ?_⟩
  rw [made] at fresh ⊢
  exact nests.joins_fillWithBlock covers named found several some' full fresh

namespace Session

variable {session filled last : Session} {line : Line} {head merge : NodeId} {lanes : List Lane}
  {kind : String} {label : Option String} {params : Option Json.Members}
  {branches : Option (List String)} {filling deletion : Except Refusal Change}

/-- In a well-nested flow in which no merge is named, a slot at which a block closes, and several
edges come together, is filled with a block. Then the block above is deleted. Both edits are made.
The head of another block closes where it did if its block did not hold the deleted one, and
otherwise its block is closed at another node as well. -/
theorem merge?_delete_above_join (nests : session.flow.Nests line)
    (covers : session.limits.Covers session.flow) (waiting : session.flow.Waiting)
    (unnamed : ∀ node ∈ session.flow.nodes, node.content.mergeNodeId = none)
    (member : .block head lanes merge ∈ line.items)
    (several : 1 < (session.flow.edgesTo merge).length)
    (opens : (BlockKind.ofName? kind).isSome) (nonempty : session.supply.upcoming 0 ≠ "")
    (fills : session.perform (.fill merge kind label params branches) = (filling, filled))
    (deletes : filled.perform (.delete head) = (deletion, last))
    (fresh : session.flow.DrawsFresh filling) (freshNext : filled.flow.DrawsFresh deletion)
    (freshToo : session.flow.DrawsFresh deletion) (room : session.limits.Covers filled.flow)
    (roomLast : session.limits.Covers last.flow) :
    (∃ change, filling = .ok change) ∧ (∃ change, deletion = .ok change) ∧
      ∀ other bundle final, .block other bundle final ∈ line.items → other ∈ last.flow.ids →
        (head ∉ (Item.block other bundle final).ids →
          last.flow.merge? last.limits other = session.flow.merge? session.limits other) ∧
        ((∃ early, early ≠ final ∧ last.flow.Closes other early) ↔
          head ∈ (Item.block other bundle final).ids) := by
  have named : session.flow.NamesOwn line := by
    intro node inside name names
    rw [unnamed node inside] at names
    cases names
  obtain ⟨hosts, known⟩ := nests.hosts_of_mem_items member
  obtain ⟨first, left, arms, done, joins⟩ : ∃ change left arms,
      (Edit.fill merge kind label params branches).run session.flow session.limits session.supply =
        .ok (change, left) ∧ (change.FreshFor session.flow →
          session.flow.Joins change.flow head merge (session.supply.upcoming 0)
            (session.supply.upcoming 1) arms) := by
    obtain ⟨context, out, rest, rfl⟩ := Line.exists_context_of_mem_items member
    obtain ⟨slot, found⟩ := Option.isSome_iff_exists.mp
      (Flow.has_iff_mem_ids.mpr nests.mem_ids_ends.2)
    have closes := (Flow.isMerge_of_node? found).symm.trans nests.plays_ends.2.2
    have waits := (waiting slot (Flow.mem_of_node?_eq_some found) closes).1
    exact Edit.exists_fill_join nests covers named found waits several opens label params branches _
  rw [perform_of_ok done, Prod.mk.injEq] at fills
  obtain ⟨rfl, rfl⟩ := fills
  have joins := joins fresh
  obtain ⟨removed, patch, rest, whole, doneToo, supplants⟩ :=
    joins.exists_delete hosts known nests room nonempty left
  rw [perform_of_ok doneToo, Prod.mk.injEq] at deletes
  obtain ⟨rfl, rfl⟩ := deletes
  refine ⟨⟨_, rfl⟩, ⟨_, rfl⟩, ?_⟩
  intro other bundle final inside survives
  have supplants := supplants fun id slot => ⟨freshNext.unused id slot, freshToo.unused id slot⟩
  obtain ⟨apart, early⟩ := joins.closes_after_delete nests unnamed member inside whole supplants
    freshToo.unused roomLast survives
  refine ⟨fun off => ?_, early⟩
  rw [apart off]
  obtain ⟨context, out, behind, rfl⟩ := Line.exists_context_of_mem_items inside
  exact (nests.merge?_eq covers named).symm

/-- A condition on each branch of a parallel step. -/
def twin : Session where
  flow := {
    nodes := [{ id := "outer", kind := some "parallel" },
      { id := "inner", kind := some "condition" }, .mergePlaceholder "close",
      { id := "side", kind := some "condition" }, .mergePlaceholder "shut",
      .mergePlaceholder "join", { id := "end", kind := some "end" }]
    edges := [.connect "outer" "inner" (some "A"), .connect "inner" "close" (some "true"),
      .connect "inner" "close" (some "false"), .connect "close" "join" none,
      .connect "outer" "side" (some "B"), .connect "side" "shut" (some "true"),
      .connect "side" "shut" (some "false"), .connect "shut" "join" none,
      .connect "join" "end" none] }
  supply := .numbered

/-- A condition with nothing on its branches. -/
def bareCondition (head merge : NodeId) : Item :=
  .block head [(some "true", .done), (some "false", .done)] merge

/-- The parallel step of the sample, with a condition on each branch. -/
def twinOuter : Item :=
  .block "outer" [(some "A", .cons (bareCondition "inner" "close") none .done),
    (some "B", .cons (bareCondition "side" "shut") none .done)] "join"

/-- The sequence of which the sample is the graph. -/
def twinLine : Line := .cons twinOuter none (.cons (.step "end") none .done)

/-- The merge of one condition is filled with a condition. -/
def twinFilled : Except Refusal Change × Session :=
  twin.perform (.fill "close" "condition" none none none)

/-- Then the condition above is deleted. -/
def twinDeleted : Except Refusal Change × Session := twinFilled.2.perform (.delete "inner")

/-- The other condition closes where it did, and the parallel step is closed early. -/
theorem merge?_delete_above_join_twin :
    twin.flow.Nests twinLine ∧ 1 < (twin.flow.edgesTo "close").length ∧
      (∃ change, twinFilled.1 = .ok change) ∧ (∃ change, twinDeleted.1 = .ok change) ∧
      twinDeleted.2.flow.merge? twinDeleted.2.limits "side" =
        twin.flow.merge? twin.limits "side" ∧
      ∃ early, early ≠ "join" ∧ twinDeleted.2.flow.Closes "outer" early := by
  have nests : twin.flow.Nests twinLine := by decide +kernel
  have several : 1 < (twin.flow.edgesTo "close").length := by decide +kernel
  have covers : twin.limits.Covers twin.flow := by decide +kernel
  have waiting : twin.flow.Waiting := by decide +kernel
  have unnamed : ∀ node ∈ twin.flow.nodes, node.content.mergeNodeId = none := by decide +kernel
  have fills : twin.perform (.fill "close" "condition" none none none) =
      (twinFilled.1, twinFilled.2) := rfl
  have deletes : twinFilled.2.perform (.delete "inner") = (twinDeleted.1, twinDeleted.2) := rfl
  have fresh : twin.flow.DrawsFresh twinFilled.1 := by decide +kernel
  have room : twin.limits.Covers twinFilled.2.flow := by decide +kernel
  have freshNext : twinFilled.2.flow.DrawsFresh twinDeleted.1 := by decide +kernel
  have freshToo : twin.flow.DrawsFresh twinDeleted.1 := by decide +kernel
  have roomLast : twin.limits.Covers twinDeleted.2.flow := by decide +kernel
  have members : ∀ item ∈ [bareCondition "inner" "close", bareCondition "side" "shut", twinOuter],
      item ∈ twinLine.items := by
    simp [twinLine, twinOuter, bareCondition, Line.items, Item.items, laneItems]
  obtain ⟨filled, deleted, others⟩ := merge?_delete_above_join nests covers waiting unnamed
    (members (bareCondition "inner" "close") (by simp)) several (by decide +kernel)
    (by decide +kernel) fills deletes fresh freshNext freshToo room roomLast
  refine ⟨nests, several, filled, deleted, ?_, ?_⟩
  · exact (others "side" _ "shut" (members (bareCondition "side" "shut") (by simp))
      (by decide +kernel)).1 (by decide +kernel)
  · exact (others "outer" _ "join" (members twinOuter (by simp)) (by decide +kernel)).2.mpr
      (by decide +kernel)

/-- After both edits another merge than before is found from the parallel step. -/
theorem not_merge?_delete_above_join_twin :
    twin.flow.Nests twinLine ∧
    twin.flow.Waiting ∧ (∀ node ∈ twin.flow.nodes, node.content.mergeNodeId = none) ∧
    1 < (twin.flow.edgesTo "close").length ∧
    twin.limits.Covers twin.flow ∧ twin.limits.Covers twinFilled.2.flow ∧
    twin.limits.Covers twinDeleted.2.flow ∧ twin.flow.DrawsFresh twinFilled.1 ∧
    twinFilled.2.flow.DrawsFresh twinDeleted.1 ∧ twin.flow.DrawsFresh twinDeleted.1 ∧
    (∃ change, twinFilled.1 = .ok change) ∧ (∃ change, twinDeleted.1 = .ok change) ∧
    "outer" ∈ twinDeleted.2.flow.ids ∧ twin.flow.merge? twin.limits "outer" = some "join" ∧
    twinDeleted.2.flow.merge? twinDeleted.2.limits "outer" = some "000000000002" :=
  ⟨by decide +kernel, by decide +kernel, by decide +kernel, by decide +kernel, by decide +kernel,
    by decide +kernel, by decide +kernel, by decide +kernel, by decide +kernel, by decide +kernel,
    ⟨_, rfl⟩, ⟨_, rfl⟩, by decide +kernel, by decide +kernel, by decide +kernel⟩

end Session

end Workflow
