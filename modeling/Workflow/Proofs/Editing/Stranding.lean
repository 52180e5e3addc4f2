import Workflow.Proofs.Editing.Bridging
import Workflow.Proofs.Editing.Trimming

/-!
# Deleting a block with stranded steps

Branches of a block were cut off, and then the block is deleted. If steps were stranded, they
still lead to the merge of the block. The deletion takes the merge for one that is shared, and
leaves it behind without its head. If nothing was stranded, the block goes as a whole.

## Main definitions

* `Flow.Strands` — a branch that is cut off holds a node that stays

## Main results

* `Trims.mem_around_of_kept`, `Trims.not_around_of_dropped` — what is reached from the head
* `Trims.sharesMerge_iff` — the merge is shared if and only if something is stranded
* `Trims.lowers_bridgeAll` — with stranded steps, the deletion leaves a merge behind
* `Trims.skips_bridgeAll` — with none, it leaves nothing of the block
-/

namespace Workflow

namespace Flow

/-- A branch for which no name is left holds a node that is not taken out. -/
def Strands (flow : Flow) (head merge : NodeId) (names : List String) : Prop :=
  ∃ edge ∈ (flow.branchEdges head).drop names.length, edge.target ≠ merge ∧
    ∃ id, flow.Around merge edge.target id ∧ id ∉ flow.surplusSlots head names

variable {flow trimmed : Flow} {line : Line} {head merge id child : NodeId} {lanes : List Lane}
  {lane : Lane} {names : List String} {limits : Limits}

section Block

variable (trims : flow.Trims trimmed head names) (nests : flow.Nests line)
  (block : .block head lanes merge ∈ line.items)
include trims nests block

/-! ### The branches of the block -/

section Lane

variable (member : lane ∈ lanes)
include member

/-- From a node of a branch that stays, edges that stay lead to the merge. -/
theorem Trims.exists_leads_merge (stays : merge ∉ flow.surplusSlots head names)
    (here : id ∈ lane.2.ids) (off : id ∉ flow.surplusSlots head names) :
    ∃ last ∈ lane.2.ids, trimmed.Leads last merge ∧
      Relation.ReflTransGen trimmed.Leads id last := by
  obtain ⟨hosts, -⟩ := nests.hosts_of_mem_items block
  have path : Relation.ReflTransGen flow.Leads id merge :=
    hosts.reaches_last (hosts.mem_ids_of_lane member here).1
  induction path using Relation.ReflTransGen.head_induction_on with
  | refl => exact absurd rfl (hosts.mem_ids_of_lane member here).2.2
  | @head id child leads _ ih =>
    obtain ⟨-, below, -⟩ := hosts.mem_ids_of_lane member here
    rcases hosts.lane_onward member here leads with inside | rfl
    · have kept : child ∉ flow.surplusSlots head names :=
        nests.notMem_surplusSlots block leads below (hosts.mem_ids_of_lane member inside).2.2
      obtain ⟨last, ends, onward, path⟩ := ih inside kept
      exact ⟨last, ends, onward, .head (trims.leads leads below off kept) path⟩
    · exact ⟨id, here, trims.leads leads below off stays, .refl⟩

variable (begins : lane.2.entrance none = some child)
include begins

/-- A branch that is not dropped stays as a whole, and is reached from the head. -/
theorem Trims.mem_around_of_kept (kept : ¬ flow.Drops head names.length child)
    (here : id ∈ lane.2.ids) :
    id ∉ flow.surplusSlots head names ∧ trimmed.Around merge head id := by
  obtain ⟨hosts, -⟩ := nests.hosts_of_mem_items block
  have around := (hosts.around_entrance_iff member begins).mpr here
  induction around with
  | refl =>
    have leads := hosts.leads_entrance member begins
    have on := (leadsOn_or_drops names.length leads).resolve_right kept
    have off : child ∉ flow.surplusSlots head names := fun cut =>
      kept (drops_of_mem_surplusSlots cut)
    exact ⟨off, .single
      ⟨trims.leads_iff.mpr ⟨on, nests.head_notMem_surplusSlots block, off⟩,
      (hosts.mem_ids_of_lane member here).2.2⟩⟩
  | @tail id next path leads ih =>
    have before := (hosts.around_entrance_iff member begins).mp path
    obtain ⟨offToo, reached⟩ := ih before
    have below := (hosts.mem_ids_of_lane member before).2.1
    have off : next ∉ flow.surplusSlots head names :=
      nests.notMem_surplusSlots block leads.1 below leads.2
    exact ⟨off, reached.tail ⟨trims.leads leads.1 below offToo off, leads.2⟩⟩

/-- A branch that is dropped is not reached from the head any more. -/
theorem Trims.not_around_of_dropped (drops : flow.Drops head names.length child)
    (here : id ∈ lane.2.ids) : ¬ trimmed.Around merge head id := by
  obtain ⟨hosts, -⟩ := nests.hosts_of_mem_items block
  intro around
  induction around with
  | refl => exact (hosts.mem_ids_of_lane member here).2.1 rfl
  | @tail id next _ leads ih =>
    rcases hosts.lane_inward member here (trims.leads_of leads.1) with inside | ⟨rfl, same⟩
    · exact ih inside
    · rw [begins] at same
      obtain rfl := Option.some.inj same
      exact nests.not_leadsOn block drops leads.2 (trims.leads_iff.mp leads.1).1

end Lane

/-- What is still reached from the head is the head, or on a branch. -/
theorem Trims.mem_of_around (around : trimmed.Around merge head id) :
    id ∈ head :: laneIds lanes := by
  obtain ⟨hosts, -⟩ := nests.hosts_of_mem_items block
  exact hosts.around_iff.mp
    (around.lift (fun node => node) fun _ _ step => ⟨trims.leads_of step.1, step.2⟩)

/-- The head still leads to the merge, if a branch has a name and the merge stays. -/
theorem Trims.reaches_merge (stays : merge ∉ flow.surplusSlots head names) (named : names ≠ [])
    (fewer : names.length < (flow.branchEdges head).length) :
    Relation.ReflTransGen trimmed.Leads head merge := by
  obtain ⟨hosts, -⟩ := nests.hosts_of_mem_items block
  have some' : 0 < ((flow.branchEdges head).take names.length).length := by
    have positive := List.length_pos_iff.mpr named
    rw [List.length_take]
    omega
  obtain ⟨edge, first⟩ := List.exists_mem_of_length_pos some'
  obtain ⟨known, source⟩ := source_of_mem_branchEdges (List.mem_of_mem_take first)
  have on : flow.LeadsOn head names.length head edge.target := .inr ⟨edge, first, source, rfl⟩
  have begins : head ∉ flow.surplusSlots head names := nests.head_notMem_surplusSlots block
  by_cases short : edge.target = merge
  · exact .single (trims.leads_iff.mpr ⟨short ▸ on, begins, stays⟩)
  · have off : edge.target ∉ flow.surplusSlots head names := fun cut =>
      nests.not_leadsOn block (drops_of_mem_surplusSlots cut) short on
    obtain ⟨lane, member, entrance⟩ := hosts.exists_lane_of_leads on.leads short
    obtain ⟨last, -, onward, path⟩ := trims.exists_leads_merge nests block member stays
      (Line.mem_ids_of_entrance entrance) off
    exact .head (trims.leads_iff.mpr ⟨on, begins, off⟩) (path.tail onward)

/-! ### Stranded steps -/

/-- Something is stranded if and only if the merge is still entered from what is not reached from
the head. -/
theorem Trims.strands_iff (stays : merge ∉ flow.surplusSlots head names) :
    flow.Strands head merge names ↔
      ∃ last, trimmed.Leads last merge ∧ ¬ trimmed.Around merge head last := by
  obtain ⟨hosts, -⟩ := nests.hosts_of_mem_items block
  constructor
  · rintro ⟨edge, beyond, short, id, around, off⟩
    have drops : flow.Drops head names.length edge.target := ⟨edge, beyond, rfl⟩
    obtain ⟨lane, member, begins⟩ := hosts.exists_lane_of_leads drops.leads short
    have here := (hosts.around_entrance_iff member begins).mp around
    obtain ⟨last, ends, onward, -⟩ := trims.exists_leads_merge nests block member stays here off
    exact ⟨last, onward, trims.not_around_of_dropped nests block member begins drops ends⟩
  · rintro ⟨last, onward, unreached⟩
    -- What leads to the merge is on a branch, and that is one of those dropped.
    obtain ⟨lane, member, here⟩ : ∃ lane ∈ lanes, last ∈ lane.2.ids := by
      obtain ⟨wire, along, rfl, -⟩ := hosts.inward (Item.last_mem_ids (.block head lanes merge))
        hosts.merge_ne_head (trims.leads_of onward)
      have inside := Item.source_mem_ids along
      have short := Item.source_ne_last hosts.distinct along
      rw [Item.ids_block, List.mem_append, List.mem_singleton, List.mem_cons] at inside
      have below : wire.source ≠ head := fun same => unreached (same ▸ .refl)
      exact mem_laneIds.mp ((inside.resolve_right short).resolve_left below)
    obtain ⟨first, begins⟩ := Line.exists_entrance here
    have drops : flow.Drops head names.length first := by
      by_contra kept
      exact unreached (trims.mem_around_of_kept nests block member begins kept here).2
    obtain ⟨edge, beyond, rfl⟩ := drops
    exact ⟨edge, beyond, (hosts.mem_ids_of_lane member (Line.mem_ids_of_entrance begins)).2.2, last,
      (hosts.around_entrance_iff member begins).mpr here, (trims.leads_iff.mp onward).2.1⟩

/-- If nothing is stranded, each node of the block is cut off, still reached from the head, or the
merge. -/
theorem Trims.mem_cases_of_not_strands (clean : ¬ flow.Strands head merge names)
    (inside : id ∈ (Item.block head lanes merge).ids) :
    id ∈ flow.surplusSlots head names ∨ trimmed.Around merge head id ∨ id = merge := by
  obtain ⟨hosts, -⟩ := nests.hosts_of_mem_items block
  rw [Item.ids_block, List.mem_append, List.mem_singleton, List.mem_cons] at inside
  rcases inside with (rfl | onLane) | rfl
  · exact .inr (.inl .refl)
  · obtain ⟨lane, member, here⟩ := mem_laneIds.mp onLane
    obtain ⟨first, begins⟩ := Line.exists_entrance here
    by_cases drops : flow.Drops head names.length first
    · left
      by_contra off
      obtain ⟨edge, beyond, rfl⟩ := drops
      exact clean ⟨edge, beyond,
        (hosts.mem_ids_of_lane member (Line.mem_ids_of_entrance begins)).2.2, id,
        (hosts.around_entrance_iff member begins).mpr here, off⟩
    · exact .inr (.inl (trims.mem_around_of_kept nests block member begins drops here).2)
  · exact .inr (.inr rfl)

/-- The merge is shared with what is outside the body if and only if something is stranded. -/
theorem Trims.sharesMerge_iff (stays : merge ∉ flow.surplusSlots head names) {body : List NodeId}
    (whole : ∀ id, id ∈ body ↔ trimmed.Around merge head id) :
    trimmed.sharesMerge merge body = true ↔ flow.Strands head merge names := by
  obtain ⟨hosts, -⟩ := nests.hosts_of_mem_items block
  have closed : trimmed.isHead merge = false := (trims.roles stays).1.trans hosts.plays_ends.2.1
  have nameless : trimmed.nodes.any (fun other =>
      other.id ∉ body ∧ other.isHead ∧ other.content.mergeNodeId = some merge) = false := by
    rw [List.any_eq_false]
    intro other inside
    simp [trims.unnamed other inside]
  rw [sharesMerge, closed, nameless, Bool.false_or, Bool.false_or, List.any_eq_true,
    trims.strands_iff nests block stays]
  constructor
  · rintro ⟨edge, into, outside⟩
    obtain ⟨known, target⟩ := mem_edgesTo.mp into
    exact ⟨edge.source, ⟨edge, known, rfl, target⟩,
      fun around => of_decide_eq_true outside ((whole _).mpr around)⟩
  · rintro ⟨_, ⟨edge, known, rfl, target⟩, unreached⟩
    exact ⟨edge, mem_edgesTo.mpr ⟨known, target⟩,
      decide_eq_true fun inside => unreached ((whole _).mp inside)⟩

/-! ### What the deletion leaves -/

section Removal

variable {patch : Patch} {gaps : List Gap} {removed : List NodeId}
  (within : ∀ id ∈ removed, id ∈ (Item.block head lanes merge).ids) (bridges : patch.Bridges gaps)
  (ends : ∀ gap ∈ gaps, gap.edge.source ∉ removed ∧ trimmed.Leads gap.edge.source head)
  (fresh : ∀ id ∈ patch.nodes.map (·.id), ¬ flow.Mentions id)
include within bridges ends fresh

/-- Around the block, closing the gaps leaves edges and roles as they were. -/
theorem Trims.frames_closedOver
    (targets : ∀ gap ∈ gaps, gap.target = merge ∨ flow.Leads merge gap.target) :
    flow.Frames (trimmed.closedOver removed patch) (.block head lanes merge) where
  roles known outside := by
    have old := fun slot => fresh _ slot (.inl known)
    obtain ⟨hhead, hmerge⟩ := roles_closedOver (fun gone => outside (within _ gone)) old
    have same := (trims.frames nests block).roles known outside
    exact ⟨hhead.trans same.1, hmerge.trans same.2⟩
  kept leads outside off := leads_closedOver.mpr (.inl
    ⟨(trims.frames nests block).kept leads outside off, fun gone => outside (within _ gone),
      fun gone => off (within _ gone)⟩)
  leads_cases {id child} leads := by
    rcases leads_closedOver.mp leads with ⟨along, -, -⟩ | connects
    · exact .inl (trims.leads_of along)
    · right
      obtain ⟨gap, member, cases⟩ := bridges.connects_cases connects
      have goes : flow.Mentions gap.target → gap.target ∉ (Item.block head lanes merge).ids →
          flow.Leads merge gap.target := by
        intro _ off
        refine (targets gap member).resolve_left fun same => off ?_
        rw [same]
        exact Item.last_mem_ids (.block head lanes merge)
      rcases cases with ⟨rfl, target⟩ | ⟨slot, rfl⟩
      · refine ⟨fun _ _ => trims.leads_of (ends gap member).2, ?_⟩
        rcases target with rfl | slot
        · exact goes
        · exact fun old => absurd old (fresh child slot)
      · exact ⟨fun old => absurd old (fresh id slot), goes⟩

/-- If the body is taken out and the merge stays, the flow is left one level too low. -/
theorem Trims.lowers (stays : merge ∉ flow.surplusSlots head names) (keeps : merge ∉ removed)
    (targets : ∀ gap ∈ gaps, gap.target = merge)
    (entered : ∀ {id}, trimmed.Leads id head → id ∉ removed → ∃ gap ∈ gaps, gap.edge.source = id) :
    flow.Lowers (trimmed.closedOver removed patch) (.block head lanes merge) merge := by
  obtain ⟨hosts, known⟩ := nests.hosts_of_mem_items block
  have present : merge ∈ flow.ids := known merge (Item.last_mem_ids (.block head lanes merge))
  have unslotted : ∀ id ∈ patch.nodes.map (·.id), id ∉ trimmed.ids := fun id slot old =>
    fresh id slot (.inl (trims.ids.mp old).1)
  refine ⟨trims.frames_closedOver nests block within bridges ends fresh
    fun gap member => .inl (targets gap member), ?_, fun _ => Item.last_mem_ids _, ?_, ?_⟩
  · obtain ⟨hhead, hmerge⟩ := trims.roles stays
    have plays : trimmed.Plays merge .merge :=
      ⟨hhead.trans hosts.plays_ends.2.1, hmerge.trans hosts.plays_ends.2.2⟩
    exact plays.closedOver keeps fun slot => fresh merge slot (.inl present)
  · -- The gap behind an edge into the head is closed by an edge or through a slot.
    intro id into outside
    obtain ⟨gap, member, rfl⟩ := entered (trims.leads_head nests block into outside)
      fun gone => outside (within _ gone)
    obtain target := targets gap member
    rcases bridges.crosses gap member with direct | ⟨slot, here, enters, onward⟩
    · exact ⟨merge, leads_closedOver.mpr (.inr (target ▸ direct)), .refl⟩
    · have level : (trimmed.closedOver removed patch).rise slot = 0 :=
        (plays_slot bridges (unslotted slot here) here).rise_eq
      exact ⟨slot, leads_closedOver.mpr (.inr enters),
        .single ⟨level, leads_closedOver.mpr (.inr (target ▸ onward))⟩⟩
  · intro child onward
    have off := nests.notMem_behind hosts onward
    exact leads_closedOver.mpr (.inl ⟨trims.leads_behind nests block stays onward, keeps,
      fun gone => off (within child gone)⟩)

/-- If the whole block is taken out or cut off, the flow goes on behind it. -/
theorem Trims.skips
    (gone : ∀ id ∈ (Item.block head lanes merge).ids,
      id ∈ flow.surplusSlots head names ∨ id ∈ removed)
    (targets : ∀ gap ∈ gaps, flow.Leads merge gap.target)
    (entered : ∀ {id child}, trimmed.Leads id head → id ∉ removed → flow.Leads merge child →
      ∃ gap ∈ gaps, gap.edge.source = id ∧ gap.target = child) :
    flow.Skips (trimmed.closedOver removed patch) (.block head lanes merge) := by
  obtain ⟨hosts, known⟩ := nests.hosts_of_mem_items block
  have unslotted : ∀ id ∈ patch.nodes.map (·.id), id ∉ trimmed.ids := fun id slot old =>
    fresh id slot (.inl (trims.ids.mp old).1)
  have apart : ∀ id ∈ patch.nodes.map (·.id), id ∉ (Item.block head lanes merge).ids :=
    fun id slot inside => fresh id slot (.inl (known id inside))
  -- What has an edge that stays is neither cut off nor taken out.
  have off : ∀ {id}, id ∉ flow.surplusSlots head names → id ∉ removed →
      id ∉ (Item.block head lanes merge).ids := fun here there inside =>
    (gone _ inside).elim here there
  refine ⟨trims.frames_closedOver nests block within bridges ends fresh
    fun gap member => .inr (targets gap member), ?_, ?_, ?_⟩
  · intro id child leads
    rcases leads_closedOver.mp leads with ⟨along, here, there⟩ | connects
    · obtain ⟨-, cut, cutToo⟩ := trims.leads_iff.mp along
      exact ⟨off cut here, off cutToo there⟩
    · obtain ⟨gap, member, cases⟩ := bridges.connects_cases connects
      have goes := nests.notMem_behind hosts (targets gap member)
      rcases cases with ⟨rfl, rfl | slot⟩ | ⟨slot, rfl⟩
      · obtain ⟨stays, into⟩ := ends gap member
        exact ⟨off (trims.leads_iff.mp into).2.1 stays, goes⟩
      · obtain ⟨stays, into⟩ := ends gap member
        exact ⟨off (trims.leads_iff.mp into).2.1 stays, apart child slot⟩
      · exact ⟨apart id slot, goes⟩
  · intro id new
    by_cases slot : id ∈ patch.nodes.map (·.id)
    · exact plays_slot bridges (unslotted id slot) slot
    · refine plays_of_notMem_ids fun inside => ?_
      obtain ⟨old, -⟩ := (mem_ids_closedOver.mp inside).resolve_right slot
      exact new (.inl (trims.ids.mp old).1)
  · intro id child into outside onward
    obtain ⟨gap, member, rfl, rfl⟩ := entered (trims.leads_head nests block into outside)
      (fun gone => outside (within _ gone)) onward
    rcases bridges.crosses gap member with direct | ⟨slot, -, enters, goes⟩
    · exact .inl (leads_closedOver.mpr (.inr direct))
    · exact .inr ⟨slot, leads_closedOver.mpr (.inr enters), leads_closedOver.mpr (.inr goes)⟩

end Removal

/-! ### The two deletions -/

section Bridges

variable {body : List NodeId} (whole : ∀ id, id ∈ body ↔ trimmed.Around merge head id)
include whole

/-- The body is in the block, and the merge is not in the body. -/
theorem Trims.mem_ids_of_body (inside : id ∈ body) :
    id ∈ (Item.block head lanes merge).ids ∧ id ≠ merge := by
  obtain ⟨hosts, -⟩ := nests.hosts_of_mem_items block
  have reached := trims.mem_of_around nests block ((whole id).mp inside)
  refine ⟨?_, ?_⟩
  · rw [Item.ids_block]
    exact List.mem_append_left _ reached
  · rintro rfl
    exact hosts.ends_notMem_laneIds.2 ((List.mem_cons.mp reached).resolve_left hosts.merge_ne_head)

variable (stays : merge ∉ flow.surplusSlots head names)
include stays

/-- Taking out the body and closing the gaps up to the merge leaves the flow one level too low. -/
theorem Trims.lowers_bridgeAll (supply : Supply) (fresh : ∀ id ∈ (StateT.run
      (trimmed.bridgeAll (trimmed.gaps body head [merge])) supply).1.nodes.map (·.id),
        ¬ flow.Mentions id) :
    flow.Lowers (trimmed.closedOver body
      (StateT.run (trimmed.bridgeAll (trimmed.gaps body head [merge])) supply).1)
        (.block head lanes merge) merge := by
  refine trims.lowers nests block
    (fun id inside => (trims.mem_ids_of_body nests block whole inside).1)
    (bridges_bridgeAll trimmed _ supply) (fun gap member => (of_mem_gaps member).2) fresh stays
    (fun inside => (trims.mem_ids_of_body nests block whole inside).2 rfl) ?_ ?_
  · exact fun gap member => List.mem_singleton.mp (of_mem_gaps member).1
  · intro id into off
    obtain ⟨gap, member, source, -⟩ := exists_gap into off (List.mem_singleton.mpr rfl)
    exact ⟨gap, member, source⟩

/-- If nothing is stranded, taking out the body with the merge and closing the gaps up to what is
behind it leaves nothing of the block. -/
theorem Trims.skips_bridgeAll (clean : ¬ flow.Strands head merge names) {targets : List NodeId}
    (supply : Supply)
    (goes : targets = (trimmed.children merge).filter (· ∉ body ++ [merge]))
    (fresh : ∀ id ∈ (StateT.run (trimmed.bridgeAll
      (trimmed.gaps (body ++ [merge]) head targets)) supply).1.nodes.map (·.id),
        ¬ flow.Mentions id) :
    flow.Skips (trimmed.closedOver (body ++ [merge])
      (StateT.run (trimmed.bridgeAll (trimmed.gaps (body ++ [merge]) head targets)) supply).1)
        (.block head lanes merge) := by
  obtain ⟨hosts, -⟩ := nests.hosts_of_mem_items block
  have within : ∀ id ∈ body ++ [merge], id ∈ (Item.block head lanes merge).ids := by
    intro id inside
    rcases List.mem_append.mp inside with inBody | last
    · exact (trims.mem_ids_of_body nests block whole inBody).1
    · rw [List.mem_singleton.mp last]
      exact Item.last_mem_ids (.block head lanes merge)
  -- The flow goes on at all that the merge led to.
  have onward : ∀ {child}, child ∈ targets ↔ flow.Leads merge child := by
    intro child
    rw [goes, List.mem_filter, ← leads_iff_mem_children, decide_eq_true_iff]
    constructor
    · exact fun ⟨leads, _⟩ => trims.leads_of leads
    · intro leads
      have off := nests.notMem_behind hosts leads
      exact ⟨trims.leads_behind nests block stays leads, fun gone => off (within child gone)⟩
  refine trims.skips nests block within (bridges_bridgeAll trimmed _ supply)
    (fun gap member => (of_mem_gaps member).2) fresh ?_ ?_ ?_
  · intro id inside
    rcases trims.mem_cases_of_not_strands nests block clean inside with cut | around | rfl
    · exact .inl cut
    · exact .inr (List.mem_append_left _ ((whole id).mpr around))
    · exact .inr (List.mem_append_right _ List.mem_cons_self)
  · exact fun gap member => onward.mp (of_mem_gaps member).1
  · exact fun into off leads => exists_gap into off (onward.mpr leads)

end Bridges

end Block

end Flow

end Workflow
