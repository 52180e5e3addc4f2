import Workflow.Proofs.Editing.Lookup

/-!
# What an edit of one item leaves as it is

An edit changes an item of a flow, and around the item edges and roles stay as they are. Heads
whose blocks do not hold the item close where they did. What happens to a block around the item
depends on the level at which the flow goes on behind it. If the flow is left one level too low,
the block is closed early. If the item has gone with its level, the block closes where it did.

## Main definitions

* `Flow.Frames` — around an item edges and roles stay
* `Flow.LeadsLevel` — an edge along which the depth stays
* `Flow.Lowers` — in the place of an item a merge is left, without the head of a block
* `Flow.Skips` — an item has gone, and the flow goes on behind it

## Main results

* `Frames.hosts` — items apart from the changed one stay parts of the flow
* `Lowers.closes_early_iff` — the blocks that are closed early are those around the item
* `Skips.closes_iff`, `Skips.searchMerge?_eq` — each block closes where it did
-/

namespace Workflow

namespace Flow

/-- Around an item edges and roles stay as they are. A new edge starts where the item was entered
or at something new, and ends where the item led to or at something new. -/
structure Frames (flow after : Flow) (part : Item) : Prop where
  roles : ∀ {id}, id ∈ flow.ids → id ∉ part.ids →
    after.isHead id = flow.isHead id ∧ after.isMerge id = flow.isMerge id
  kept : ∀ {id child}, flow.Leads id child → id ∉ part.ids → child ∉ part.ids →
    after.Leads id child
  leads_cases : ∀ {id child}, after.Leads id child → flow.Leads id child ∨
    (flow.Mentions id → id ∉ part.ids → flow.Leads id part.first) ∧
      (flow.Mentions child → child ∉ part.ids → flow.Leads part.last child)

/-- An edge leads on from a node that leaves the depth as it is. -/
def LeadsLevel (flow : Flow) (source target : NodeId) : Prop :=
  flow.rise source = 0 ∧ flow.Leads source target

/-- In the place of an item a merge is left that closes no block of the item. From where the item
was entered the flow comes to that merge on one level, and it leads on to where the item led. -/
structure Lowers (flow after : Flow) (part : Item) (closer : NodeId) : Prop
    extends Frames flow after part where
  closes : after.Plays closer .merge
  inside : closer ∈ flow.ids → closer ∈ part.ids
  enters : ∀ {id}, flow.Leads id part.first → id ∉ part.ids → ∃ next, after.Leads id next ∧
    Relation.ReflTransGen after.LeadsLevel next closer
  onward : ∀ {child}, flow.Leads part.last child → after.Leads closer child

/-- An item has gone. From where it was entered the flow goes on to where it led, through a new
slot or not. -/
structure Skips (flow after : Flow) (part : Item) : Prop extends Frames flow after part where
  gone : ∀ {id child}, after.Leads id child → id ∉ part.ids ∧ child ∉ part.ids
  plain : ∀ {id}, ¬ flow.Mentions id → after.Plays id .step
  crosses : ∀ {id child}, flow.Leads id part.first → id ∉ part.ids → flow.Leads part.last child →
    after.Leads id child ∨ ∃ slot, after.Leads id slot ∧ after.Leads slot child

variable {flow after : Flow} {part item : Item} {line : Line} {closer other final id : NodeId}
  {bundle : List Lane} {above depth : Int} {limits : Limits}

/-- Below a depth of one or more, a walk goes on along edges that leave the depth as it is. -/
theorem Arrives.along {start child : NodeId} (h : flow.Arrives start id above) (deep : 1 ≤ above)
    (path : Relation.ReflTransGen flow.LeadsLevel id child) : flow.Arrives start child above := by
  induction path with
  | refl => exact h
  | tail _ step ih =>
    have onward := ih.next (.of_pos (by rw [step.1]; omega)) step.2
    rwa [step.1, Int.add_zero] at onward

/-! ### Two items of a flow -/

/-- If the head of a block is outside an item, and the item does not begin in the block, they have
no node in common. -/
theorem Hosts.apart (hosts : flow.Hosts (.block other bundle final)) (inner : flow.Hosts part)
    (outside : other ∉ part.ids) (off : part.first ∉ (Item.block other bundle final).ids) :
    ∀ id ∈ (Item.block other bundle final).ids, id ∉ part.ids := by
  -- A walk from the head would have to enter the item at its first node.
  have along : ∀ {id above}, flow.Arrives other id above → id ∉ part.ids := by
    intro id above arrives
    induction arrives with
    | start => exact outside
    | @next id child above before isOpen leads ih =>
      intro inside
      have here := (hosts.charts.stands_of_arrives (before.next isOpen leads)).mem_ids
      have apart : child ≠ part.first := fun same => off (same ▸ here)
      obtain ⟨wire, member, rfl, -⟩ := inner.inward inside apart leads
      exact ih (Item.source_mem_ids member)
  intro id inside
  obtain ⟨spot, member, rfl⟩ := Item.exists_spot_of_mem_ids 0 inside
  exact along (hosts.arrives (Int.le_refl 0) .start member)

/-- An item that begins in a block, but not with its head, stands in it with all its nodes. -/
theorem Hosts.stands_of_first (hosts : flow.Hosts (.block other bundle final))
    (inner : flow.Hosts part) (inside : part.first ∈ (Item.block other bundle final).ids)
    (apart : part.first ≠ other) : ∃ depth, 1 ≤ depth ∧ flow.Arrives other part.first depth ∧
      ∀ spot ∈ part.spots depth, (Item.block other bundle final).Stands spot.id spot.above := by
  obtain ⟨spot, member, same⟩ := Item.exists_spot_of_mem_ids 0 inside
  have deep := one_le_above_of_mem_block member (same ▸ apart)
  have first := hosts.arrives (Int.le_refl 0) .start member
  rw [same] at first
  exact ⟨spot.above, deep, first, fun spot here =>
    hosts.charts.stands_of_arrives (inner.arrives (by omega) first here)⟩

/-- The merge of a block is not in an item that begins in the block, but not with its head. It
stands less deep than what is below a merge in the item. -/
theorem Hosts.last_notMem (hosts : flow.Hosts (.block other bundle final))
    (inner : flow.Hosts part) (inside : part.first ∈ (Item.block other bundle final).ids)
    (apart : part.first ≠ other) : final ∉ part.ids := by
  obtain ⟨depth, deep, -, stands⟩ := hosts.stands_of_first inner inside apart
  have lastStands : (Item.block other bundle final).Stands final (0 + 1) :=
    ⟨⟨final, .merge, 0 + 1⟩, Item.merge_mem_spots, rfl, rfl⟩
  have lastRise : flow.rise final = -1 := hosts.plays_ends.2.rise_eq
  intro here
  obtain ⟨spot, member, rfl⟩ := Item.exists_spot_of_mem_ids depth here
  have level := hosts.charts.unique (stands spot member) lastStands
  have low := (le_of_mem_item_spots member).2
  have rises := ((inner.fits_at depth).plays spot member).rise_eq
  rw [Spot.below] at low
  omega

/-- Where an item leads to stands in a block as deep as the item itself. -/
theorem Hosts.stands_behind (hosts : flow.Hosts (.block other bundle final))
    (inner : flow.Hosts part) (here : (Item.block other bundle final).Stands part.first above)
    (apart : part.first ≠ other) (leads : flow.Leads part.last id) :
    (Item.block other bundle final).Stands id above := by
  obtain ⟨depth, deep, first, stands⟩ := hosts.stands_of_first inner here.mem_ids apart
  obtain rfl := hosts.charts.unique here (hosts.charts.stands_of_arrives first)
  obtain ⟨spot, member, same, below⟩ := part.exists_last_spot above
  have rises := ((inner.fits_at above).plays spot member).rise_eq
  have last := stands spot member
  rw [same] at last rises
  have short : part.last ≠ final := fun same =>
    hosts.last_notMem inner here.mem_ids apart (same ▸ part.last_mem_ids)
  have onward := hosts.charts.onward last (hosts.openAt last short) leads
  rwa [rises, ← Spot.below, below] at onward

/-! ### Blocks that do not hold the item -/

namespace Frames

variable (frames : flow.Frames after part)
include frames

/-- An item apart from the changed one stays a part of the flow. -/
theorem hosts (hosts : flow.Hosts item) (known : ∀ id ∈ item.ids, id ∈ flow.ids)
    (apart : ∀ id ∈ item.ids, id ∉ part.ids) : after.Hosts item := by
  have first : part.first ∉ item.ids := fun inside => apart _ inside part.first_mem_ids
  have last : part.last ∉ item.ids := fun inside => apart _ inside part.last_mem_ids
  refine ⟨⟨?_, ?_, hosts.fits.forked⟩, hosts.distinct, ?_, ?_⟩
  · intro wire member
    exact frames.kept (hosts.fits.leads wire member)
      (apart _ (Item.source_mem_ids member)) (apart _ (Item.target_mem_ids member))
  · intro spot member
    have inside := Item.id_mem_ids_of_mem_spots member
    obtain ⟨hhead, hmerge⟩ := frames.roles (known _ inside) (apart _ inside)
    have plays := hosts.fits.plays spot member
    exact ⟨hhead.trans plays.1, hmerge.trans plays.2⟩
  · -- A new edge out of the item would start where the other item was entered.
    intro id child inside short leads
    rcases frames.leads_cases leads with before | ⟨into, -⟩
    · exact hosts.onward inside short before
    · obtain ⟨wire, member, -, target⟩ :=
        hosts.onward inside short (into (.inl (known _ inside)) (apart _ inside))
      exact absurd (target ▸ Item.target_mem_ids member) first
  · -- A new edge into the item would end where the other item led.
    intro id child inside apartFirst leads
    rcases frames.leads_cases leads with before | ⟨-, out⟩
    · exact hosts.inward inside apartFirst before
    · obtain ⟨wire, member, source, -⟩ :=
        hosts.inward inside apartFirst (out (.inl (known _ inside)) (apart _ inside))
      exact absurd (source ▸ Item.source_mem_ids member) last

theorem rise_eq (known : id ∈ flow.ids) (outside : id ∉ part.ids) :
    after.rise id = flow.rise id :=
  rise_congr (frames.roles known outside)

theorem closesAt_iff (known : id ∈ flow.ids) (outside : id ∉ part.ids) :
    after.ClosesAt id above ↔ flow.ClosesAt id above :=
  closesAt_congr (frames.roles known outside)

theorem openAt_iff (known : id ∈ flow.ids) (outside : id ∉ part.ids) :
    after.OpenAt id above ↔ flow.OpenAt id above :=
  openAt_congr (frames.roles known outside)

/-- The head of a block that stays is a head, and no merge. -/
theorem plays_other (hosts : flow.Hosts (.block other bundle final)) (known : other ∈ flow.ids)
    (outside : other ∉ part.ids) : after.Plays other .head := by
  obtain ⟨hhead, hmerge⟩ := frames.roles known outside
  have plays := hosts.plays_ends.1
  exact ⟨hhead.trans plays.1, hmerge.trans plays.2⟩

end Frames

/-! ### A merge in the place of the item -/

namespace Lowers

variable (lowers : flow.Lowers after part closer)
include lowers

section Around

variable (hosts : flow.Hosts (.block other bundle final)) (inner : flow.Hosts part)
  (known : ∀ id ∈ (Item.block other bundle final).ids, id ∈ flow.ids) (outside : other ∉ part.ids)
include hosts inner known outside

/-- A walk of the old flow is one of the new flow, until it comes to the item. Then the walk of
the new flow comes to the merge in its place. -/
theorem arrives_or_closer (h : flow.Arrives other id above) :
    id ∉ part.ids ∧ after.Arrives other id above ∨
      ∃ depth, flow.Arrives other part.first depth ∧ after.Arrives other closer depth := by
  have plays := lowers.plays_other hosts (known other (Item.first_mem_ids _)) outside
  induction h with
  | start => exact .inl ⟨outside, .start⟩
  | @next id child above before isOpen leads ih =>
    rcases ih with ⟨off, arrives⟩ | entered
    · have here := known id (hosts.charts.stands_of_arrives before).mem_ids
      have stillOpen := (lowers.openAt_iff here off).mpr isOpen
      by_cases inside : child ∈ part.ids
      · right
        obtain rfl : child = part.first := by
          by_contra apart
          obtain ⟨wire, member, rfl, -⟩ := inner.inward inside apart leads
          exact off (Item.source_mem_ids member)
        refine ⟨_, before.next isOpen leads, ?_⟩
        rw [← lowers.rise_eq here off]
        obtain ⟨next, into, path⟩ := lowers.enters leads off
        have deep := arrives.one_le_below stillOpen plays.1 plays.2
        exact (arrives.next stillOpen into).along deep path
      · left
        rw [← lowers.rise_eq here off]
        exact ⟨inside, arrives.next stillOpen (lowers.kept leads off inside)⟩
    · exact .inr entered

omit inner in
/-- A walk does not come to the merge of a block one less deep than the merge stands, since it is
open only above that. -/
theorem ne_last_of_arrives (here : (Item.block other bundle final).Stands id above)
    (arrives : after.Arrives other id (above - 1)) : id ≠ final := by
  rintro rfl
  obtain ⟨hhead, hmerge⟩ :=
    lowers.plays_other hosts (known other (Item.first_mem_ids _)) outside
  obtain rfl : above = 0 + 1 :=
    hosts.charts.unique here ⟨⟨id, .merge, 0 + 1⟩, Item.merge_mem_spots, rfl, rfl⟩
  rcases arrives.one_le hhead hmerge with ⟨same, -⟩ | deep
  · exact hosts.merge_ne_head same
  · omega

omit outside in
/-- If nothing but its merge closes a block around the item, then the merge in the place of the
item does not close it. -/
theorem openAt_closer (only : ∀ {early}, after.Closes other early → early = final)
    (begins : (Item.block other bundle final).Stands part.first depth) (deep : 1 ≤ depth)
    (atCloser : after.Arrives other closer depth) (apart : part.first ≠ other) :
    after.OpenAt closer depth := by
  refine ⟨by rw [lowers.closes.rise_eq, Role.rise]; omega, fun closed => ?_⟩
  have closes : closer = final := only ⟨depth, atCloser, closed⟩
  have present := known final (Item.last_mem_ids (.block other bundle final))
  exact hosts.last_notMem inner begins.mem_ids apart
    (closes ▸ lowers.inside (closes ▸ present))

/-- If nothing but its merge closes a block around the item, then behind the item each node is
come to one less deep than it stands in the block. -/
theorem arrives_behind (nests : flow.Nests line)
    (only : ∀ {early}, after.Closes other early → early = final)
    (begins : (Item.block other bundle final).Stands part.first depth) (deep : 1 ≤ depth)
    (atCloser : after.Arrives other closer depth) (apart : part.first ≠ other)
    (path : Relation.ReflTransGen flow.Leads part.last id) :
    id = part.last ∨ id ∉ part.ids ∧ ∃ above,
      (Item.block other bundle final).Stands id above ∧ after.Arrives other id (above - 1) := by
  induction path with
  | refl => exact .inl rfl
  | @tail id child path leads ih =>
    right
    -- Edges do not lead back into the item.
    have off : child ∉ part.ids := fun inside =>
      nests.acyclic ((Relation.TransGen.tail' path leads).trans_left (inner.reaches_last inside))
    refine ⟨off, ?_⟩
    rcases ih with rfl | ⟨offToo, above, here, arrives⟩
    · -- The item was left as deep as it was entered, and the merge is left one less deep.
      have onward := hosts.stands_behind inner begins apart leads
      have isOpen := lowers.openAt_closer hosts inner known only begins deep atCloser apart
      have next := atCloser.next isOpen (lowers.onward leads)
      rw [lowers.closes.rise_eq] at next
      exact ⟨depth, onward, next⟩
    · have present := known id here.mem_ids
      have short := lowers.ne_last_of_arrives hosts known outside here arrives
      have onward := hosts.charts.onward here (hosts.openAt here short) leads
      obtain ⟨spot, member, rfl, rfl⟩ := here
      have low := one_le_below_of_mem_block member short
      have rises := (hosts.fits.plays spot member).rise_eq
      have level := lowers.rise_eq present offToo
      rw [Spot.below] at low
      have isOpen : after.OpenAt spot.id (spot.above - 1) :=
        ⟨by omega, fun closed => short (only ⟨_, arrives, closed⟩)⟩
      have next := arrives.next isOpen (lowers.kept leads offToo off)
      refine ⟨_, onward, ?_⟩
      rw [level] at next
      convert next using 1
      omega

/-- A block around the item is closed early, at another node than its merge. -/
theorem exists_closes (nests : flow.Nests line)
    (inside : part.first ∈ (Item.block other bundle final).ids) :
    ∃ early, early ≠ final ∧ after.Closes other early := by
  by_contra never
  have only : ∀ {early}, after.Closes other early → early = final := fun closes =>
    by_contra fun apart => never ⟨_, apart, closes⟩
  have apart : part.first ≠ other := fun same => outside (same ▸ part.first_mem_ids)
  obtain ⟨depth, deep, first, stands⟩ := hosts.stands_of_first inner inside apart
  have begins := hosts.charts.stands_of_arrives first
  have short : part.last ≠ final := fun same =>
    hosts.last_notMem inner inside apart (same ▸ part.last_mem_ids)
  -- The walk comes to the merge in the place of the item as deep as it came to the item.
  obtain ⟨level, entered, arrives⟩ : ∃ depth, flow.Arrives other part.first depth ∧
      after.Arrives other closer depth :=
    (lowers.arrives_or_closer hosts inner known outside first).resolve_left
      fun stays => stays.1 part.first_mem_ids
  obtain rfl : level = depth := hosts.charts.unique (hosts.charts.stands_of_arrives entered) begins
  have inBlock : part.last ∈ (Item.block other bundle final).ids := by
    obtain ⟨spot, member, same, -⟩ := part.exists_last_spot level
    exact same ▸ (stands spot member).mem_ids
  rcases lowers.arrives_behind hosts inner known outside nests only begins deep arrives apart
    (hosts.reaches_last inBlock) with same | ⟨-, above, here, arrivesLast⟩
  · exact short same.symm
  · exact lowers.ne_last_of_arrives hosts known outside here arrivesLast rfl

/-- A block is closed at another node than its merge if and only if it held the item. -/
theorem closes_early_iff (nests : flow.Nests line) :
    (∃ early, early ≠ final ∧ after.Closes other early) ↔
      part.first ∈ (Item.block other bundle final).ids := by
  constructor
  · rintro ⟨early, apart, closes⟩
    by_contra off
    have still := lowers.hosts hosts known (hosts.apart inner outside off)
    exact apart ((still.closes_iff early).mp closes)
  · exact lowers.exists_closes hosts inner known outside nests

end Around

end Lowers

/-! ### Nothing in the place of the item -/

/-- Where the nodes of a flow stand in a block once an item in it has gone: those around the item
where they stood, and what is new where the item began. -/
def StandsWithout (flow : Flow) (part block : Item) (id : NodeId) (above : Int) : Prop :=
  flow.Mentions id ∧ id ∉ part.ids ∧ block.Stands id above ∨
    ¬ flow.Mentions id ∧ block.Stands part.first above

namespace Skips

variable (skips : flow.Skips after part)
include skips

section Around

variable (hosts : flow.Hosts (.block other bundle final)) (inner : flow.Hosts part)
  (known : ∀ id ∈ (Item.block other bundle final).ids, id ∈ flow.ids) (outside : other ∉ part.ids)
include hosts inner known outside

/-- Walks from the head of a block keep to the depths at which its nodes stood. -/
theorem charts : after.Charts other (flow.StandsWithout part (.block other bundle final)) where
  begins := .inl ⟨.inl (known other (Item.first_mem_ids _)), outside, hosts.charts.begins⟩
  unique := by
    rintro id above level (⟨old, -, here⟩ | ⟨new, here⟩) (⟨oldToo, -, there⟩ | ⟨newToo, there⟩)
    · exact hosts.charts.unique here there
    · exact absurd old newToo
    · exact absurd oldToo new
    · exact hosts.charts.unique here there
  onward := by
    intro id child above stands isOpen leads
    have apart : part.first ≠ other := fun same => outside (same ▸ part.first_mem_ids)
    obtain ⟨offId, offChild⟩ := skips.gone leads
    -- From something new the flow goes on as deep as the item began.
    have level : flow.Mentions id → (Item.block other bundle final).Stands id above →
        ∀ {next}, flow.Leads id next →
          (Item.block other bundle final).Stands next (above + after.rise id) := by
      intro old here next before
      rw [skips.rise_eq (known id here.mem_ids) offId]
      exact hosts.charts.onward here
        ((skips.openAt_iff (known id here.mem_ids) offId).mp isOpen) before
    have begins : flow.Leads id child ∨ (Item.block other bundle final).Stands part.first
        (above + after.rise id) ∧ (flow.Mentions child → flow.Leads part.last child) := by
      rcases skips.leads_cases leads with before | ⟨into, out⟩
      · exact .inl before
      · right
        refine ⟨?_, fun old => out old offChild⟩
        rcases stands with ⟨old, off, here⟩ | ⟨new, here⟩
        · exact level old here (into old off)
        · rwa [(skips.plain new).rise_eq, Role.rise, Int.add_zero]
    by_cases old : flow.Mentions child
    · refine .inl ⟨old, offChild, ?_⟩
      rcases begins with before | ⟨here, out⟩
      · rcases stands with ⟨oldId, -, here⟩ | ⟨new, -⟩
        · exact level oldId here before
        · exact absurd before.mentions_source new
      · exact hosts.stands_behind inner here apart (out old)
    · rcases begins with before | ⟨here, -⟩
      · exact absurd before.mentions_target old
      · exact .inr ⟨old, here⟩

/-- Walks from the head of a block have the same depth at a node. -/
theorem steady : after.Steady other :=
  (skips.charts hosts inner known outside).steady

omit hosts known in
/-- Where edges led to before, they lead to after an item has gone, unless that is in the item. -/
theorem reaches (path : Relation.ReflTransGen flow.Leads other id) (off : id ∉ part.ids) :
    Relation.ReflTransGen after.Leads other id := by
  -- A path into the item has come to where the item was entered.
  have along : ∀ {id}, Relation.ReflTransGen flow.Leads other id →
      id ∉ part.ids ∧ Relation.ReflTransGen after.Leads other id ∨ id ∈ part.ids ∧
        ∃ entry ∉ part.ids, flow.Leads entry part.first ∧
          Relation.ReflTransGen after.Leads other entry := by
    intro id path
    induction path with
    | refl => exact .inl ⟨outside, .refl⟩
    | @tail id child _ leads ih =>
      by_cases inside : child ∈ part.ids
      · right
        refine ⟨inside, ?_⟩
        rcases ih with ⟨off, before⟩ | ⟨-, entered⟩
        · obtain rfl : child = part.first := by
            by_contra apart
            obtain ⟨wire, member, rfl, -⟩ := inner.inward inside apart leads
            exact off (Item.source_mem_ids member)
          exact ⟨id, off, leads, before⟩
        · exact entered
      · left
        refine ⟨inside, ?_⟩
        rcases ih with ⟨off, before⟩ | ⟨here, entry, off, into, before⟩
        · exact before.tail (skips.kept leads off inside)
        · obtain rfl : id = part.last := by
            by_contra short
            obtain ⟨wire, member, -, rfl⟩ := inner.onward here short leads
            exact inside (Item.target_mem_ids member)
          rcases skips.crosses into off leads with direct | ⟨slot, enters, onward⟩
          · exact before.tail direct
          · exact (before.tail enters).tail onward
  exact ((along path).resolve_right fun inside => off inside.1).2

/-- A block around the item closes where it did. -/
theorem closes_iff_of_mem (inside : part.first ∈ (Item.block other bundle final).ids)
    (early : NodeId) : after.Closes other early ↔ early = final := by
  have apart : part.first ≠ other := fun same => outside (same ▸ part.first_mem_ids)
  have off : final ∉ part.ids := hosts.last_notMem inner inside apart
  have present := known final (Item.last_mem_ids (.block other bundle final))
  refine (skips.charts hosts inner known outside).closes_iff ?_ ?_ ?_ early
  · rintro id above (⟨-, off, here⟩ | ⟨new, here⟩) short
    · exact (skips.openAt_iff (known id here.mem_ids) off).mpr (hosts.openAt here short)
    · -- Something new leaves the depth as it is, and the item began below the head.
      obtain ⟨spot, member, same, rfl⟩ := here
      have deep := one_le_above_of_mem_block member (same ▸ apart)
      apply OpenAt.of_pos
      rw [(skips.plain new).rise_eq, Role.rise]
      omega
  · rintro above (⟨-, -, here⟩ | ⟨new, -⟩)
    · exact (skips.closesAt_iff present off).mpr (hosts.closesAt here)
    · exact absurd (.inl present) new
  · exact skips.reaches inner outside
      (hosts.reaches_last (Item.first_mem_ids (.block other bundle final))) off

/-- Each block closes where it did. -/
theorem closes_iff (early : NodeId) : after.Closes other early ↔ early = final := by
  by_cases inside : part.first ∈ (Item.block other bundle final).ids
  · exact skips.closes_iff_of_mem hosts inner known outside inside early
  · exact (skips.hosts hosts known (hosts.apart inner outside inside)).closes_iff early

/-- The search from the head of each block finds its merge. -/
theorem searchMerge?_eq (enough : (after.edges.length : Int) < limits.maxIterations) :
    after.searchMerge? limits other = some final :=
  searchMerge?_eq_some_of_closes (skips.steady hosts inner known outside)
    (skips.closes_iff hosts inner known outside) enough

end Around

end Skips

end Flow

end Workflow
