import Workflow.Proofs.Nesting.Host

/-!
# Flows with an item put in

An item that is put into a flow takes part in every walk that used to pass there. The walk
enters it and leaves it at the same depth. Since an open walk from a head has depth at least
one there, nothing inside the item closes that head: each head is closed by the same merges
as before, whatever the rest of the flow looks like.

## Main definitions

* `Flow.Grows` — a flow with an item put in

## Main results

* `Grows.closes_iff` — the item changes nothing about which merges close a head
-/

namespace Workflow

namespace Flow

/-- A flow that has grown by an item: wherever an edge of the old flow is missing, the item
leads from its start to its end. -/
structure Grows (flow grown : Flow) (item : Item) : Prop where
  hosts : grown.Hosts item
  absent : ∀ {id child}, flow.Leads id child → id ∉ item.ids ∧ child ∉ item.ids
  onward : ∀ {child}, grown.Leads item.last child → child ∉ item.ids
  roles : ∀ {id}, id ∉ item.ids →
    grown.isHead id = flow.isHead id ∧ grown.isMerge id = flow.isMerge id
  leads_iff : ∀ {id child}, id ∉ item.ids → child ∉ item.ids → (flow.Leads id child ↔
    grown.Leads id child ∨ grown.Leads id item.first ∧ grown.Leads item.last child)

variable {flow grown : Flow} {item : Item} {start id merge : NodeId} {above : Int}

theorem Grows.rise_eq (grows : flow.Grows grown item) (outside : id ∉ item.ids) :
    grown.rise id = flow.rise id :=
  rise_congr (grows.roles outside)

theorem Grows.closesAt_iff (grows : flow.Grows grown item) (outside : id ∉ item.ids) :
    grown.ClosesAt id above ↔ flow.ClosesAt id above :=
  closesAt_congr (grows.roles outside)

theorem Grows.openAt_iff (grows : flow.Grows grown item) (outside : id ∉ item.ids) :
    grown.OpenAt id above ↔ flow.OpenAt id above :=
  openAt_congr (grows.roles outside)

/-- The item is entered at its first node only. -/
theorem Grows.enters (grows : flow.Grows grown item) {child : NodeId} (outside : id ∉ item.ids)
    (inside : child ∈ item.ids) (leads : grown.Leads id child) : child = item.first := by
  by_contra apart
  obtain ⟨wire, member, rfl, -⟩ := grows.hosts.inward inside apart leads
  exact outside (Item.source_mem_ids member)

/-- A flow grows by an item if its edges from some nodes to others give way to edges into the
item from the former, and out of it to the latter. -/
theorem Grows.of_leads {kept : NodeId → NodeId → Prop} {enters leaves : NodeId → Prop}
    (distinct : item.ids.Nodup)
    (plays : ∀ spot ∈ item.spots 0, grown.Plays spot.id spot.role)
    (forked : ∀ block ∈ item.blocks, 0 < block.width)
    (roles : ∀ {id}, id ∉ item.ids →
      grown.isHead id = flow.isHead id ∧ grown.isMerge id = flow.isMerge id)
    (off : ∀ {id child}, kept id child → id ∉ item.ids ∧ child ∉ item.ids)
    (offSource : ∀ {id}, enters id → id ∉ item.ids) (offTarget : ∀ {id}, leaves id → id ∉ item.ids)
    (before : ∀ {id child}, flow.Leads id child ↔ kept id child ∨ enters id ∧ leaves child)
    (after : ∀ {id child}, grown.Leads id child ↔ kept id child ∨ enters id ∧ child = item.first ∨
      (∃ wire ∈ item.wires, wire.source = id ∧ wire.target = child) ∨
      id = item.last ∧ leaves child) : flow.Grows grown item := by
  refine ⟨⟨⟨?_, plays, forked⟩, distinct, ?_, ?_⟩, ?_, ?_, roles, ?_⟩
  · exact fun wire member => after.mpr (.inr (.inr (.inl ⟨wire, member, rfl, rfl⟩)))
  · -- From the item, but not from its last node, only its own edges lead.
    intro id child inside short leads
    rcases after.mp leads with apart | ⟨into, -⟩ | within | ⟨last, -⟩
    · exact absurd inside (off apart).1
    · exact absurd inside (offSource into)
    · exact within
    · exact absurd last short
  · -- Into the item, but not to its first node, only its own edges lead.
    intro id child inside apartFirst leads
    rcases after.mp leads with apart | ⟨-, first⟩ | within | ⟨-, out⟩
    · exact absurd inside (off apart).2
    · exact absurd first apartFirst
    · exact within
    · exact absurd inside (offTarget out)
  · intro id child leads
    rcases before.mp leads with apart | ⟨into, out⟩
    · exact off apart
    · exact ⟨offSource into, offTarget out⟩
  · intro child leads
    rcases after.mp leads with apart | ⟨into, -⟩ | ⟨wire, member, source, -⟩ | ⟨-, out⟩
    · exact (off apart).2
    · exact absurd item.last_mem_ids (offSource into)
    · exact absurd source (Item.source_ne_last distinct member)
    · exact offTarget out
  · -- Outside the item, what is gone are the edges that now lead through it.
    intro id child here there
    constructor
    · intro leads
      rcases before.mp leads with apart | ⟨into, out⟩
      · exact .inl (after.mpr (.inl apart))
      · exact .inr ⟨after.mpr (.inr (.inl ⟨into, rfl⟩)),
          after.mpr (.inr (.inr (.inr ⟨rfl, out⟩)))⟩
    · rintro (direct | ⟨into, out⟩)
      · rcases after.mp direct with apart | ⟨-, rfl⟩ | ⟨wire, member, rfl, -⟩ | ⟨rfl, -⟩
        · exact before.mpr (.inl apart)
        · exact absurd item.first_mem_ids there
        · exact absurd (Item.source_mem_ids member) here
        · exact absurd item.last_mem_ids here
      · refine before.mpr (.inr ⟨?_, ?_⟩)
        · rcases after.mp into with apart | ⟨enters, -⟩ | ⟨wire, member, rfl, -⟩ | ⟨rfl, -⟩
          · exact absurd item.first_mem_ids (off apart).2
          · exact enters
          · exact absurd (Item.source_mem_ids member) here
          · exact absurd item.last_mem_ids here
        · rcases after.mp out with apart | ⟨enters, -⟩ | ⟨wire, member, -, rfl⟩ | ⟨-, leaves⟩
          · exact absurd item.last_mem_ids (off apart).1
          · exact absurd item.last_mem_ids (offSource enters)
          · exact absurd (Item.target_mem_ids member) there
          · exact leaves

section Walk

variable (grows : flow.Grows grown item) (outside : start ∉ item.ids)
  (hhead : flow.isHead start = true) (hmerge : flow.isMerge start = false)
include grows outside hhead hmerge

/-- An open walk of the old flow is one of the grown flow, which may go through the item. -/
theorem Grows.arrives (h : flow.Arrives start id above) :
    id ∉ item.ids ∧ grown.Arrives start id above := by
  induction h with
  | start => exact ⟨outside, .start⟩
  | @next id child above before isOpen leads ih =>
    obtain ⟨here, arrives⟩ := ih
    have there : child ∉ item.ids := (grows.absent leads).2
    have stillOpen := (grows.openAt_iff here).mpr isOpen
    have deep := before.one_le_below isOpen hhead hmerge
    rw [← grows.rise_eq here]
    rw [← grows.rise_eq here] at deep
    refine ⟨there, ?_⟩
    rcases (grows.leads_iff here there).mp leads with direct | ⟨into, out⟩
    · exact arrives.next stillOpen direct
    · -- The walk goes through the item, and leaves it as deep as it entered it.
      obtain ⟨last, member, lastId, lastBelow⟩ :=
        item.exists_last_spot (above + grown.rise id)
      have rises := ((grows.hosts.fits_at _).plays last member).rise_eq
      have below : last.above + grown.rise item.last = above + grown.rise id := by
        rw [← lastId, rises]
        exact lastBelow
      have atLast : grown.Arrives start item.last last.above := by
        rw [← lastId]
        exact grows.hosts.arrives (by omega) (arrives.next stillOpen into) member
      rw [← below]
      exact atLast.next (.of_pos (by omega)) out

/-- An open walk of the grown flow is one of the old flow, but while it is in the item. There
it has the depths of the item, behind an edge that enters it from a walk of the old flow. -/
theorem Grows.arrives_or_spot (h : grown.Arrives start id above) :
    id ∉ item.ids ∧ flow.Arrives start id above ∨
      ∃ depth, 1 ≤ depth ∧ (∃ spot ∈ item.spots depth, spot.id = id ∧ spot.above = above) ∧
        ∃ parent, parent ∉ item.ids ∧ grown.Leads parent item.first ∧
          flow.Leaves start parent depth := by
  induction h with
  | start => exact .inl ⟨outside, .start⟩
  | @next id child above before isOpen leads ih =>
    rcases ih with ⟨here, arrives⟩ | ⟨depth, deep, ⟨spot, member, rfl, rfl⟩, parent, apart, into, leaves⟩
    · have stillOpen := (grows.openAt_iff here).mp isOpen
      rw [grows.rise_eq here]
      by_cases there : child ∈ item.ids
      · -- The walk enters the item.
        right
        obtain rfl := grows.enters here there leads
        exact ⟨_, arrives.one_le_below stillOpen hhead hmerge, item.exists_first_spot _,
          id, here, leads, above, arrives, stillOpen, rfl⟩
      · have direct := (grows.leads_iff here there).mpr (.inl leads)
        exact .inl ⟨there, arrives.next stillOpen direct⟩
    · have inside := Item.id_mem_ids_of_mem_spots member
      have rises := ((grows.hosts.fits_at depth).plays spot member).rise_eq
      by_cases final : spot.id = item.last
      · -- The walk leaves the item, as deep as it entered it.
        left
        obtain ⟨last, atLast, lastId, lastBelow⟩ := item.exists_last_spot depth
        obtain rfl : spot = last :=
          spot_unique grows.hosts.distinct member atLast (final.trans lastId.symm)
        rw [final] at leads
        have there := grows.onward leads
        have direct := (grows.leads_iff apart there).mpr (.inr ⟨into, leads⟩)
        rw [rises, ← Spot.below, lastBelow]
        exact ⟨there, leaves.arrives direct⟩
      · right
        obtain ⟨wire, hwire, source, target⟩ := grows.hosts.onward inside final leads
        obtain ⟨here, hhere, next, hnext, hereId, nextId, joined⟩ :=
          Item.goes_of_mem_wires depth hwire
        obtain rfl : here = spot :=
          spot_unique grows.hosts.distinct hhere member (hereId.trans source)
        refine ⟨depth, deep, ⟨next, hnext, nextId.trans target, ?_⟩, parent, apart, into, leaves⟩
        rw [rises, ← joined]
        rfl

end Walk

/-- A head of the old flow is closed in the grown flow by the same merges. -/
theorem Grows.closes_iff (grows : flow.Grows grown item) (outside : start ∉ item.ids)
    (hhead : flow.isHead start = true) (merge : NodeId) :
    grown.Closes start merge ↔ flow.Closes start merge := by
  obtain ⟨sameHead, sameMerge⟩ := grows.roles outside
  cases hmerge : flow.isMerge start with
  | true =>
    rw [closes_of_joining hhead hmerge,
      closes_of_joining (sameHead.trans hhead) (sameMerge.trans hmerge)]
  | false =>
    constructor
    · rintro ⟨above, arrives, closed⟩
      rcases grows.arrives_or_spot outside hhead hmerge arrives with
        ⟨there, before⟩ | ⟨depth, deep, ⟨spot, member, rfl, rfl⟩, -⟩
      · exact ⟨above, before, (grows.closesAt_iff there).mp closed⟩
      · -- In the item the depth does not fall to zero.
        have rises := ((grows.hosts.fits_at depth).plays spot member).rise_eq
        have low := (le_of_mem_item_spots member).2
        have level := closed.1
        rw [rises] at level
        rw [Spot.below] at low
        omega
    · rintro ⟨above, arrives, closed⟩
      obtain ⟨there, after⟩ := grows.arrives outside hhead hmerge arrives
      exact ⟨above, after, (grows.closesAt_iff there).mpr closed⟩

end Flow

end Workflow
