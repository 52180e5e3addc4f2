import Workflow.Proofs.Editing.Lookup

/-!
# A block in the place of a merge

When a merge gives way to a block, the new head is head and merge at once. It leaves the depth as
it is, and so do the slots behind it. The new merge takes the depth down as the old one did. So
what stood behind the old merge stands behind the new one at the same depth, and each head that
closed elsewhere still closes there.

## Main definitions

* `Flow.Joining` — a block of a flow whose head is a merge as well
* `Flow.Joins` — a flow in which a merge has given way to such a block
* `Flow.Displaced` — where nodes stand once a node has given way to others

## Main results

* `Joins.charts` — where the nodes stand once a merge has given way to a block
* `Joins.searchMerge?_eq` — a head that closed at another merge still closes there
-/

namespace Workflow

namespace Flow

/-- A block of a flow whose head is a merge as well, with plain steps on its branches. -/
structure Joining (flow : Flow) (opener : NodeId) (arms : List Lane) (closer : NodeId) : Prop where
  distinct : (Item.block opener arms closer).ids.Nodup
  present : ∀ id ∈ (Item.block opener arms closer).ids, id ∈ flow.ids
  forked : ∀ block ∈ (Item.block opener arms closer).blocks, 0 < block.width
  opens : flow.isHead opener = true ∧ flow.isMerge opener = true
  slots : ∀ id ∈ laneIds arms, flow.Plays id .step
  closes : flow.Plays closer .merge
  leads : ∀ wire ∈ (Item.block opener arms closer).wires, flow.Leads wire.source wire.target

/-- A flow in which the merge that closes the block of `head` has given way to a block. The new
head is a merge as well, and the head above names it. -/
structure Joins (flow joined : Flow) (head merge opener closer : NodeId) (arms : List Lane) :
    Prop where
  block : joined.Joining opener arms closer
  unused : ∀ id ∈ (Item.block opener arms closer).ids, ¬ flow.Mentions id
  plays : flow.Plays merge .merge
  unlooped : ¬ flow.Leads merge merge
  names : ∃ node, joined.node? opener = some node ∧ node.content.mergeNodeId = some closer
  pinned : ∃ node, flow.node? head = some node ∧
    joined.node? head = some (node.mapContent (Content.withMerge (some opener)))
  kept : ∀ {id}, id ∉ (Item.block opener arms closer).ids → id ≠ merge → id ≠ head →
    joined.node? id = flow.node? id
  leads_iff : ∀ {id child}, joined.Leads id child ↔ (flow.without [merge]).Leads id child ∨
    flow.Leads id merge ∧ child = opener ∨
    (∃ wire ∈ (Item.block opener arms closer).wires, wire.source = id ∧ wire.target = child) ∨
    id = closer ∧ flow.Leads merge child

/-- Where nodes stand once a node has given way to others, all of which stand where it stood. -/
def Displaced (stands : NodeId → Int → Prop) (old : NodeId) (new : List NodeId) (id : NodeId)
    (above : Int) : Prop :=
  id ∈ new ∧ stands old above ∨ id ∉ new ∧ id ≠ old ∧ stands id above

variable {flow joined : Flow} {head merge opener closer start finish id child : NodeId}
  {arms lanes : List Lane} {stands : NodeId → Int → Prop} {above : Int} {limits : Limits}

namespace Joining

variable (joining : flow.Joining opener arms closer)
include joining

/-- Before its merge a joining block leaves the depth as it is. -/
theorem rise_of_short (inside : id ∈ (Item.block opener arms closer).ids) (short : id ≠ closer) :
    flow.rise id = 0 := by
  rw [Item.ids_block, List.cons_append, List.mem_cons, List.mem_append, List.mem_singleton] at inside
  rcases inside with rfl | slot | last
  · exact rise_of_both joining.opens.1 joining.opens.2
  · have plays := joining.slots id slot
    exact rise_of_neither plays.1 plays.2
  · exact absurd last short

/-- Edges lead from the head of a joining block to its merge. -/
theorem reaches : Relation.ReflTransGen flow.Leads opener closer :=
  Item.reaches_last joining.leads joining.forked (Item.first_mem_ids (.block opener arms closer))

end Joining

namespace Joins

variable (joins : flow.Joins joined head merge opener closer arms)
include joins

/-! ### Roles -/

/-- Nodes that were there keep their roles. -/
theorem roles (old : id ∉ (Item.block opener arms closer).ids) (apart : id ≠ merge) :
    joined.isHead id = flow.isHead id ∧ joined.isMerge id = flow.isMerge id := by
  by_cases same : id = head
  · subst same
    -- The head above has another merge to name, which is no part of its role.
    obtain ⟨node, before, after⟩ := joins.pinned
    rw [isHead_of_node? before, isHead_of_node? after, isMerge_of_node? before,
      isMerge_of_node? after]
    exact ⟨rfl, rfl⟩
  · have found := joins.kept old apart same
    exact ⟨isHead_congr found, isMerge_congr found⟩

theorem rise_eq (old : id ∉ (Item.block opener arms closer).ids) (apart : id ≠ merge) :
    joined.rise id = flow.rise id :=
  rise_congr (joins.roles old apart)

theorem closesAt_iff (old : id ∉ (Item.block opener arms closer).ids) (apart : id ≠ merge) :
    joined.ClosesAt id above ↔ flow.ClosesAt id above :=
  closesAt_congr (joins.roles old apart)

theorem openAt_iff (old : id ∉ (Item.block opener arms closer).ids) (apart : id ≠ merge) :
    joined.OpenAt id above ↔ flow.OpenAt id above :=
  openAt_congr (joins.roles old apart)

/-- The new merge takes the depth down as the old one did. -/
theorem rise_closer : joined.rise closer = flow.rise merge := by
  have before := rise_of_merge joins.plays.1 joins.plays.2
  rw [rise_of_merge joins.block.closes.1 joins.block.closes.2, before]

/-! ### Edges -/

/-- Where edges led before they still lead, through the new block where they passed the old
merge. -/
theorem reaches_of (path : Relation.ReflTransGen flow.Leads start id) (apart : start ≠ merge) :
    id ≠ merge ∧ Relation.ReflTransGen joined.Leads start id ∨
      id = merge ∧ Relation.ReflTransGen joined.Leads start closer := by
  induction path with
  | refl => exact .inl ⟨apart, .refl⟩
  | @tail id child _ leads ih =>
    rcases ih with ⟨before, path⟩ | ⟨rfl, path⟩
    · by_cases final : child = merge
      · right
        have into := joins.leads_iff.mpr (.inr (.inl ⟨final ▸ leads, rfl⟩))
        exact ⟨final, (path.tail into).trans joins.block.reaches⟩
      · left
        have kept : (flow.without [merge]).Leads id child :=
          leads_without.mpr ⟨leads, by simpa using before, by simpa using final⟩
        exact ⟨final, path.tail (joins.leads_iff.mpr (.inl kept))⟩
    · left
      have onward : joined.Leads closer child :=
        joins.leads_iff.mpr (.inr (.inr (.inr ⟨rfl, leads⟩)))
      refine ⟨?_, path.tail onward⟩
      rintro rfl
      exact joins.unlooped leads

/-! ### Walks -/

/-- Once a merge has given way to a block, the nodes of the block stand where the merge stood,
and all others where they stood before. -/
theorem charts (charts : flow.Charts start stands) (known : start ∈ flow.ids)
    (apart : start ≠ merge) :
    joined.Charts start (Displaced stands merge (Item.block opener arms closer).ids) where
  begins := .inr ⟨fun new => joins.unused _ new (.inl known), apart, charts.begins⟩
  unique := by
    rintro id above other (⟨new, here⟩ | ⟨old, -, here⟩) (⟨newToo, there⟩ | ⟨oldToo, -, there⟩)
    · exact charts.unique here there
    · exact absurd new oldToo
    · exact absurd newToo old
    · exact charts.unique here there
  onward := by
    rintro id child above (⟨new, here⟩ | ⟨old, short, here⟩) isOpen leads
    · -- The walk is in the block, and stays where the merge stood until it leaves the block.
      have unused := joins.unused id new
      rcases joins.leads_iff.mp leads with kept | ⟨into, -⟩ | ⟨wire, member, rfl, rfl⟩ | ⟨rfl, out⟩
      · exact absurd (leads_without.mp kept).1.mentions_source unused
      · exact absurd into.mentions_source unused
      · have level := joins.block.rise_of_short new (Item.source_ne_last joins.block.distinct member)
        rw [level, Int.add_zero]
        exact .inl ⟨Item.target_mem_ids member, here⟩
      · have still : flow.OpenAt merge above := by
          rw [OpenAt, ClosesAt, joins.rise_closer] at isOpen
          exact ⟨isOpen.1, fun closed => isOpen.2 ⟨closed.1, joins.block.closes.2⟩⟩
        rw [joins.rise_closer]
        refine .inr ⟨fun inside => joins.unused child inside out.mentions_target, ?_,
          charts.onward here still out⟩
        rintro rfl
        exact joins.unlooped out
    · have still := (joins.openAt_iff old short).mp isOpen
      rw [joins.rise_eq old short]
      rcases joins.leads_iff.mp leads with kept | ⟨into, rfl⟩ | ⟨wire, member, rfl, -⟩ | ⟨rfl, -⟩
      · obtain ⟨before, -, ends⟩ := leads_without.mp kept
        exact .inr ⟨fun inside => joins.unused child inside before.mentions_target,
          by simpa using ends, charts.onward here still before⟩
      · exact .inl ⟨Item.first_mem_ids (.block child arms closer), charts.onward here still into⟩
      · exact absurd (Item.source_mem_ids member) old
      · exact absurd (Item.last_mem_ids (.block opener arms id)) old

/-- A head whose block closes at another merge is closed there alone, and walks from it have the
same depth at a node. -/
theorem closes_iff (hosts : flow.Hosts (.block start lanes finish)) (other : finish ≠ merge) :
    joined.Steady start ∧ ∀ closing, joined.Closes start closing ↔ closing = finish := by
  have opens : flow.isHead start = true := hosts.plays_ends.1.1
  have known := mem_ids_of_isHead opens
  have apart : start ≠ merge := by
    rintro rfl
    exact absurd (joins.plays.1.symm.trans opens) Bool.false_ne_true
  have moved := joins.charts hosts.charts known apart
  have path := hosts.reaches_last (Item.first_mem_ids (.block start lanes finish))
  refine ⟨moved.steady, moved.closes_iff ?_ ?_ ?_⟩
  · rintro id above (⟨new, here⟩ | ⟨old, short, here⟩) final
    · -- The walk was open at the old merge, so it comes there with depth two or more.
      have before := hosts.openAt here other.symm
      have deep : 1 ≤ above + flow.rise merge := by
        have nonneg := before.1
        have level : above + flow.rise merge ≠ 0 := fun level => before.2 ⟨level, joins.plays.2⟩
        omega
      apply OpenAt.of_pos
      by_cases ends : id = closer
      · subst ends
        rw [joins.rise_closer]
        omega
      · have falls : flow.rise merge = -1 := rise_of_merge joins.plays.1 joins.plays.2
        rw [joins.block.rise_of_short new ends]
        omega
    · exact (joins.openAt_iff old short).mpr (hosts.openAt here final)
  · rintro above (⟨new, -⟩ | ⟨old, short, here⟩)
    · have present := mem_ids_of_isMerge hosts.closesAt_last.2
      exact absurd (.inl present) (joins.unused finish new)
    · exact (joins.closesAt_iff old short).mpr (hosts.closesAt here)
  · rcases joins.reaches_of path apart with ⟨-, path⟩ | ⟨same, -⟩
    · exact path
    · exact absurd same other

/-- The search from a head whose block closes at another merge finds that merge. -/
theorem searchMerge?_eq (hosts : flow.Hosts (.block start lanes finish)) (other : finish ≠ merge)
    (enough : (joined.edges.length : Int) < limits.maxIterations) :
    joined.searchMerge? limits start = some finish :=
  searchMerge?_eq_some_of_closes (joins.closes_iff hosts other).1 (joins.closes_iff hosts other).2
    enough

end Joins

end Flow

end Workflow
