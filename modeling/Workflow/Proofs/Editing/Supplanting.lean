import Workflow.Proofs.Editing.Framing
import Workflow.Proofs.Editing.Joining

/-!
# A joining block in the place of an item

The head of a joining block is head and merge at once, so the block is left one level less deep
than it is entered. Where such a block takes the place of an item, a head whose block does not
hold the item closes where it did. A head whose block holds the item is closed early: what
follows the item stands one level less deep than before, so the depth is back at zero before
the merge that used to close the head.

## Main definitions

* `Flow.Supplants` — a joining block has taken the place of an item

## Main results

* `Supplants.lowers` — the flow is left one level too low behind the joining block
-/

namespace Workflow

namespace Flow

/-- A joining block has taken the place of an item. It is entered from where the item was, through
a slot or not, and leads on to where the item led. -/
structure Supplants (flow after : Flow) (part : Item) (opener : NodeId) (arms : List Lane)
    (closer : NodeId) : Prop where
  block : after.Joining opener arms closer
  unused : ∀ id ∈ (Item.block opener arms closer).ids, ¬ flow.Mentions id
  roles : ∀ {id}, id ∈ flow.ids → id ∉ part.ids →
    after.isHead id = flow.isHead id ∧ after.isMerge id = flow.isMerge id
  kept : ∀ {id child}, flow.Leads id child → id ∉ part.ids → child ∉ part.ids →
    after.Leads id child
  enters : ∀ {id}, flow.Leads id part.first → id ∉ part.ids → after.Leads id opener ∨
    ∃ slot, after.Plays slot .step ∧ after.Leads id slot ∧ after.Leads slot opener
  onward : ∀ {child}, flow.Leads part.last child → after.Leads closer child
  leads_cases : ∀ {id child}, after.Leads id child →
    flow.Leads id child ∨ ¬ flow.Mentions child ∧ (flow.Mentions id → flow.Leads id part.first) ∨
      ¬ flow.Mentions id ∧ (flow.Mentions child → flow.Leads part.last child)

variable {flow after : Flow} {part : Item} {opener closer : NodeId} {arms : List Lane}

/-- Edges that leave the depth as it is lead through a joining block to its merge. -/
theorem Joining.reaches_level (joining : flow.Joining opener arms closer) :
    Relation.ReflTransGen flow.LeadsLevel opener closer := by
  refine Item.reaches_last ?_ joining.forked (Item.first_mem_ids (.block opener arms closer))
  exact fun wire member => ⟨joining.rise_of_short (Item.source_mem_ids member)
    (Item.source_ne_last joining.distinct member), joining.leads wire member⟩

/-- Behind a joining block in the place of an item, the flow is left one level too low. -/
theorem Supplants.lowers (supplants : flow.Supplants after part opener arms closer) :
    flow.Lowers after part closer where
  roles := supplants.roles
  kept := supplants.kept
  leads_cases leads := by
    rcases supplants.leads_cases leads with before | ⟨new, into⟩ | ⟨new, out⟩
    · exact .inl before
    · exact .inr ⟨fun old _ => into old, fun old _ => absurd old new⟩
    · exact .inr ⟨fun old _ => absurd old new, fun old _ => out old⟩
  closes := supplants.block.closes
  inside old := absurd (.inl old)
    (supplants.unused closer (Item.last_mem_ids (.block opener arms closer)))
  enters into off := by
    rcases supplants.enters into off with direct | ⟨slot, plays, enters, onward⟩
    · exact ⟨opener, direct, supplants.block.reaches_level⟩
    · -- The slot before the joining block leaves the depth as it is.
      exact ⟨slot, enters, .head ⟨plays.rise_eq, onward⟩ supplants.block.reaches_level⟩
  onward := supplants.onward

end Flow

end Workflow
