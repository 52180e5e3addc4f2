import Workflow.Flow.Basic
import Workflow.Text.Hex

/-!
# Identities for new nodes

An edit that makes nodes draws their identities one after another from a supply.
The order of drawing shows in the result, so it is part of what an edit does. The
supply knows nothing of the flow, and an identity it gives may be in use there.

## Main definitions

* `Supply`, `Supply.numbered` — a sequence of identities, and how many were drawn
* `Fresh` — a computation that draws
* `Fresh.one`, `Fresh.several` — draw one identity, or a number of them
-/

namespace Workflow

/-- A sequence of identities, of which the first `drawn` have been given out. -/
structure Supply where
  name : Nat → NodeId
  drawn : Nat := 0

namespace Supply

/-- The identity given out after `ahead` others. -/
def upcoming (supply : Supply) (ahead : Nat) : NodeId := supply.name (supply.drawn + ahead)

/-- The supply after `count` further identities were given out. -/
def skip (supply : Supply) (count : Nat) : Supply := { supply with drawn := supply.drawn + count }

/-- The supply that counts up from one, in twelve hexadecimal digits. -/
def numbered : Supply := { name := fun k => Text.hex 12 (k + 1) }

@[simp] theorem skip_zero (supply : Supply) : supply.skip 0 = supply := rfl

@[simp] theorem skip_skip (supply : Supply) (m n : Nat) :
    (supply.skip m).skip n = supply.skip (m + n) := by
  simp [skip, Nat.add_assoc]

@[simp] theorem upcoming_skip (supply : Supply) (m n : Nat) :
    (supply.skip m).upcoming n = supply.upcoming (m + n) := by
  simp [skip, upcoming, Nat.add_assoc]

end Supply

/-- A computation that draws identities. -/
abbrev Fresh := StateM Supply

namespace Fresh

/-- Draws one identity. -/
def one : Fresh NodeId := fun supply => (supply.upcoming 0, supply.skip 1)

/-- Draws a number of identities, in order. -/
def several (count : Nat) : Fresh (List NodeId) := fun supply =>
  ((List.range count).map supply.upcoming, supply.skip count)

variable {α β : Type}

/-- One computation after another draws from what the first left. -/
theorem run_bind (draw : Fresh α) (next : α → Fresh β) (supply : Supply) :
    (draw >>= next).run supply = (next (draw.run supply).1).run (draw.run supply).2 := rfl

/-- A computation that draws nothing leaves the supply as it was. -/
theorem run_pure (value : α) (supply : Supply) :
    (pure value : Fresh α).run supply = (value, supply) := rfl

/-- Changing the value draws nothing more. -/
theorem run_map (f : α → β) (draw : Fresh α) (supply : Supply) :
    (f <$> draw).run supply = (f (draw.run supply).1, (draw.run supply).2) := rfl

@[simp] theorem run_one (supply : Supply) :
    StateT.run one supply = (supply.upcoming 0, supply.skip 1) := rfl

@[simp] theorem run_several (count : Nat) (supply : Supply) :
    StateT.run (several count) supply =
      ((List.range count).map supply.upcoming, supply.skip count) := rfl

end Fresh

end Workflow
