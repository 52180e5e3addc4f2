/-!
# Limits of a search

A search through a flow takes at most so many steps, so a flow of any shape is
answered. A limit of zero or less admits no step at all.
-/

namespace Workflow

/-- How many steps the searches may take. -/
structure Limits where
  /-- Nodes looked at in one search for a merge or for a head. -/
  maxIterations : Int := 1000
  /-- Nodes whose edges are followed while a block is collected. -/
  scanLimit : Int := 5000
  deriving DecidableEq, Inhabited, Repr

namespace Limits

/-- The steps of one search for a merge or for a head. -/
def searchSteps (limits : Limits) : Nat := limits.maxIterations.toNat

/-- The steps of collecting one block. -/
def scanSteps (limits : Limits) : Nat := limits.scanLimit.toNat

end Limits

end Workflow
