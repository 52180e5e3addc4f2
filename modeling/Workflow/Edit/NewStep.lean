import Workflow.Edit.Change

/-!
# New steps

A step of a plain kind is one node. A step that opens a block comes with its merge
and with one slot on each of its branches, wired from the head through the slots
to the merge; a loop also has an edge around its body.

## Main definitions

* `Arm`, `BlockKind.arms` — the branches that a new block starts with
* `NewStep` — a step about to be put into a flow
* `NewStep.plain`, `NewStep.block` — a step from the identities of its nodes
* `NewStep.make` — a step of any kind with fresh identities
-/

namespace Workflow

/-- A branch of a new block: the text on its slot, and its name. -/
structure Arm where
  label : String
  branch : String
  deriving DecidableEq, Repr

namespace BlockKind

/-- The branches of a parallel step for which none were named. -/
def standardBranches : List String := ["Branch 1", "Branch 2"]

/-- The names of the branches of a new parallel step. -/
def branchNames : Option (List String) → List String
  | none | some [] => standardBranches
  | some names => names

/-- The branches that a new block starts with. Only a parallel step takes names. -/
def arms (kind : BlockKind) (names : List String) : List Arm :=
  match kind with
  | condition => [⟨"True Path", Branch.trueArm⟩, ⟨"False Path", Branch.falseArm⟩]
  | parallel => names.map fun name => ⟨name, name⟩
  | loop => [⟨"Loop Body", Branch.loopBody⟩]

/-- The edge around the body of a loop; other blocks have none. -/
def bypass (kind : BlockKind) (head merge : NodeId) : List Edge :=
  match kind with
  | loop => [.connect head merge (some Branch.loopBypass)]
  | _ => []

end BlockKind

/-- A step about to be put into a flow. The rest of the flow goes on from `exit`. -/
structure NewStep where
  head : Node
  parts : List Node := []
  edges : List Edge := []
  exit : NodeId
  deriving DecidableEq, Repr

namespace NewStep

/-- All nodes of a step, the head first. -/
def nodes (step : NewStep) : List Node := step.head :: step.parts

/-- The label of a step for which none or an empty one was given is its kind. -/
def labelOr (label : Option String) (kind : String) : String := (label.filter (· ≠ "")).getD kind

/-- A step of one node. -/
def plain (kind : String) (label : Option String) (params : Option Json.Members) (id : NodeId) :
    NewStep :=
  { head := { id, kind := some kind, content := { label := some (labelOr label kind), params } }
    exit := id }

/-- The head of a new block, which names its merge. A parallel head also keeps the
names of its branches. -/
def blockHead (kind : BlockKind) (label : Option String) (params : Option Json.Members)
    (names : List String) (head merge : NodeId) : Node :=
  let content : Content :=
    { label := some (labelOr label kind.name), params, mergeNodeId := some merge }
  { id := head
    kind := some kind.name
    content := if kind = .parallel then content.withBranches names else content }

/-- The way through one arm of a block: into its slot and on to the merge. -/
def armEdges (head merge : NodeId) (arm : Arm) (slot : NodeId) : List Edge :=
  [.connect head slot (some arm.branch), .connect slot merge none]

/-- A block from the identities of its head, its merge and its slots. -/
def block (kind : BlockKind) (label : Option String) (params : Option Json.Members)
    (names : List String) (head merge : NodeId) (slots : List NodeId) : NewStep :=
  let arms := (kind.arms names).zip slots
  { head := blockHead kind label params names head merge
    parts := arms.map (fun (arm, slot) => .branchPlaceholder slot arm.label) ++
      [.mergePlaceholder merge]
    edges := arms.flatMap (fun (arm, slot) => armEdges head merge arm slot) ++
      kind.bypass head merge
    exit := merge }

/-- A new block. Its identities are drawn for the head, the merge and then the slots. -/
def makeBlock (kind : BlockKind) (label : Option String) (params : Option Json.Members)
    (branches : Option (List String)) : Fresh NewStep := do
  let names := BlockKind.branchNames branches
  let head ← Fresh.one
  let merge ← Fresh.one
  let slots ← Fresh.several (kind.arms names).length
  return block kind label params names head merge slots

/-- A new step of any kind. -/
def make (kind : String) (label : Option String) (params : Option Json.Members)
    (branches : Option (List String)) : Fresh NewStep :=
  match BlockKind.ofName? kind with
  | some kind => makeBlock kind label params branches
  | none => return plain kind label params (← Fresh.one)

variable {kind : BlockKind} {label : Option String} {params : Option Json.Members}

/-- A new block has the first identity for its head, the second for its merge and the
next for its slots. -/
theorem run_makeBlock (branches : Option (List String)) (supply : Supply) :
    (makeBlock kind label params branches).run supply =
      let names := BlockKind.branchNames branches
      let slots := (Fresh.several (kind.arms names).length).run (supply.skip 2)
      (block kind label params names (supply.upcoming 0) (supply.upcoming 1) slots.1, slots.2) :=
  rfl

end NewStep

end Workflow
