import Workflow.Text.Quoted

/-!
# Kinds of steps

A step carries the name of its kind, and any name is allowed. The editor knows
ten of them. Three of these open a branching block, which decides how a step is
wired and edited, so they are a type of their own.

## Main definitions

* `Kind.known`, `Kind.check` — the names that the editor knows
* `BlockKind` — the kinds that open a block, with `name` and `ofName?`
* `Branch.trueArm` and its neighbours — the fixed branch names on edges leaving a head
-/

namespace Workflow

namespace Kind

/-- The kind of the step that starts a flow. -/
def trigger : String := "trigger"

/-- The kind of a slot that waits for a step. -/
def custom : String := "custom"

/-- The names of the kinds that the editor knows. -/
def known : List String :=
  [trigger, "action", "condition", "parallel", "loop", "merge", "end", "placeholder", custom, "wait"]

end Kind

/-- A name that was given where only a kind that the editor knows may stand. -/
structure UnknownKind where
  name : String
  deriving DecidableEq, Repr

/-- The sentence for an unknown kind. -/
def UnknownKind.message (unknown : UnknownKind) : String :=
  Text.quoted unknown.name ++ " is not a valid NodeKind"

/-- Lets only the kinds pass that the editor knows. -/
def Kind.check (name : String) : Except UnknownKind String :=
  if name ∈ Kind.known then .ok name else .error ⟨name⟩

/-- The kinds that open a branching block. -/
inductive BlockKind where
  | condition
  | parallel
  | loop
  deriving DecidableEq, Inhabited, Repr

namespace BlockKind

/-- The name of a kind on a step. -/
def name : BlockKind → String
  | condition => "condition"
  | parallel => "parallel"
  | loop => "loop"

/-- The block kind called `name`. -/
def ofName? (name : String) : Option BlockKind :=
  if name = condition.name then some condition
  else if name = parallel.name then some parallel
  else if name = loop.name then some loop
  else none

@[simp] theorem ofName?_name (kind : BlockKind) : ofName? kind.name = some kind := by
  cases kind <;> decide

/-- A name is that of a block kind exactly when the kind's name is that name. -/
theorem ofName?_eq_some_iff {name : String} {kind : BlockKind} :
    ofName? name = some kind ↔ kind.name = name := by
  constructor
  · intro h
    unfold ofName? at h
    grind
  · rintro rfl
    exact ofName?_name kind

end BlockKind

namespace Branch

/-- The branch that a condition takes when it holds. -/
def trueArm : String := "true"

/-- The branch that a condition takes when it fails. -/
def falseArm : String := "false"

/-- The branch into the body of a loop. -/
def loopBody : String := "loop-output"

/-- The branch around the body of a loop. -/
def loopBypass : String := "loop-bypass"

end Branch

end Workflow
