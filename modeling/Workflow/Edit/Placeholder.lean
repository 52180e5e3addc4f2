import Workflow.Flow.Basic

/-!
# Placeholders and connections

What an edit adds to a flow: slots that wait for a step, and the edges that join
them.

## Main definitions

* `Node.branchPlaceholder`, `Node.mergePlaceholder` — the two kinds of new slots
* `Edge.connect` — a new edge
* `Node.branchLabel` — what the slot on an emptied branch is called
-/

namespace Workflow

namespace Content

/-- The label of a slot. -/
def slotLabel : String := "Add Step"

/-- A slot with the given text below its label. -/
def placeholder (subLabel : String) : Content :=
  { label := some slotLabel, subLabel := some subLabel, isPlaceholder := true }

/-- A slot that stands for a whole branch. -/
def branchPlaceholder (subLabel : String) : Content :=
  { placeholder subLabel with isBranchPlaceholder := true }

/-- A slot at which branches come together. -/
def mergePlaceholder : Content := { placeholder "Merge" with isMergePlaceholder := true }

/-- The start of a flow before a trigger was chosen. -/
def triggerPlaceholder : Content := { label := some "Select Trigger", isPlaceholder := true }

/-- The content of a step whose slot is given back: a slot again, without text and
settings. The rest stays. -/
def emptied (content : Content) : Content :=
  { content with
    label := some slotLabel
    subLabel := some ""
    params := none
    isPlaceholder := true
    isBranchPlaceholder := false
    isMergePlaceholder := false }

/-- The same content under another text below the label. -/
def withSubLabel (subLabel : String) (content : Content) : Content :=
  { content with subLabel := some subLabel }

/-- The same content, naming the merge of the block that the step opens. -/
def withMerge (merge : Option NodeId) (content : Content) : Content :=
  { content with mergeNodeId := merge }

/-- The same content, with the names of the branches among the settings. -/
def withBranches (names : List String) (content : Content) : Content :=
  { content with
    params := some (Json.Members.set (content.params.getD []) "branches" (.ofTexts names)) }

end Content

namespace Node

/-- A new slot that stands for a whole branch. -/
def branchPlaceholder (id : NodeId) (subLabel : String) : Node :=
  { id, kind := some Kind.custom, content := .branchPlaceholder subLabel }

/-- A new slot at which branches come together. -/
def mergePlaceholder (id : NodeId) : Node :=
  { id, kind := some Kind.custom, content := .mergePlaceholder }

/-- What the slot on an emptied branch of a head is called. -/
def branchLabel (head : Node) (branch : Option String) : String :=
  match head.blockKind? with
  | some .condition => if branch = some Branch.trueArm then "True Path" else "False Path"
  | some .loop => "Loop Body"
  | _ => (branch.filter (· ≠ "")).getD "Branch Step"

@[simp] theorem isMerge_branchPlaceholder (id : NodeId) (subLabel : String) :
    (branchPlaceholder id subLabel).isMerge = false := rfl

@[simp] theorem isMerge_mergePlaceholder (id : NodeId) :
    (mergePlaceholder id).isMerge = true := rfl

@[simp] theorem isHead_branchPlaceholder (id : NodeId) (subLabel : String) :
    (branchPlaceholder id subLabel).isHead = false := rfl

@[simp] theorem isHead_mergePlaceholder (id : NodeId) :
    (mergePlaceholder id).isHead = false := rfl

end Node

namespace Edge

/-- The identity of a new edge, made from its ends. -/
def idBetween (source target : NodeId) : String := "e-" ++ source ++ "-" ++ target

/-- A new edge. -/
def connect (source target : NodeId) (branch : Option String) : Edge :=
  { id := some (idBetween source target), source, target, branch }

end Edge

end Workflow
