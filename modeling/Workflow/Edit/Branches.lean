import Workflow.Block.Merge
import Workflow.Edit.Change

/-!
# Naming the branches of a block

The branches of a parallel or loop step are made to fit a list of names. Those
that exist are renamed in the order of their edges, those left over are cut off,
and those missing get a slot that leads to the merge of the block. A slot that is
cut off is removed; a filled step is only disconnected.

## Main definitions

* `Flow.branchEdges` — the edges on which the branches of a head start
* `Flow.setBranches` — the edit
-/

namespace Workflow

namespace Flow

/-- Whether a branch of a head starts on an edge. The edge around the body of a loop
starts none. -/
def startsBranch (head : NodeId) (edge : Edge) : Bool :=
  edge.source = head ∧ edge.branch ≠ some Branch.loopBypass

/-- The edges on which the branches of a head start, in order. -/
def branchEdges (flow : Flow) (head : NodeId) : List Edge := flow.edges.filter (startsBranch head)

/-- Gives the branches of a head the names in a list, in order, and drops the edges of
those for which no name is left. -/
def renameBranches (head : NodeId) : List String → List Edge → List Edge
  | _, [] => []
  | names, edge :: rest =>
    if startsBranch head edge then
      match names with
      | [] => renameBranches head [] rest
      | name :: names => { edge with branch := some name } :: renameBranches head names rest
    else edge :: renameBranches head names rest

/-- The slot on which a branch starts. -/
def branchSlot? (flow : Flow) (edge : Edge) : Option Node :=
  (flow.node? edge.target).filter (·.content.isBranchPlaceholder)

/-- The slots of the branches for which no name is left. -/
def surplusSlots (flow : Flow) (head : NodeId) (names : List String) : List NodeId :=
  ((flow.branchEdges head).drop names.length).filterMap fun edge =>
    (flow.branchSlot? edge).map (·.id)

/-- Writes a name on the slot on which a branch starts, unless the slot had that name
before the edit. -/
def relabelSlot (before flow : Flow) (name : String) (edge : Edge) : Flow :=
  match before.branchSlot? edge with
  | some slot =>
    if slot.content.subLabel = some name then flow
    else flow.withNode (slot.mapContent (Content.withSubLabel name))
  | none => flow

/-- Writes the names of the branches on the slots on which they start. -/
def relabelSlots (flow : Flow) (head : NodeId) (names : List String) : Flow :=
  (names.zip (flow.branchEdges head)).foldl
    (fun relabelled (name, edge) => flow.relabelSlot relabelled name edge) flow

/-- A slot for each new branch, entered from the head and leading to the merge. -/
def newBranches (head merge : NodeId) (names : List String) (slots : List NodeId) : Patch :=
  { nodes := (names.zip slots).map fun (name, slot) => .branchPlaceholder slot name
    edges := (names.zip slots).flatMap fun (name, slot) =>
      [.connect head slot (some name), .connect slot merge none] }

/-- The flow after the branches of a head were made to fit a list of names, with the
given slots for those that are new. -/
def withBranches (flow : Flow) (head : Node) (merge : NodeId) (names : List String)
    (slots : List NodeId) : Change :=
  let surplus := flow.surplusSlots head.id names
  -- The names beyond the branches that exist get new ones.
  let fresh := newBranches head.id merge (names.drop (flow.branchEdges head.id).length) slots
  let renamed : Flow :=
    { flow.relabelSlots head.id names with edges := renameBranches head.id names flow.edges }
  -- A slot that is cut off goes with every edge that touches it.
  let trimmed := (renamed.append fresh).without surplus
  { flow := (trimmed.withNode (head.mapContent (Content.withBranches names))).settle id
    removed := flow.idsIn surplus
    added := fresh.nodes.map (·.id) }

/-- Makes the branches of a parallel or loop step fit a list of names. -/
def setBranches (flow : Flow) (limits : Limits) (id : NodeId) (names : List String) : Plan :=
  match flow.node? id with
  | none => throw (.unknownNode id)
  | some head =>
    if head.blockKind? ≠ some .parallel ∧ head.blockKind? ≠ some .loop then
      throw (.notBranching id)
    else if names = [] then throw (.noBranch id)
    else
      match flow.merge? limits id with
      | none => throw (.unmerged id)
      | some merge =>
        let missing := names.length - (flow.branchEdges id).length
        return flow.withBranches head merge names <$> Fresh.several missing

end Flow

end Workflow
