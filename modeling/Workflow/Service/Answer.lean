import Workflow.Block.Body
import Workflow.Block.Starter
import Workflow.Service.Request

/-!
# Answers

A question is answered from the flow of the request. An edit is answered with the
flow after it, also when it was refused and the flow is as it was. A node that the
flow does not have is an error, and so is an insertion on a missing edge.

## Main definitions

* `Answer`, `EditAnswer` — what a request is answered with
* `Missing` — what a request asked for and the flow does not have
* `Request.answer` — the answer to a request
-/

namespace Workflow

/-- The flow after an edit, and what the edit came to. -/
structure EditAnswer where
  flow : Flow
  applied : Bool
  removed : List NodeId := []
  added : List NodeId := []
  warning : Option String := none
  deriving DecidableEq, Repr

namespace EditAnswer

/-- The answer to an edit that was made. -/
def ofChange (change : Change) : EditAnswer :=
  { flow := change.flow, applied := true, removed := change.removed, added := change.added }

/-- The answer to an edit that was refused. -/
def ofRefusal (flow : Flow) (refusal : Refusal) : EditAnswer :=
  { flow, applied := false, warning := some refusal.message }

end EditAnswer

/-- What a request is answered with. -/
inductive Answer where
  | merge (node : NodeId) (merge : Option NodeId)
  | block (head : NodeId) (merge : Option NodeId) (nodes : List NodeId)
  | starter (merge : NodeId) (head : Option NodeId)
  | edited (edit : EditAnswer)
  deriving DecidableEq, Repr

/-- What a request asked for and the flow does not have. -/
inductive Missing where
  | node (id : NodeId)
  | edge (refusal : Refusal)
  deriving DecidableEq, Repr

namespace Missing

/-- The sentence for something missing. -/
def message : Missing → String
  | node id => "Node not found: " ++ id
  | edge refusal => refusal.message

end Missing

/-- The node that an edit is about. An insertion is about an edge. -/
def Edit.node? : Edit → Option NodeId
  | delete id | swap id _ _ _ | fill id _ _ _ _ | setBranches id _ => some id
  | insert _ _ _ _ _ => none

namespace Flow

/-- The answer to a question about a node of the flow. The nodes of a block are listed
in the order of the flow. -/
def answerQuery (flow : Flow) (limits : Limits) (query : Query) (id : NodeId) : Answer :=
  match query with
  | .merge => .merge id (flow.merge? limits id)
  | .block =>
    match flow.extent? limits id with
    | none => .block id none []
    | some extent => .block id (some extent.merge) (flow.idsIn extent.nodes)
  | .starter => .starter id (flow.starter? limits id)

/-- The answer to an edit, with what is left of the supply. -/
def answerEdit (flow : Flow) (limits : Limits) (edit : Edit) (supply : Supply) :
    Except Missing Answer × Supply :=
  match edit.node? with
  | some id =>
    if flow.has id then
      match edit.run flow limits supply with
      | .ok (change, rest) => (.ok (.edited (.ofChange change)), rest)
      | .error refusal => (.ok (.edited (.ofRefusal flow refusal)), supply)
    else (.error (.node id), supply)
  | none =>
    match edit.run flow limits supply with
    | .ok (change, rest) => (.ok (.edited (.ofChange change)), rest)
    | .error refusal => (.error (.edge refusal), supply)

end Flow

/-- The answer to a request, with what is left of the supply. -/
def Request.answer (request : Request) (limits : Limits) (supply : Supply) :
    Except Missing Answer × Supply :=
  match request with
  | ask query flow id =>
    (if flow.has id then .ok (flow.answerQuery limits query id) else .error (.node id), supply)
  | change flow edit => flow.answerEdit limits edit supply

namespace Answer

/-- An answer as a record. -/
def toJson : Answer → Json
  | .merge node found => .obj [("nodeId", .str node), ("mergeNodeId", .ofText? found)]
  | .block head found nodes =>
    .obj [("headId", .str head), ("mergeNodeId", .ofText? found), ("nodeIds", .ofTexts nodes)]
  | .starter node found => .obj [("mergeNodeId", .str node), ("headId", .ofText? found)]
  | .edited edit =>
    .obj [("flow", edit.flow.toJson), ("applied", .bool edit.applied),
      ("removedNodeIds", .ofTexts edit.removed), ("addedNodeIds", .ofTexts edit.added),
      ("warning", .ofText? edit.warning)]

end Answer

end Workflow
