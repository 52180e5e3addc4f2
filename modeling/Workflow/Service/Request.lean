import Workflow.Edit.Basic
import Workflow.Flow.Document

/-!
# Requests

Every request carries the flow it is about, since the service keeps none. It asks
a question about one node, or for an edit.

## Main definitions

* `Request` — a question or an edit, with the flow
* `RequestShape`, `RequestShape.check` — the records that requests are written as
* `Request.toJson` — a request as a record
-/

namespace Workflow

open Schema

/-- A question about one node. -/
inductive Query where
  | merge
  | block
  | starter
  deriving DecidableEq, Repr

/-- A question or an edit, with the flow that it is about. -/
inductive Request where
  | ask (query : Query) (flow : Flow) (id : NodeId)
  | change (flow : Flow) (edit : Edit)
  deriving DecidableEq, Repr

namespace Request

namespace Field

/-- The flow. -/
def flow : Spelling := .single "flow"

/-- The node that the request is about. -/
def nodeId : Spelling := ⟨"nodeId", "node_id"⟩

/-- Where the edge of an insertion starts. -/
def source : Spelling := .single "source"

/-- Where the edge of an insertion ends. -/
def target : Spelling := .single "target"

/-- The kind of the new step. -/
def kind : Spelling := .single "type"

/-- The label of the new step. -/
def label : Spelling := .single "label"

/-- The settings of the new step. -/
def params : Spelling := .single "params"

/-- The names of the branches. -/
def branches : Spelling := .single "branches"

end Field

/-- A request about one node. -/
def aboutNode (make : Flow → NodeId → Request) (members : Json.Members) : Checked Request :=
  make <$> required Field.flow Flow.ofJson members <*> required Field.nodeId text members

/-- A request to swap a step. -/
def swap (members : Json.Members) : Checked Request :=
  (fun flow id kind label params => change flow (.swap id kind label params))
    <$> required Field.flow Flow.ofJson members
    <*> required Field.nodeId text members
    <*> required Field.kind text members
    <*> optional Field.label text members
    <*> optional Field.params table members

/-- A request to fill a slot. -/
def fill (members : Json.Members) : Checked Request :=
  (fun flow id kind label params branches => change flow (.fill id kind label params branches))
    <$> required Field.flow Flow.ofJson members
    <*> required Field.nodeId text members
    <*> required Field.kind text members
    <*> optional Field.label text members
    <*> optional Field.params table members
    <*> optional Field.branches (list text) members

/-- A request to insert a step. -/
def insert (members : Json.Members) : Checked Request :=
  (fun flow source target kind label branches =>
      change flow (.insert source target kind label branches))
    <$> required Field.flow Flow.ofJson members
    <*> required Field.source text members
    <*> required Field.target text members
    <*> required Field.kind text members
    <*> optional Field.label text members
    <*> optional Field.branches (list text) members

/-- A request to name the branches of a step. -/
def setBranches (members : Json.Members) : Checked Request :=
  (fun flow id names => change flow (.setBranches id names))
    <$> required Field.flow Flow.ofJson members
    <*> required Field.nodeId text members
    <*> required Field.branches (list text) members

/-- A list of texts, or `null` for none. -/
def textsOrNull : Option (List String) → Json
  | none => .null
  | some texts => .ofTexts texts

/-- The members that an edit has in a request. -/
def editMembers : Edit → Json.Members
  | .delete id => [(Field.nodeId.wire, .str id)]
  | .swap id kind label params =>
    [(Field.nodeId.wire, .str id), (Field.kind.wire, .str kind),
      (Field.label.wire, .ofText? label), (Field.params.wire, .ofTable? params)]
  | .insert source target kind label branches =>
    [(Field.source.wire, .str source), (Field.target.wire, .str target),
      (Field.kind.wire, .str kind), (Field.label.wire, .ofText? label),
      (Field.branches.wire, textsOrNull branches)]
  | .fill id kind label params branches =>
    [(Field.nodeId.wire, .str id), (Field.kind.wire, .str kind),
      (Field.label.wire, .ofText? label), (Field.params.wire, .ofTable? params),
      (Field.branches.wire, textsOrNull branches)]
  | .setBranches id names =>
    [(Field.nodeId.wire, .str id), (Field.branches.wire, .ofTexts names)]

/-- A request as a record. -/
def toJson : Request → Json
  | ask _ flow id => .obj [(Field.flow.wire, flow.toJson), (Field.nodeId.wire, .str id)]
  | change flow edit => .obj ((Field.flow.wire, flow.toJson) :: editMembers edit)

end Request

/-- The records that requests are written as. -/
inductive RequestShape where
  | ask (query : Query)
  | delete
  | swap
  | insert
  | fill
  | setBranches
  deriving DecidableEq, Repr

namespace RequestShape

/-- The name under which a record is reported. -/
def model : RequestShape → String
  | ask _ | delete => "NodeRequest"
  | swap => "SwapNodeRequest"
  | insert => "InsertStepRequest"
  | fill => "ReplacePlaceholderRequest"
  | setBranches => "BranchesRequest"

/-- The request that the members of a record describe. -/
def ofMembers : RequestShape → Json.Members → Checked Request
  | ask query => Request.aboutNode (Request.ask query)
  | delete => Request.aboutNode fun flow id => .change flow (.delete id)
  | swap => Request.swap
  | insert => Request.insert
  | fill => Request.fill
  | setBranches => Request.setBranches

/-- The request that a record describes. Further members are dropped. -/
def check (shape : RequestShape) : Check Request := record shape.model shape.ofMembers

end RequestShape

end Workflow
