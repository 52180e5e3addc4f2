import Workflow.Json.Basic

/-!
# Faults of a document

A value that does not have the shape a document asks for is reported as a list of
faults. A fault says where it lies, as the way from the outermost value, what is wrong
there, and repeats the value that was found there. A field that is missing has no value,
so the record that lacks it is repeated.

## Main definitions

* `Schema.Key`, `Schema.Cause`, `Schema.Fault` — place, cause and value
* `Schema.Cause.code`, `Schema.Cause.message` — the two texts of a cause
* `Schema.summary` — the line above the list
-/

namespace Workflow.Schema

/-- One step of the way to a value. -/
inductive Key where
  | field (name : String)
  | index (position : Nat)
  deriving DecidableEq, Repr

/-- What is wrong with a value. -/
inductive Cause where
  | missing
  | notText
  | notFlag
  | unclearFlag
  | notTable
  | notList
  | notRecord (model : String)
  deriving DecidableEq, Repr

/-- A cause, the place where it lies, and the value that was found. -/
structure Fault where
  path : List Key
  cause : Cause
  /-- What was refused: the value at the place, or the record that lacks the field. -/
  input : Json
  deriving DecidableEq, Repr

/-- Who reads the report. A document names the record it lacks; a request only says
that a record was due. -/
inductive Audience where
  | document
  | request
  deriving DecidableEq, Repr

namespace Cause

/-- The short code of a cause. -/
def code (audience : Audience) : Cause → String
  | missing => "missing"
  | notText => "string_type"
  | notFlag => "bool_type"
  | unclearFlag => "bool_parsing"
  | notTable => "dict_type"
  | notList => "list_type"
  | notRecord _ =>
    match audience with
    | .document => "model_type"
    | .request => "model_attributes_type"

/-- The sentence for a cause. -/
def message (audience : Audience) : Cause → String
  | missing => "Field required"
  | notText => "Input should be a valid string"
  | notFlag => "Input should be a valid boolean"
  | unclearFlag => "Input should be a valid boolean, unable to interpret input"
  | notTable => "Input should be a valid dictionary"
  | notList => "Input should be a valid list"
  | notRecord model =>
    match audience with
    | .document => "Input should be a valid dictionary or instance of " ++ model
    | .request => "Input should be a valid dictionary or object to extract fields from"

end Cause

namespace Key

/-- A step of the way as a value. -/
def toJson : Key → Json
  | field name => .str name
  | index position => .ofNat position

end Key

namespace Fault

/-- The same fault, one step further away. -/
def within (key : Key) (fault : Fault) : Fault := { fault with path := key :: fault.path }

/-- A fault as a value, without the value that was found. -/
def toJson (audience : Audience) (fault : Fault) : Json :=
  .obj [("loc", .arr (fault.path.map Key.toJson)),
    ("type", .str (fault.cause.code audience)),
    ("msg", .str (fault.cause.message audience))]

end Fault

/-- The line above a list of faults. -/
def summary (model : String) (faults : List Fault) : String :=
  let noun := if faults.length = 1 then " validation error for " else " validation errors for "
  toString faults.length ++ noun ++ model

end Workflow.Schema
