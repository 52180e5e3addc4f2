import Workflow.Json.Binary
import Workflow.Schema.Checked

/-!
# Fields of a record

A field has two spellings: the one written on the wire, and a plain one that is
accepted in its place. When both are given, the wire spelling is the field and the
plain one is a further member like any other.

## Main definitions

* `Schema.Spelling` — the two names of a field, with `find?`
* `Schema.text`, `Schema.flag`, `Schema.table`, `Schema.list` — checks of single values
* `Schema.required`, `Schema.optional`, `Schema.defaulted` — checks of a field of a record
* `Schema.further` — the members that are no field
-/

namespace Workflow.Schema

/-- The two names of a field. -/
structure Spelling where
  wire : String
  plain : String
  deriving DecidableEq, Repr

namespace Spelling

/-- A field with one name only. -/
def single (name : String) : Spelling := ⟨name, name⟩

/-- The name that a record uses for the field, with the value there. -/
def find? (spelling : Spelling) (members : Json.Members) : Option (String × Json) :=
  match members.get? spelling.wire with
  | some value => some (spelling.wire, value)
  | none => (members.get? spelling.plain).map (spelling.plain, ·)

/-- Whether a record uses this name for the field. -/
def takes (spelling : Spelling) (members : Json.Members) (key : String) : Bool :=
  key = spelling.wire || (key = spelling.plain && !members.has spelling.wire)

end Spelling

/-- A check of one value. -/
abbrev Check (α : Type) := Json → Checked α

variable {α : Type}

/-! ## Single values -/

/-- Only a text is a text. -/
def text : Check String
  | .str value => .valid value
  | value => .fault .notText value

/-- The bound of the integers that count as numbers for a flag, those of 64 bits. -/
def flagBound : Int := 9223372036854775808

/-- An integer stands for a flag when it is zero or one. -/
def flagOfInt (n : Int) : Except Cause Bool :=
  if n = 0 then .ok false
  else if n = 1 then .ok true
  else if -flagBound ≤ n ∧ n < flagBound then .error .unclearFlag
  else .error .notFlag

/-- A number stands for a flag when it is zero or one. A decimal has to be whole, and
closer to zero than the bound. -/
def flagOfNumber : Json.Number → Except Cause Bool
  | .int n => flagOfInt n
  | .decimal negative digits places =>
    match (Json.Binary.nearest digits places).whole? with
    | some n => if n < flagBound then flagOfInt (if negative then -n else n) else .error .notFlag
    | none => .error .notFlag
  | _ => .error .notFlag

/-- The words for yes. -/
def yesWords : List String := ["1", "true", "t", "yes", "y", "on"]

/-- The words for no. -/
def noWords : List String := ["0", "false", "f", "no", "n", "off"]

/-- A word stands for a flag in any case of its ASCII letters. -/
def flagOfWord (word : String) : Except Cause Bool :=
  let lower := word.toLower
  if lower ∈ yesWords then .ok true
  else if lower ∈ noWords then .ok false
  else .error .unclearFlag

/-- The flag that a value stands for, `null` for no, or why it stands for none. -/
def flagOf : Json → Except Cause Bool
  | .null => .ok false
  | .bool value => .ok value
  | .num value => flagOfNumber value
  | .str value => flagOfWord value
  | _ => .error .notFlag

/-- A flag, a number or a word that stands for one, or `null` for no. -/
def flag : Check Bool := fun value =>
  match flagOf value with
  | .ok flag => .valid flag
  | .error cause => .fault cause value

/-- A table of any members. -/
def table : Check Json.Members
  | .obj members => .valid members
  | value => .fault .notTable value

/-- A list whose items all pass. -/
def list (check : Check α) : Check (List α)
  | .arr items => .all check items
  | value => .fault .notList value

/-- A value that passes, or `null` for none. -/
def nullable (check : Check α) : Check (Option α)
  | .null => .valid none
  | value => (check value).map some

/-- A record of the named model. -/
def record (model : String) (check : Json.Members → Checked α) : Check α
  | .obj members => check members
  | value => .fault (.notRecord model) value

/-! ## Fields -/

/-- A field that has to be there. Its absence is told under the wire name. -/
def required (spelling : Spelling) (check : Check α) (members : Json.Members) : Checked α :=
  match spelling.find? members with
  | some (key, value) => (check value).within (.field key)
  | none => (Checked.fault .missing (.obj members)).within (.field spelling.wire)

/-- A field that has a value of its own when it is not there. -/
def defaulted (spelling : Spelling) (absent : α) (check : Check α) (members : Json.Members) :
    Checked α :=
  match spelling.find? members with
  | some (key, value) => (check value).within (.field key)
  | none => .valid absent

/-- A field that may be missing or `null`. -/
def optional (spelling : Spelling) (check : Check α) : Json.Members → Checked (Option α) :=
  defaulted spelling none (nullable check)

/-- A field that is a flag, false when it is missing or `null`. -/
def flagged (spelling : Spelling) : Json.Members → Checked Bool := defaulted spelling false flag

/-- The members that no field takes, in order. -/
def further (spellings : List Spelling) (members : Json.Members) : Json.Members :=
  members.filter fun member => !spellings.any (·.takes members member.1)

end Workflow.Schema
