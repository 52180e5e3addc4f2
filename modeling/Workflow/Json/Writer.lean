import Workflow.Json.Basic
import Workflow.Text.Hex

/-!
# Writing JSON

A value is written in ASCII: every character outside the printable ASCII range is
escaped, one above the basic plane as a surrogate pair. There are two layouts, one
without blanks and one with a line for each item and member.

## Main definitions

* `Json.quote` — a text between quotes
* `Json.compact` — a value without blanks
* `Json.pretty` — a value over several lines
-/

namespace Workflow.Json

/-- One character between quotes. -/
def escape (c : Char) : String :=
  match c with
  | '"' => "\\\""
  | '\\' => "\\\\"
  | '\n' => "\\n"
  | '\r' => "\\r"
  | '\t' => "\\t"
  | '\x08' => "\\b"
  | '\x0c' => "\\f"
  | c =>
    let code := c.toNat
    if 0x20 ≤ code ∧ code < 0x7f then c.toString
    else if code < 0x10000 then "\\u" ++ Text.hex 4 code
    else
      let above := code - 0x10000
      "\\u" ++ Text.hex 4 (0xd800 + above / 0x400) ++ "\\u" ++ Text.hex 4 (0xdc00 + above % 0x400)

/-- A text between quotes. -/
def quote (text : String) : String :=
  text.toList.foldl (fun written c => written ++ escape c) "\"" ++ "\""

/-- A decimal with its point, and a zero before the point when nothing else is there. -/
def Number.pointed (negative : Bool) (digits places : Nat) : String :=
  let written := Nat.toDigits 10 digits
  let padded := List.replicate (places + 1 - written.length) '0' ++ written
  let whole := padded.length - places
  (if negative then "-" else "") ++ String.ofList (padded.take whole) ++ "." ++
    String.ofList (padded.drop whole)

/-- A number as a document writes it. -/
def Number.text : Number → String
  | .int value => toString value
  | .decimal negative digits places => pointed negative digits places
  | .notANumber => "NaN"
  | .infinity negative => if negative then "-Infinity" else "Infinity"

mutual

/-- A value without blanks. -/
def compact : Json → String
  | .null => "null"
  | .bool value => if value then "true" else "false"
  | .num value => value.text
  | .str value => quote value
  | .arr items => "[" ++ String.intercalate "," (compactItems items) ++ "]"
  | .obj members => "\x7b" ++ String.intercalate "," (compactMembers members) ++ "\x7d"

/-- Each item without blanks. -/
def compactItems : List Json → List String
  | [] => []
  | item :: rest => compact item :: compactItems rest

/-- Each member without blanks. -/
def compactMembers : List (String × Json) → List String
  | [] => []
  | (key, value) :: rest => (quote key ++ ":" ++ compact value) :: compactMembers rest

end

/-- A new line, indented by two blanks for each level. -/
def newline (level : Nat) : String := "\n".pushn ' ' (2 * level)

/-- The parts of an array or object, each on a line of its own. -/
def lines (level : Nat) (parts : List String) : String :=
  newline (level + 1) ++ String.intercalate ("," ++ newline (level + 1)) parts ++ newline level

mutual

/-- A value over several lines, whose own line is indented by `level`. -/
def prettyAt (level : Nat) : Json → String
  | .arr [] => "[]"
  | .obj [] => "\x7b\x7d"
  | .arr items => "[" ++ lines level (prettyItems (level + 1) items) ++ "]"
  | .obj members => "\x7b" ++ lines level (prettyMembers (level + 1) members) ++ "\x7d"
  | .null => "null"
  | .bool value => if value then "true" else "false"
  | .num value => value.text
  | .str value => quote value

/-- Each item over several lines. -/
def prettyItems (level : Nat) : List Json → List String
  | [] => []
  | item :: rest => prettyAt level item :: prettyItems level rest

/-- Each member over several lines. -/
def prettyMembers (level : Nat) : List (String × Json) → List String
  | [] => []
  | (key, value) :: rest => (quote key ++ ": " ++ prettyAt level value) :: prettyMembers level rest

end

/-- A value over several lines. -/
def pretty (value : Json) : String := prettyAt 0 value

end Workflow.Json
