import Workflow.Text.Digit

/-!
# Arguments of the command

The command takes the path of a flow, and options before or after it: nodes to
report on, and whether to write JSON. A long option may be shortened as long as it
is clear which one is meant, and its value may follow after an equals sign.

An argument of two dashes is a divider: all that follows is plain. It goes with the
path when it stands right before or right after it; anywhere else it is one argument
too many.

## Main definitions

* `Arguments` — what the command is to do
* `Arguments.Word` — what one argument is
* `Arguments.parse` — reads the arguments, unless they ask for help or are misused
* `Arguments.normalPath` — a path without its empty parts
-/

namespace Workflow

/-- What the command is to do. Without `nodes` it reports on all heads. -/
structure Arguments where
  path : String
  nodes : Option (List String) := none
  json : Bool := false
  deriving DecidableEq, Repr

namespace Arguments

/-- Why the command does nothing. -/
inductive Stop where
  | help
  | misuse
  deriving DecidableEq, Repr

/-- An option of the command. -/
inductive Switch where
  | help
  | node
  | json
  deriving DecidableEq, Repr

namespace Switch

/-- All options. -/
def all : List Switch := [help, node, json]

/-- The long name of an option. -/
def name : Switch → List Char
  | help => "--help".toList
  | node => "--node".toList
  | json => "--json".toList

/-- The options that a shortened long name may mean. -/
def ofBeginning (beginning : List Char) : List Switch :=
  all.filter fun switch => beginning.isPrefixOf switch.name

end Switch

/-! ## Single arguments -/

/-- The argument after which all are plain. -/
def divider : String := "--"

/-- What one argument is, seen on its own. -/
inductive Word where
  | plain
  | divider
  | help
  | json
  | node (value : Option String)
  /-- An option with a value that it does not take. -/
  | unwantedValue
  /-- Short for more than one option. -/
  | ambiguous
  | unknown
  deriving DecidableEq, Repr

/-- Whether nothing is left, or a line feed alone. -/
def isEnd : List Char → Bool
  | [] | ['\n'] => true
  | _ => false

/-- Whether a text is a run of digits, with a line feed after it or not. -/
def isDigitRun (text : List Char) : Bool :=
  text.head?.any Text.isDigit && isEnd (text.dropWhile Text.isDigit)

/-- Whether an argument is a negative number, with or without a fraction. -/
def isNegativeNumber : List Char → Bool
  | '-' :: number =>
    isDigitRun number ||
      match number.dropWhile Text.isDigit with
      | '.' :: places => isDigitRun places
      | _ => false
  | _ => false

/-- An argument that starts like an option and is none is plain if it is a negative
number or holds a space. -/
def Word.other (argument : List Char) : Word :=
  if isNegativeNumber argument ∨ ' ' ∈ argument then .plain else .unknown

/-- An option, with the value after its equals sign if there is one. -/
def Word.ofSwitch : Switch → Option String → Word
  | .node, value => .node value
  | .help, none => .help
  | .json, none => .json
  | _, some _ => .unwantedValue

/-- An argument that starts with two dashes. -/
def Word.long (argument : List Char) : Word :=
  let value := match argument.dropWhile (· ≠ '=') with
    | '=' :: rest => some (String.ofList rest)
    | _ => none
  match Switch.ofBeginning (argument.takeWhile (· ≠ '=')) with
  | [switch] => .ofSwitch switch value
  | [] => .other argument
  | _ => .ambiguous

/-- What follows the short name for help: nothing, or the same name again and again, in
one word with it or after an equals sign. -/
def Word.afterShortHelp : List Char → Word
  | [] => .help
  | ['='] => .unwantedValue
  | '=' :: again | again => if again.all (· = 'h') then .help else .unwantedValue

/-- What an argument is. -/
def Word.ofArgument (argument : String) : Word :=
  match argument.toList with
  | ['-', '-'] => .divider
  | '-' :: '-' :: rest => .long ('-' :: '-' :: rest)
  | '-' :: 'h' :: rest => .afterShortHelp rest
  | '-' :: c :: rest => .other ('-' :: c :: rest)
  | _ => .plain

/-! ## All arguments -/

/-- What has been read. Too many arguments are only told at the end. -/
structure Reading where
  path : Option String := none
  tooMany : Bool := false
  nodes : Option (List String) := none
  json : Bool := false

namespace Reading

/-- A further node to report on. A divider in its place names no node. -/
def ask (reading : Reading) (value : String) : Reading :=
  let named := if value = divider then [] else [value]
  { reading with nodes := some (reading.nodes.getD [] ++ named) }

/-- The path, after which further plain arguments follow to the end. -/
def finish (reading : Reading) (path : String) (further : List String) : Reading :=
  { reading with path := some path, tooMany := reading.tooMany || !further.isEmpty }

/-- Reads arguments one after another. -/
def readAll (reading : Reading) : List String → Except Stop Reading
  | [] => .ok reading
  | argument :: rest =>
    match Word.ofArgument argument, reading.path with
    | .plain, none =>
      if rest.head? = some divider then .ok (reading.finish argument (rest.drop 1))
      else readAll { reading with path := some argument } rest
    | .divider, none =>
      match rest with
      | [] => .ok reading
      | path :: further => .ok (reading.finish path further)
    | .divider, some _ => .ok { reading with tooMany := true }
    | .plain, some _ | .unknown, _ => readAll { reading with tooMany := true } rest
    | .help, _ => .error .help
    | .json, _ => readAll { reading with json := true } rest
    | .node (some value), _ => readAll (reading.ask value) rest
    | .node none, _ =>
      match rest with
      | [] => .error .misuse
      | value :: rest =>
        if Word.ofArgument value = .plain then readAll (reading.ask value) rest
        else .error .misuse
    | .unwantedValue, _ | .ambiguous, _ => .error .misuse

end Reading

/-- A path without empty parts and without parts that stay where they are. Exactly two
slashes in front are kept, more count as one. -/
def normalPath (path : String) : String :=
  let root := match path.toList.takeWhile (· = '/') with
    | [] => ""
    | ['/', '/'] => "//"
    | _ => "/"
  let parts := (path.splitOn "/").filter fun part => part ≠ "" ∧ part ≠ "."
  let whole := root ++ String.intercalate "/" parts
  if whole = "" then "." else whole

/-- Reads the arguments of the command. One that is short for several options is misuse
wherever it stands, even after a call for help. -/
def parse (arguments : List String) : Except Stop Arguments := do
  if (arguments.takeWhile (· ≠ divider)).any (Word.ofArgument · = .ambiguous) then
    throw .misuse
  let reading ← Reading.readAll {} arguments
  match reading.path, reading.tooMany with
  | some path, false =>
    return { path := normalPath path, nodes := reading.nodes, json := reading.json }
  | _, _ => throw .misuse

end Arguments

end Workflow
