import Workflow.Text.Hex

/-!
# The path that a call names

A call names its address by a target, of which only the path counts: a scheme and a
host in front and a query behind play no part. A part of the path that is a dot stays
where it is, two dots go back by one part, and a percent sign with two digits stands
for a character.

A target need not start with a slash. One that names no service of its own is looked
up from the root of this one, however many slashes it starts with.

## Main definitions

* `Target` — a target cut into its pieces, with `Target.ofText`
* `Target.normal` — a path with its dots walked
* `Target.decode` — characters for percent signs
* `Target.pathOf` — the path that a target names
-/

namespace Workflow

/-- What a call is sent to: a scheme and a host, which are both often absent, and a
path. -/
structure Target where
  scheme : List Char
  host : List Char
  path : List Char
  deriving DecidableEq, Repr

namespace Target

/-! ## Pieces -/

/-- Whether a character may stand in the name of a scheme. -/
def isSchemeChar (c : Char) : Bool := c.isAlphanum || c = '+' || c = '-' || c = '.'

/-- The scheme, which a colon ends and a letter begins, and the rest. The colon may
stand alone. -/
def takeScheme (text : List Char) : List Char × List Char :=
  let name := text.takeWhile isSchemeChar
  match text.dropWhile isSchemeChar with
  | ':' :: rest => if name.head?.all Char.isAlpha then (name, rest) else ([], text)
  | _ => ([], text)

/-- The host, which two slashes announce, and the rest. -/
def takeHost : List Char → List Char × List Char
  | '/' :: '/' :: rest => (rest.takeWhile (· ≠ '/'), rest.dropWhile (· ≠ '/'))
  | text => ([], text)

/-- The pieces of a target. What follows a question mark or a number sign is dropped. -/
def ofText (text : String) : Target :=
  let (scheme, rest) := takeScheme (text.toList.takeWhile fun c => c ≠ '?' ∧ c ≠ '#')
  let (host, path) := takeHost rest
  { scheme, host, path }

/-! ## Parts of a path -/

/-- The parts between the slashes of a path. -/
def split : List Char → List (List Char)
  | [] => [[]]
  | '/' :: rest => [] :: split rest
  | c :: rest =>
    match split rest with
    | [] => [[c]]
    | part :: parts => (c :: part) :: parts

/-- Walks one part further. There is no way back beyond the root. -/
def walk (walked : List (List Char)) (part : List Char) : List (List Char) :=
  if part = ['.'] then walked
  else if part = ['.', '.'] then (if walked = [[]] then walked else walked.dropLast)
  else walked ++ [part]

/-- A path with its dots walked. -/
def normal (path : List Char) : List Char :=
  (['/'] : List Char).intercalate ((split path).foldl walk [])

/-! ## The path named -/

/-- Characters for percent signs that two hexadecimal digits follow. -/
def decode : List Char → List Char
  | '%' :: high :: low :: rest =>
    match Text.hexDigit? high, Text.hexDigit? low with
    | some h, some l => Char.ofNat (16 * h + l) :: decode rest
    | _, _ => '%' :: decode (high :: low :: rest)
  | c :: rest => c :: decode rest
  | [] => []

/-- The path of a target from the root. A target with a scheme and a host has it so
already; any other is taken from the root. -/
def fromRoot (target : Target) : List Char :=
  if target.scheme ≠ [] ∧ target.host ≠ [] then normal target.path
  else
    let announced := target.scheme ≠ [] ∨ target.host ≠ []
    let path := if announced then normal target.path else target.path
    normal ('/' :: path.dropWhile (· = '/'))

/-- The path that a target names. The caller writes characters as percent signs, and
so does the way to the service, so they are put back twice. -/
def pathOf (text : String) : String :=
  let path := decode (decode (ofText text).fromRoot)
  if path = [] then "/" else String.ofList path

end Target

end Workflow
