import Workflow.Json.Token

/-!
# Reading JSON

The reader is an automaton with a stack. Its state says which tokens may come
next, and its stack holds the arrays and objects that are still open. Of two
members with one name the later value counts, at the place of the earlier.

## Main definitions

* `Json.Reading` — the state of the reader
* `Json.read?` — the value that a text writes
-/

namespace Workflow.Json

/-- An array or object that waits for a value inside it to end. Items are newest first. -/
inductive Frame where
  | items (done : List Json)
  | members (done : Members) (key : String)

/-- What the reader has seen and what may come next. -/
inductive Reading where
  /-- A value has to come. -/
  | awaitValue (stack : List Frame)
  /-- An array was just opened. -/
  | awaitFirstItem (stack : List Frame)
  /-- An item has ended. -/
  | afterItem (items : List Json) (stack : List Frame)
  /-- An object was just opened. -/
  | awaitFirstKey (stack : List Frame)
  /-- The name of a further member has to come. -/
  | awaitKey (members : Members) (stack : List Frame)
  /-- A name was read, and its colon has to come. -/
  | awaitColon (members : Members) (key : String) (stack : List Frame)
  /-- A member has ended. -/
  | afterMember (members : Members) (stack : List Frame)
  /-- The outermost value has ended. -/
  | ended (value : Json)

namespace Reading

/-- A value has ended: it goes to the innermost open array or object. -/
def deliver (value : Json) : List Frame → Reading
  | [] => .ended value
  | .items items :: stack => .afterItem (value :: items) stack
  | .members members key :: stack => .afterMember (members.set key value) stack

/-- A token where a value has to come. -/
def begin? (stack : List Frame) : Token → Option Reading
  | .scalar value => some (deliver value stack)
  | .openArray => some (.awaitFirstItem stack)
  | .openObject => some (.awaitFirstKey stack)
  | _ => none

/-- Reads one token. -/
def step? : Reading → Token → Option Reading
  | .awaitValue stack, token => begin? stack token
  | .awaitFirstItem stack, .closeArray => some (deliver (.arr []) stack)
  | .awaitFirstItem stack, token => begin? (.items [] :: stack) token
  | .afterItem items stack, .comma => some (.awaitValue (.items items :: stack))
  | .afterItem items stack, .closeArray => some (deliver (.arr items.reverse) stack)
  | .awaitFirstKey stack, .closeObject => some (deliver (.obj []) stack)
  | .awaitFirstKey stack, .scalar (.str key) => some (.awaitColon [] key stack)
  | .awaitKey members stack, .scalar (.str key) => some (.awaitColon members key stack)
  | .awaitColon members key stack, .colon => some (.awaitValue (.members members key :: stack))
  | .afterMember members stack, .comma => some (.awaitKey members stack)
  | .afterMember members stack, .closeObject => some (deliver (.obj members) stack)
  | _, _ => none

/-- The value read, once the tokens have ended. -/
def finish? : Reading → Option Json
  | .ended value => some value
  | _ => none

end Reading

/-- The value that a text writes, or nothing when the text is no JSON. -/
def read? (text : String) : Option Json := do
  let tokens ← Token.scan? text
  let reading ← tokens.foldlM Reading.step? (.awaitValue [])
  reading.finish?

end Workflow.Json
