import Workflow.Json.Basic
import Workflow.Text.Hex

/-!
# The tokens of a JSON text

A text is read one character at a time by an automaton. Outside quotes, a run of
characters that are neither blank nor punctuation is one *word*, which has to be
a literal or a number; inside quotes, the automaton collects code units, so an
escaped surrogate pair becomes one character when the quotes close.

## Main definitions

* `Json.Token` — a token
* `Json.Number.ofWord?` — the grammar of numbers
* `Json.Token.scan?` — the tokens of a text
-/

namespace Workflow.Json

/-- A token of a JSON text. A `scalar` is a value with nothing inside it. -/
inductive Token where
  | openObject
  | closeObject
  | openArray
  | closeArray
  | colon
  | comma
  | scalar (value : Json)
  deriving Inhabited

/-! ## Numbers -/

namespace Number

/-- Splits off the leading ASCII digits. -/
def spanDigits (text : List Char) : List Char × List Char := text.span Char.isDigit

/-- The number that a run of ASCII digits writes. -/
def ofDigits (digits : List Char) : Nat :=
  digits.foldl (fun total digit => 10 * total + (digit.toNat - '0'.toNat)) 0

/-- Drops trailing zeros from the fraction, down to one place. -/
def trim (negative : Bool) : Nat → Nat → Number
  | digits, places + 2 =>
    if digits % 10 = 0 then trim negative (digits / 10) (places + 1)
    else .decimal negative digits (places + 2)
  | digits, places => .decimal negative digits places

/-- The most places that a decimal may be moved by. -/
def maxShift : Int := 10000

/-- The decimal `digits · 10 ^ exponent`, written with at least one place. One that is
moved too far to the left counts as infinite, one moved too far to the right as zero. -/
def scaled (negative : Bool) (digits : Nat) (exponent : Int) : Number :=
  if digits = 0 ∨ exponent < -maxShift then .decimal negative 0 1
  else if maxShift < exponent then .infinity negative
  else if exponent < 0 then trim negative digits (-exponent).toNat
  else .decimal negative (digits * Nat.pow 10 (exponent.toNat + 1)) 1

/-- The whole part of a number: a lone zero, or digits that do not start with one. -/
def spanWhole? (text : List Char) : Option (List Char × List Char) :=
  match spanDigits text with
  | ([], _) => none
  | ('0' :: _ :: _, _) => none
  | parts => some parts

/-- The fraction of a number, `none` when there is no point and failure when no
digit follows the point. -/
def spanFraction? : List Char → Option (Option (List Char) × List Char)
  | '.' :: rest =>
    match spanDigits rest with
    | ([], _) => none
    | (digits, rest) => some (some digits, rest)
  | rest => some (none, rest)

/-- The digits of an exponent, which take up the rest of the word. -/
def exponentDigits? (rest : List Char) : Option Nat :=
  match spanDigits rest with
  | (digit :: digits, []) => some (ofDigits (digit :: digits))
  | _ => none

/-- What follows the fraction: an exponent or nothing. -/
def exponent? : List Char → Option (Option Int)
  | [] => some none
  | mark :: rest =>
    if mark = 'e' ∨ mark = 'E' then
      match rest with
      | '-' :: rest => (exponentDigits? rest).map fun n => some (-n)
      | '+' :: rest => (exponentDigits? rest).map fun n => some n
      | rest => (exponentDigits? rest).map fun n => some n
    else none

/-- The number without its sign. With neither fraction nor exponent it is an integer. -/
def unsigned? (negative : Bool) (text : List Char) : Option Number := do
  let (whole, rest) ← spanWhole? text
  let (fraction, rest) ← spanFraction? rest
  let exponent ← exponent? rest
  match fraction, exponent with
  | none, none => some (.int (if negative then -ofDigits whole else ofDigits whole))
  | fraction, exponent =>
    let places := fraction.getD []
    some (scaled negative (ofDigits (whole ++ places)) (exponent.getD 0 - places.length))

/-- The number that a word writes. -/
def ofWord? : List Char → Option Number
  | '-' :: rest => unsigned? true rest
  | text => unsigned? false text

end Number

/-! ## Words and quoted texts -/

namespace Token

/-- The value that a word outside quotes stands for. -/
def ofWord? (word : List Char) : Option Json :=
  match String.ofList word with
  | "null" => some .null
  | "true" => some (.bool true)
  | "false" => some (.bool false)
  | "NaN" => some (.num .notANumber)
  | "Infinity" => some (.num (.infinity false))
  | "-Infinity" => some (.num (.infinity true))
  | _ => (Number.ofWord? word).map .num

/-- The punctuation that `c` is. -/
def ofPunctuation? (c : Char) : Option Token :=
  if c = '\x7b' then some .openObject
  else if c = '\x7d' then some .closeObject
  else if c = '[' then some .openArray
  else if c = ']' then some .closeArray
  else if c = ':' then some .colon
  else if c = ',' then some .comma
  else none

/-- The blanks that may stand between tokens. -/
def isBlank (c : Char) : Bool := c = ' ' || c = '\t' || c = '\n' || c = '\r'

/-- What a one-letter escape stands for. -/
def escaped? (c : Char) : Option Char :=
  match c with
  | '"' => some '"'
  | '\\' => some '\\'
  | '/' => some '/'
  | 'b' => some '\x08'
  | 'f' => some '\x0c'
  | 'n' => some '\n'
  | 'r' => some '\r'
  | 't' => some '\t'
  | _ => none

/-- The character of a code point; a surrogate on its own becomes the replacement
character. -/
def charOfUnit (unit : Nat) : Char :=
  if unit.isValidChar then Char.ofNat unit else '\ufffd'

/-- Joins each high surrogate with the low one that follows it. -/
def joinUnits : List Nat → List Char
  | [] => []
  | [unit] => [charOfUnit unit]
  | high :: low :: rest =>
    if 0xd800 ≤ high ∧ high < 0xdc00 ∧ 0xdc00 ≤ low ∧ low < 0xe000 then
      charOfUnit (0x10000 + (high - 0xd800) * 0x400 + (low - 0xdc00)) :: joinUnits rest
    else charOfUnit high :: joinUnits (low :: rest)

/-! ## The automaton -/

/-- Where the automaton stands. Collected characters and code units are newest first. -/
inductive Mode where
  | between
  | word (chars : List Char)
  | quoted (units : List Nat)
  | escape (units : List Nat)
  | unit (units : List Nat) (digits : Nat) (value : Nat)

/-- The tokens read so far, newest first, and where the automaton stands. -/
structure Scan where
  tokens : List Token
  mode : Mode

/-- A character outside quotes that is part of no word yet. -/
def Scan.start (tokens : List Token) (c : Char) : Scan :=
  if isBlank c then ⟨tokens, .between⟩
  else if c = '"' then ⟨tokens, .quoted []⟩
  else match ofPunctuation? c with
    | some token => ⟨token :: tokens, .between⟩
    | none => ⟨tokens, .word [c]⟩

/-- Reads one character. -/
def Scan.step? (scan : Scan) (c : Char) : Option Scan :=
  match scan.mode with
  | .between => some (.start scan.tokens c)
  -- Whatever ends a word is read as if the word had not been there.
  | .word chars =>
    if isBlank c || c = '"' || (ofPunctuation? c).isSome then
      (ofWord? chars.reverse).map fun value => .start (.scalar value :: scan.tokens) c
    else some ⟨scan.tokens, .word (c :: chars)⟩
  | .quoted units =>
    if c = '"' then
      some ⟨.scalar (.str (String.ofList (joinUnits units.reverse))) :: scan.tokens, .between⟩
    else if c = '\\' then some ⟨scan.tokens, .escape units⟩
    else if c.toNat < 0x20 then none
    else some ⟨scan.tokens, .quoted (c.toNat :: units)⟩
  | .escape units =>
    if c = 'u' then some ⟨scan.tokens, .unit units 0 0⟩
    else (escaped? c).map fun meant => ⟨scan.tokens, .quoted (meant.toNat :: units)⟩
  | .unit units digits value =>
    (Text.hexDigit? c).map fun digit =>
      if digits = 3 then ⟨scan.tokens, .quoted ((16 * value + digit) :: units)⟩
      else ⟨scan.tokens, .unit units (digits + 1) (16 * value + digit)⟩

/-- The tokens once the text has ended; a text may not end inside quotes. -/
def Scan.finish? (scan : Scan) : Option (List Token) :=
  match scan.mode with
  | .between => some scan.tokens.reverse
  | .word chars =>
    (ofWord? chars.reverse).map fun value => (.scalar value :: scan.tokens).reverse
  | _ => none

/-- The tokens of a text, or nothing when some part of it is no token. -/
def scan? (text : String) : Option (List Token) :=
  (text.toList.foldlM Scan.step? ⟨[], .between⟩).bind Scan.finish?

end Token

end Workflow.Json
