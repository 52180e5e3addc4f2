import Workflow.Text.Blank
import Workflow.Text.Digit

/-!
# Counts in settings

A setting that is a count is written as an integer in the digits of any script,
with a sign if wanted and single underscores between digits. Anything else, and
any number that is not positive, leaves the standard value in force.

## Main definitions

* `Count.readInt?` — the integer that a text writes
* `Count.ofSetting` — the count that a setting gives
-/

namespace Workflow.Count

/-- The most digits that an integer may have. -/
def maxDigits : Nat := 4300

/-- Brings a text that is not all ASCII into plain form: white space becomes a space
and a digit of any script its ASCII digit, while ASCII characters stay. -/
def plain (text : List Char) : List Char :=
  if text.all (·.toNat < 0x80) then text
  else text.map fun c =>
    if c.toNat < 0x7f then c
    else if Text.isBlank c then ' '
    else match Text.digit? c with
      | some value => Char.ofNat ('0'.toNat + value)
      | none => c

/-- The value of an ASCII digit. -/
def asciiDigit? (c : Char) : Option Nat :=
  if c.isDigit then some (c.toNat - '0'.toNat) else none

/-- The digits of a number, with an underscore at most between two of them. -/
def digits? : List Char → Option (List Nat)
  | [] => none
  | [c] => (asciiDigit? c).map ([·])
  | c :: '_' :: rest => do return (← asciiDigit? c) :: (← digits? rest)
  | c :: rest => do return (← asciiDigit? c) :: (← digits? rest)

/-- The number that digits write. -/
def ofDigits (digits : List Nat) : Nat := digits.foldl (10 * · + ·) 0

/-- The number without its sign. -/
def readNat? (text : List Char) : Option Nat :=
  ((digits? text).filter (·.length ≤ maxDigits)).map ofDigits

/-- The integer that a text writes. -/
def readInt? (text : String) : Option Int :=
  match Text.trim Text.isPlainBlank (plain text.toList) with
  | '-' :: rest => (readNat? rest).map fun n => -n
  | '+' :: rest => (readNat? rest).map fun n => n
  | rest => (readNat? rest).map fun n => n

/-- The count that a setting gives: the integer that it writes if that is positive,
else the standard value. -/
def ofSetting (standard : Int) (setting : Option String) : Int :=
  ((setting.bind readInt?).filter (0 < ·)).getD standard

/-- A setting counts only if it is positive. -/
theorem ofSetting_pos {standard : Int} (h : 0 < standard) (setting : Option String) :
    0 < ofSetting standard setting := by
  unfold ofSetting
  cases hs : (setting.bind readInt?).filter (0 < ·) with
  | none => simpa using h
  | some value => simpa using (Option.filter_eq_some_iff.1 hs).2

end Workflow.Count
