import Workflow.Text.Hex
import Workflow.Text.Printable

/-!
# Quoted texts in messages

A message shows a text between single quotes, or between double quotes when it
holds a single quote and no double one. A character that could not be seen is
written by its code.
-/

namespace Workflow.Text

/-- A character written by its code, with two, four or eight digits. -/
def byCode (c : Char) : String :=
  let code := c.toNat
  if code < 0x100 then "\\x" ++ hex 2 code
  else if code < 0x10000 then "\\u" ++ hex 4 code
  else "\\U" ++ hex 8 code

/-- One character between the given quotes. -/
def quotedChar (quote c : Char) : String :=
  if c = quote ∨ c = '\\' then "\\" ++ c.toString
  else if c = '\t' then "\\t"
  else if c = '\n' then "\\n"
  else if c = '\r' then "\\r"
  else if isPrintable c then c.toString
  else byCode c

/-- The quotes around a text. -/
def quoteFor (text : String) : Char :=
  if '\'' ∈ text.toList ∧ '"' ∉ text.toList then '"' else '\''

/-- A text between quotes. -/
def quoted (text : String) : String :=
  let quote := quoteFor text
  quote.toString ++ String.join (text.toList.map (quotedChar quote)) ++ quote.toString

end Workflow.Text
