/-!
# Blanks

Two sets of blanks: the six of ASCII that are trimmed from a number, and all
characters that count as white space in any script.
-/

namespace Workflow.Text

/-- Space, tabulators, line feed, form feed and carriage return. -/
def isPlainBlank (c : Char) : Bool := c = ' ' || ('\t' ≤ c && c ≤ '\r')

/-- Every character that counts as white space. -/
def blanks : List Nat :=
  [
    0x9, 0xa, 0xb, 0xc, 0xd, 0x1c, 0x1d, 0x1e, 0x1f, 0x20, 0x85, 0xa0, 0x1680, 0x2000, 0x2001,
    0x2002, 0x2003, 0x2004, 0x2005, 0x2006, 0x2007, 0x2008, 0x2009, 0x200a, 0x2028, 0x2029, 0x202f,
    0x205f, 0x3000]

/-- Whether a character is white space in any script. -/
def isBlank (c : Char) : Bool := c.toNat ∈ blanks

/-- Takes the characters of a class away from both ends. -/
def trim (drop : Char → Bool) (text : List Char) : List Char :=
  ((text.dropWhile drop).reverse.dropWhile drop).reverse

end Workflow.Text
