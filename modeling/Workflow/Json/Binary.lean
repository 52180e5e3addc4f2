/-!
# The binary number nearest to a decimal

Where a decimal is used as a number it counts as the nearest binary number with 53
digits, the even one of two. So a fraction that is small enough is lost, and a
decimal may be whole without being written so.

## Main definitions

* `Json.Binary` — a number `significand · 2 ^ exponent`
* `Json.Binary.nearest` — the binary number nearest to a decimal
* `Json.Binary.whole?` — the integer that a binary number is
-/

namespace Workflow.Json

/-- The number `significand · 2 ^ exponent`, which is not negative. -/
structure Binary where
  significand : Nat
  exponent : Int
  deriving DecidableEq, Repr

/-- The integer nearest to a quotient, the even one of two. -/
def roundHalfEven (numerator denominator : Nat) : Nat :=
  let quotient := numerator / denominator
  let twice := 2 * (numerator % denominator)
  if denominator < twice ∨ (twice = denominator ∧ quotient % 2 = 1) then quotient + 1
  else quotient

namespace Binary

/-- How many digits a significand has. -/
def precision : Nat := 53

/-- The exponent of the smallest binary number. -/
def leastExponent : Int := -1074

/-- A quotient divided by `2 ^ exponent`, as a numerator and a denominator. -/
def shifted (numerator denominator : Nat) (exponent : Int) : Nat × Nat :=
  (numerator * Nat.pow 2 (-exponent).toNat, denominator * Nat.pow 2 exponent.toNat)

/-- The exponent at which a quotient has as many digits before the point as a
significand may have. -/
def exponentOf (numerator denominator : Nat) : Int :=
  let guess : Int := (Nat.log2 numerator : Int) - Nat.log2 denominator - (precision - 1 : Nat)
  let (above, below) := shifted numerator denominator guess
  max leastExponent (if above / below < Nat.pow 2 (precision - 1) then guess - 1 else guess)

/-- The binary number nearest to `digits / 10 ^ places`. -/
def nearest (digits places : Nat) : Binary :=
  let exponent := exponentOf digits (Nat.pow 10 places)
  let (above, below) := shifted digits (Nat.pow 10 places) exponent
  ⟨roundHalfEven above below, exponent⟩

/-- The integer that a binary number is. -/
def whole? (number : Binary) : Option Nat :=
  let unit := Nat.pow 2 (-number.exponent).toNat
  if number.significand % unit = 0 then
    some (number.significand / unit * Nat.pow 2 number.exponent.toNat)
  else none

end Binary

/-- A quotient that is an integer is not rounded. -/
theorem roundHalfEven_mul (n : Nat) {denominator : Nat} (h : 0 < denominator) :
    roundHalfEven (n * denominator) denominator = n := by
  simp [roundHalfEven, Nat.mul_div_cancel n h, Nat.ne_of_lt h]

end Workflow.Json
