/-
# `Typeforge.Text.Integer` — integers in decimal

The text of an integer is an optional minus sign and decimal digits.  Reading
accepts leading zeros and a negative zero; writing uses neither, so that each
integer has one written form.
-/
import Typeforge.Number.Reading

namespace Typeforge

/-- The integer that a sign and a run of digits name; `none` if the digits are missing or other
characters stand among them. -/
def integer? (text : String) : Option Int :=
  let (negative, digits) := match text.toList with
    | '-' :: ds => (true, ds)
    | ds => (false, ds)
  if digits.isEmpty || !digits.all Char.isDigit then none
  else some (if negative then -(digitsValue digits : Int) else digitsValue digits)

/-- The natural number below `2 ^ 64` that digits name; a plus sign may stand before them. -/
def word64? (text : String) : Option Nat :=
  let digits := match text.toList with
    | '+' :: ds => ds
    | ds => ds
  let n := digitsValue digits
  if digits.isEmpty || !digits.all Char.isDigit || decide (Nat.pow 2 64 ≤ n) then none else some n

/-- The written form of an integer. -/
def integerText (n : Int) : String :=
  String.ofList ((if n < 0 then ['-'] else []) ++ Nat.toDigits 10 n.natAbs)

end Typeforge
