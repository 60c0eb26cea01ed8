/-
# `Typeforge.Number.Reading` — numbers from decimal text

A decimal `± digits · 10 ^ exponent` is rounded to the nearest number once, by
`roundDecimal`.  Two grammars feed it: the numerals of JSON, read by the JSON
reader, and the looser numerals of `numeral?`, in which a sign `+`, a bare
leading or trailing point and the words for infinity and NaN are allowed.
-/
import Typeforge.Number.Shortest

namespace Typeforge

/-- The number nearest to `± digits · 10 ^ exponent`. Decimals beyond every number's range are
decided by their magnitude alone, so that no large power is formed. -/
def roundDecimal (negative : Bool) (digits : Nat) (exponent : Int) : Float :=
  let top : Int := Decimal.width digits + exponent
  let magnitude : Float :=
    if digits = 0 ∨ top < -400 then 0.0
    else if 400 < top then 1.0 / 0.0
    else Float.ofScientific digits (decide (exponent < 0)) exponent.natAbs
  if negative then -magnitude else magnitude

/-- The value of a run of digits. -/
def digitsValue (cs : List Char) : Nat :=
  cs.foldl (fun n c => 10 * n + (c.toNat - '0'.toNat)) 0

/-- Splits off the decimal digits at the front. -/
def spanDigits (cs : List Char) : List Char × List Char := cs.span Char.isDigit

/-- The optional exponent at the end of a numeral; `none` if what stands there is none. -/
def exponentPart? : List Char → Option Int
  | [] => some 0
  | c :: rest =>
    if c = 'e' ∨ c = 'E' then
      let (negative, digits) := match rest with
        | '-' :: ds => (true, ds)
        | '+' :: ds => (false, ds)
        | ds => (false, ds)
      if digits.isEmpty || !digits.all Char.isDigit then none
      else some (if negative then -(digitsValue digits : Int) else digitsValue digits)
    else none

/-- A numeral without its sign: digits with at most one point among or around them, and an
optional exponent. -/
def unsignedNumeral? (negative : Bool) (cs : List Char) : Option Float :=
  let (whole, rest) := spanDigits cs
  let (places, rest) := match rest with
    | '.' :: after => spanDigits after
    | _ => ([], rest)
  if whole.isEmpty && places.isEmpty then none
  else (exponentPart? rest).map fun e =>
    roundDecimal negative (digitsValue (whole ++ places)) (e - places.length)

/-- The number a numeral names: an optional sign, then digits or one of the words `inf`,
`infinity` and `nan` in any case. Blanks are refused. -/
def numeral? (text : String) : Option Float :=
  let (negative, cs) := match text.toList with
    | '-' :: cs => (true, cs)
    | '+' :: cs => (false, cs)
    | cs => (false, cs)
  let word := String.ofList (cs.map Char.toLower)
  if word = "inf" ∨ word = "infinity" then some (if negative then -(1.0 / 0.0) else 1.0 / 0.0)
  else if word = "nan" then some (0.0 / 0.0)
  else unsignedNumeral? negative cs

end Typeforge
