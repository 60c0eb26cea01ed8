/-
# `Typeforge.Number.Layout` — how the digits of a number are set

The digits come from `shortestDecimal`; a `Layout` says how they are laid out:
between which positions of the decimal point the number is written plainly,
whether a whole number keeps a `.0`, whether a positive exponent carries a
plus sign, and which of two equally near decimals is taken.  The library writes numbers in three layouts:

  * `Layout.script`, the layout of scripting languages: `1e+21`, `0.000001`, `100`;
  * `Layout.document`, for numbers in stored documents: `1.0`, `1e+16`, `1e-6`;
  * `Layout.diagnostic`, for diagnostics: `1.0`, `1e16`, `1e-5`.
-/
import Typeforge.Number.Binary
import Typeforge.Number.Shortest

namespace Typeforge

/-- How a finite number is set. The decimal point of `0.d₁d₂… · 10 ^ p` stands at position `p`. -/
structure Layout where
  /-- The least position of the point that is written plainly. -/
  lowestPoint : Int
  /-- The greatest position of the point that is written plainly. -/
  highestPoint : Int
  /-- Whether whole numbers in plain form end in `.0`. -/
  keepsPoint : Bool
  /-- Whether positive exponents are marked with `+`. -/
  marksPositive : Bool
  /-- Whether zero keeps its sign. -/
  signsZero : Bool
  /-- Which of two equally near decimals is taken. -/
  tie : Tie
  /-- What stands for a number that is none. -/
  nanText : String
  /-- What stands for infinity, after its sign. -/
  infinityText : String
deriving Repr, DecidableEq

namespace Layout

/-- Plain from `0.000001` up to twenty-one digits, exponents with either sign. What is no decimal
is set as if its word were digits, with the point after the first. -/
def script : Layout := ⟨-5, 21, false, true, false, .toLarger, "N.aN", "i.nf"⟩

/-- Plain from `0.00001` up to sixteen digits; whole numbers keep a decimal place, and a tie goes
to the even digit. -/
def document : Layout := ⟨-4, 16, true, true, true, .toEven, "NaN", "inf"⟩

/-- Plain from `0.0001` up to sixteen digits; whole numbers keep a decimal place, and positive
exponents are unmarked. -/
def diagnostic : Layout := ⟨-3, 16, true, false, true, .toLarger, "NaN", "inf"⟩

/-- The text of a run of digits with the decimal point at position `point`. -/
def setDigits (layout : Layout) (digits : List Char) (point : Int) : List Char :=
  let count : Int := digits.length
  if layout.lowestPoint ≤ point ∧ point ≤ layout.highestPoint then
    if count ≤ point then
      digits ++ List.replicate (point - count).toNat '0' ++ (if layout.keepsPoint then ['.', '0'] else [])
    else if 0 < point then
      digits.take point.toNat ++ '.' :: digits.drop point.toNat
    else '0' :: '.' :: List.replicate (-point).toNat '0' ++ digits
  else
    let e := point - 1
    let sign := if e < 0 then ['-'] else if layout.marksPositive then ['+'] else []
    digits.take 1
      ++ (if digits.length ≤ 1 then [] else '.' :: digits.drop 1)
      ++ 'e' :: sign ++ Nat.toDigits 10 e.natAbs

/-- The text of the decimal `d`. -/
def setDecimal (layout : Layout) (d : Decimal) : List Char :=
  let digits := Nat.toDigits 10 d.digits
  layout.setDigits digits (digits.length + d.exponent)

/-- The text of `± m · 2 ^ q`. -/
def setFinite (layout : Layout) (negative : Bool) (m : Nat) (q : Int) : List Char :=
  if m = 0 then
    (if negative && layout.signsZero then ['-'] else []) ++ '0' ::
      (if layout.keepsPoint then ['.', '0'] else [])
  else
    (if negative then ['-'] else []) ++ layout.setDecimal (shortestDecimal layout.tie m q)

/-- The text of a number. -/
def set (layout : Layout) (x : Float) : String :=
  match Binary.ofFloat x with
  | .nan => layout.nanText
  | .infinite negative => if negative then "-" ++ layout.infinityText else layout.infinityText
  | .finite negative m q => String.ofList (layout.setFinite negative m q)

end Layout

/-- The text of a number in the script layout. -/
def scriptText (x : Float) : String := Layout.script.set x

end Typeforge
