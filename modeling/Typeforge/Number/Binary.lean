/-
# `Typeforge.Number.Binary` — what the bits of a number say

A `Float` is read as an exact binary fraction `± mantissa · 2 ^ exponent`, an
infinity or a NaN.  Everything the library decides about a number — whether it
is whole, which integer it is, which decimal digits name it — is decided on
this exact form, in integer arithmetic, and never on a rounded operation.
-/

namespace Typeforge

/-- The exact content of a double-precision number. -/
inductive Binary where
  | nan
  | infinite (negative : Bool)
  /-- The number `± mantissa · 2 ^ exponent`; zero has mantissa `0`. -/
  | finite (negative : Bool) (mantissa : Nat) (exponent : Int)
deriving Repr, DecidableEq

namespace Binary

/-- Splits the sixty-four bits into sign, eleven bits of exponent and fifty-two of fraction. -/
def ofBits (bits : Nat) : Binary :=
  let negative := decide (Nat.pow 2 63 ≤ bits)
  let biased : Nat := bits / Nat.pow 2 52 % Nat.pow 2 11
  let fraction : Nat := bits % Nat.pow 2 52
  if biased = 2047 then
    if fraction = 0 then .infinite negative else .nan
  else if biased = 0 then .finite negative fraction (-1074)
  else .finite negative (fraction + Nat.pow 2 52) ((biased : Int) - 1075)

def ofFloat (x : Float) : Binary := ofBits x.toBits.toNat

/-- A magnitude with its sign. -/
def signed (negative : Bool) (n : Nat) : Int := if negative then -(n : Int) else n

/-- The integer this number is, when it is one. -/
def toInt? : Binary → Option Int
  | .nan | .infinite _ => none
  | .finite negative mantissa exponent =>
    match exponent with
    | .ofNat e => some (signed negative (mantissa * Nat.pow 2 e))
    | .negSucc e =>
      if mantissa % Nat.pow 2 (e + 1) = 0 then some (signed negative (mantissa / Nat.pow 2 (e + 1)))
      else none

def isNegative : Binary → Bool
  | .nan => false
  | .infinite negative | .finite negative _ _ => negative

end Binary

/-- The integer a number is, when it is one. -/
def wholeNumber? (x : Float) : Option Int := (Binary.ofFloat x).toInt?

/-- The largest magnitude up to which every integer is a number of its own. -/
def exactIntegerLimit : Nat := Nat.pow 2 53

/-- The integer a number is, when it is one of magnitude at most `exactIntegerLimit`. -/
def safeInteger? (x : Float) : Option Int :=
  (wholeNumber? x).filter fun n => n.natAbs ≤ exactIntegerLimit

end Typeforge
