/-
# `Typeforge.Json.Basic` — JSON documents

A document keeps the order of its members, and it keeps apart the integers,
which fit in sixty-four bits with or without a sign, from the numbers that
were written with a point or an exponent or are too large for that.
-/
import Typeforge.Members

namespace Typeforge

/-- A number of a document. -/
inductive JsonNumber where
  | integer (n : Int)
  | real (x : Float)

/-- The nearest double-precision number. -/
def JsonNumber.toFloat : JsonNumber → Float
  | .integer n => Float.ofInt n
  | .real x => x

inductive Json where
  | null
  | bool (b : Bool)
  | number (n : JsonNumber)
  | string (s : String)
  | array (items : List Json)
  | object (members : List (String × Json))

namespace Json

instance : Inhabited Json := ⟨.null⟩

/-- An integer as a document. -/
def ofInt (n : Int) : Json := .number (.integer n)

def ofNat (n : Nat) : Json := ofInt n

end Json

end Typeforge
