/-
# `Typeforge.Json.Pointer` — a part of a document by its pointer

A pointer is empty, for the whole document, or a list of names and indices each
after a slash.  In a name `~1` stands for a slash and `~0` for a tilde; an index
has no sign and no needless zero in front.
-/
import Typeforge.Json.Basic
import Typeforge.Members
import Typeforge.Number.Reading

namespace Typeforge

namespace Json

/-- A name in a pointer, with its marks taken back. -/
def unescapeName : List Char → List Char
  | '~' :: '1' :: rest => '/' :: unescapeName rest
  | '~' :: '0' :: rest => '~' :: unescapeName rest
  | c :: rest => c :: unescapeName rest
  | [] => []

/-- The index that a step of a pointer is. -/
def pointerIndex? (step : List Char) : Option Nat :=
  match step with
  | [] => none
  | ['0'] => some 0
  | '0' :: _ => none
  | cs => if cs.all Char.isDigit then some (digitsValue cs) else none

/-- The part of a document that one step leads to. -/
def step? (step : List Char) : Json → Option Json
  | .object members => Members.get? (String.ofList (unescapeName step)) members
  | .array items => (pointerIndex? step).bind fun i => items[i]?
  | _ => none

/-- The part of a document that steps lead to, one after the other. -/
def steps? : List String → Json → Option Json
  | [], j => some j
  | s :: rest, j => (j.step? s.toList).bind (steps? rest)

/-- The part of a document at a pointer. -/
def pointer? (pointer : String) (j : Json) : Option Json :=
  match pointer.splitOn "/" with
  | [""] => some j
  | "" :: steps => steps? steps j
  | _ => none

end Json

end Typeforge
