/-
# `Typeforge.Code.Path` — paths into values, as text

A path starts at `$`, the value itself.  A member whose name is an identifier
follows after a point, any other in brackets and quotation marks; an element
follows in brackets.  In compiled code a step may also be a loop, shown `[*]`.
-/
import Typeforge.Code.Basic

namespace Typeforge

/-- A step of a path into a value. -/
inductive PathItem where
  | key (name : String)
  | index (i : Nat)
deriving Repr, DecidableEq

/-- A place where a value fails its type, and what was expected there. -/
structure ValidationError where
  path : List PathItem
  expected : String
deriving Repr, DecidableEq

/-- Whether a character may begin an identifier. -/
def isIdentifierStart (c : Char) : Bool := c.isAlpha || c == '_' || c == '$'

/-- Whether a name is an identifier: letters, digits, `_` and `$`, no digit first, none outside
ASCII. -/
def isIdentifier (name : String) : Bool :=
  match name.toList with
  | [] => false
  | c :: cs => isIdentifierStart c && cs.all fun c => isIdentifierStart c || c.isDigit

/-- A name as it stands when it is an identifier, and quoted otherwise. -/
def keyText (name : String) : String := if isIdentifier name then name else quoted name

/-- The step to a member. -/
def memberText (name : String) : String :=
  if isIdentifier name then "." ++ name else "[" ++ quoted name ++ "]"

/-- The step to an element. -/
def elementText (i : Nat) : String := "[" ++ integerText i ++ "]"

/-- The step of a path that an access makes. -/
def Access.segment : Access → PathSegment
  | member name => .key name
  | element i => .index i

def Access.text : Access → String
  | member name => memberText name
  | element i => elementText i

def PathSegment.text : PathSegment → String
  | key name => memberText name
  | index i => elementText i
  | loop _ => "[*]"

def PathItem.text : PathItem → String
  | key name => memberText name
  | index i => elementText i

/-- The text of a path in compiled code. -/
def pathText (path : List PathSegment) : String := "$" ++ String.join (path.map PathSegment.text)

/-- The text of a path into a value. -/
def errorPathText (path : List PathItem) : String := "$" ++ String.join (path.map PathItem.text)

/-! ## Stored steps -/

namespace PathItem

/-- A step is stored as a bare string or a bare index. -/
def decode : Decoder PathItem
  | ⟨.string s, _⟩ => .ok (key s)
  | ⟨.number (.integer n), _⟩ =>
    if 0 ≤ n ∧ n < Nat.pow 2 64 then .ok (index n.toNat) else Decode.fail .outOfRange
  | _ => Decode.fail (.wrongType "a key or an index")

end PathItem

end Typeforge
