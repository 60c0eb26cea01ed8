/-
# `Typeforge.Json.Printer` — documents as text

Two forms are written: the compact one, without blanks, and the indented one,
with a line for each item and two blanks for each level.
-/
import Typeforge.Json.Basic
import Typeforge.Number.Layout
import Typeforge.Text.Integer
import Typeforge.Text.Quoted

namespace Typeforge

/-- The text of a number; the ones that are no decimal have none and are written `null`. -/
def JsonNumber.text : JsonNumber → String
  | .integer n => integerText n
  | .real x => if x.isFinite then Layout.document.set x else "null"

namespace Json

/-! ## Compact text -/

mutual

/-- The document in one line, without blanks. -/
def text : Json → String
  | .null => "null"
  | .bool b => if b then "true" else "false"
  | .number n => n.text
  | .string s => quoted s
  | .array items => "[" ++ itemsText items ++ "]"
  | .object members => "\x7b" ++ membersText members ++ "\x7d"

/-- The items, with commas between them. -/
def itemsText : List Json → String
  | [] => ""
  | [j] => j.text
  | j :: rest => j.text ++ "," ++ itemsText rest

/-- The members, with commas between them. -/
def membersText : List (String × Json) → String
  | [] => ""
  | [(k, j)] => quoted k ++ ":" ++ j.text
  | (k, j) :: rest => quoted k ++ ":" ++ j.text ++ "," ++ membersText rest

end

/-! ## Indented text -/

/-- A new line with the blanks of a level. -/
def lineBreak (level : Nat) : String := "\n" ++ String.ofList (List.replicate (2 * level) ' ')

mutual

/-- The document over several lines, its own line standing at the given level. -/
def indentedText (level : Nat) : Json → String
  | .null => "null"
  | .bool b => if b then "true" else "false"
  | .number n => n.text
  | .string s => quoted s
  | .array [] => "[]"
  | .array items => "[" ++ indentedItems (level + 1) items ++ lineBreak level ++ "]"
  | .object [] => "\x7b\x7d"
  | .object members => "\x7b" ++ indentedMembers (level + 1) members ++ lineBreak level ++ "\x7d"

def indentedItems (level : Nat) : List Json → String
  | [] => ""
  | [j] => lineBreak level ++ j.indentedText level
  | j :: rest => lineBreak level ++ j.indentedText level ++ "," ++ indentedItems level rest

def indentedMembers (level : Nat) : List (String × Json) → String
  | [] => ""
  | [(k, j)] => lineBreak level ++ quoted k ++ ": " ++ j.indentedText level
  | (k, j) :: rest =>
    lineBreak level ++ quoted k ++ ": " ++ j.indentedText level ++ "," ++ indentedMembers level rest

end

/-- The document over several lines. -/
def pretty (j : Json) : String := j.indentedText 0

end Json

end Typeforge
