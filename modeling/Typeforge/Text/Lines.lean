/-
# `Typeforge.Text.Lines` — the lines of a text

A line is ended by a line feed, which may have a carriage return before it, or
by the end of the text; after a line feed at the end there is no further line.
Lines have their numbers from one on.
-/

namespace Typeforge

/-- Whether a character is blank space. -/
def isSpace (c : Char) : Bool :=
  (9 ≤ c.toNat && c.toNat ≤ 13) || c == ' ' || c.toNat == 0x85 || c.toNat == 0xa0
    || c.toNat == 0x1680 || (0x2000 ≤ c.toNat && c.toNat ≤ 0x200a) || c.toNat == 0x2028
    || c.toNat == 0x2029 || c.toNat == 0x202f || c.toNat == 0x205f || c.toNat == 0x3000

namespace Lines

/-- Whether a line holds nothing but blank space. -/
def isBlank (line : List Char) : Bool := line.all isSpace

/-- The line before a line feed, without the carriage return that may end it. -/
def withoutReturn (line : List Char) : List Char :=
  if line.getLast? = some '\r' then line.dropLast else line

/-- The lines of a text. The first argument holds the line so far, backwards. -/
def splitFrom : List Char → List Char → List (List Char)
  | [], [] => []
  | line, [] => [line.reverse]
  | line, c :: rest =>
    if c = '\n' then withoutReturn line.reverse :: splitFrom [] rest
    else splitFrom (c :: line) rest

def split (text : List Char) : List (List Char) := splitFrom [] text

/-- The lines of a text with their numbers. -/
def numbered (text : List Char) : List (Nat × List Char) :=
  (split text).mapIdx fun i line => (i + 1, line)

end Lines

end Typeforge
