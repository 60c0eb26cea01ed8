/-
# `Typeforge.Documents` — the documents of a source

A source holds one document, or one on each line that is not blank.  The
documents of lines are labelled with their number among each other; a line that
is no document is reported by its number among all lines, blank ones included.

From each document a pointer may select a part, and a filter may then make any
number of documents out of it, which keep its label.  The filters are those of a
language that is given.
-/
import Typeforge.Filters
import Typeforge.Json.Pointer
import Typeforge.Text.Lines

namespace Typeforge

/-- A document, labelled by where it came from. -/
structure Document where
  source : String
  value : Json

/-- Why a source has no documents. -/
inductive DocumentFault where
  /-- The source at a path is no document. -/
  | unreadable (path : String) (fault : ReadFault)
  /-- A line of the source at a path is no document. -/
  | unreadableLine (path : String) (line : Nat) (fault : ReadFault)
  | nothingSelected (pointer label : String)
  | badQuery (label : String) (fault : FilterFault)

def DocumentFault.message : DocumentFault → String
  | unreadable path fault =>
    "failed to parse JSON source file (" ++ path ++ "): " ++ fault.message
  | unreadableLine path line fault => s!"failed to parse {path}:{line}: " ++ fault.message
  | nothingSelected pointer label =>
    "JSON pointer " ++ pointer ++ " selects nothing in " ++ label
  | badQuery label fault =>
    "failed to apply jq expression to source file (" ++ label ++ "): " ++ fault.message

/-- How documents are taken from sources. -/
structure DocumentOptions where
  /-- Whether every line is a document. -/
  lines : Bool := false
  /-- The pointer to the part that is selected. -/
  pointer : Option String := none
  /-- The filter that the part goes through. -/
  query : Option String := none

namespace Document

/-- The label of the document with a number among those of a source. -/
def lineLabel (path : String) (number : Nat) : String := s!"{path}:{number}"

/-- The document on a line. -/
def ofLine (path : String) (number : Nat) (line : List Char) : Except DocumentFault Json :=
  match Json.parse (String.ofList line) with
  | .ok j => .ok j
  | .error fault => .error (.unreadableLine path number fault)

/-- The documents on the lines of a text that are not blank. -/
def ofLines (path text : String) : Except DocumentFault (List Document) := do
  let lines := (Lines.numbered text.toList).filter fun line => !Lines.isBlank line.2
  let values ← lines.mapM fun line => ofLine path line.1 line.2
  pure (values.mapIdx fun i value => ⟨lineLabel path (i + 1), value⟩)

/-- The one document that a text is. -/
def ofText (path text : String) : Except DocumentFault (List Document) :=
  match Json.parse text with
  | .ok value => .ok [⟨path, value⟩]
  | .error fault => .error (.unreadable path fault)

/-- The part of a document that a pointer selects, if there is a pointer. -/
def select (pointer : Option String) (d : Document) : Except DocumentFault Document :=
  match pointer with
  | none => .ok d
  | some pointer =>
    match d.value.pointer? pointer with
    | some value => .ok { d with value }
    | none => .error (.nothingSelected pointer d.source)

/-- The documents that a filter makes of one, if there is a filter. -/
def applyQuery (language : FilterLanguage) (query : Option String) (d : Document) :
    Except DocumentFault (List Document) :=
  match query with
  | none => .ok [d]
  | some filter =>
    match language.run filter d.value with
    | .ok values => .ok (values.map fun value => { d with value })
    | .error fault => .error (.badQuery d.source fault)

/-- The documents of the source at a path. -/
def ofSource (language : FilterLanguage) (o : DocumentOptions) (path text : String) :
    Except DocumentFault (List Document) := do
  let documents ← if o.lines then ofLines path text else ofText path text
  let taken ← documents.mapM fun d => do applyQuery language o.query (← select o.pointer d)
  pure taken.flatten

end Document

end Typeforge
