/-
# `Typeforge.Filters` — filters over documents

A filter turns a document into any number of documents.  Which texts are filters, and
what each of them makes of a document, is left to a `FilterLanguage`; everything about
documents is stated for any.  What is fixed is how its answers are taken: a filter is
compiled for each document anew, its outputs are texts, taken in their order, and each
has to be a document again.  The first one that fails, or is none, is the failure of the
whole.
-/
import Typeforge.Json.Reader

namespace Typeforge

/-- A language of filters. -/
structure FilterLanguage where
  /-- Compiles the text of a filter, or tells why it is none. A filter has outputs for each
  document, as texts; instead of one it may tell what went wrong. -/
  compile : String → Except String (Json → List (Except String String))

/-- Why a filter makes no documents. -/
inductive FilterFault where
  | notCompiled (reason : String)
  /-- The output with a number is a failure. -/
  | failed (output : Nat) (reason : String)
  /-- The output with a number is no document. -/
  | notJson (output : Nat) (text : String) (fault : ReadFault)

def FilterFault.message : FilterFault → String
  | notCompiled reason => reason
  | failed output reason => s!"jq output {output}: " ++ reason
  | notJson output text fault => s!"jq output {output} is not JSON: " ++ text ++ ": " ++ fault.message

namespace FilterLanguage

/-- The document that an output is. -/
def ofOutput (number : Nat) : Except String String → Except FilterFault Json
  | .error reason => .error (.failed number reason)
  | .ok text =>
    match Json.parse text with
    | .ok j => .ok j
    | .error fault => .error (.notJson number text fault)

/-- The documents that a filter makes of one. -/
def run (language : FilterLanguage) (filter : String) (document : Json) :
    Except FilterFault (List Json) :=
  match language.compile filter with
  | .error reason => .error (.notCompiled reason)
  | .ok outputs => (outputs document).zipIdx.mapM fun output => ofOutput output.2 output.1

end FilterLanguage

end Typeforge
