/-
# `Typeforge.Snapshot` — a stored registry

A snapshot holds compiled functions and named entries: which identity each
name stands for.
-/
import Typeforge.Code.Json
import Typeforge.Registry

namespace Typeforge

structure Snapshot where
  functions : List Function
  entries : Members String := []

namespace Snapshot

/-- The snapshot of a registry, its functions in the order of their keys. -/
def ofRegistry (r : Registry) (entries : Members String) : Snapshot := ⟨r.sorted, entries⟩

def toJson (s : Snapshot) : Json :=
  .object [
    ("functions", .array (s.functions.map Function.toJson)),
    ("roots", .object (s.entries.map fun e => (e.1, .string e.2)))]

/-- The text a snapshot is stored as. -/
def text (s : Snapshot) : String := s.toJson.text

def decode (j : Source) : Decoded Snapshot := do
  let (functions, entries) ← Decode.recordWithDefaults ["functions", "roots"]
    (fun (r : Option (List Function) × Members String) name j =>
      if name = "functions" then do pure (some (← Decode.list Function.decode j), r.2)
      else do pure (r.1, ← Decode.table Decode.string j))
    (none, []) j
  pure ⟨← Decode.required "functions" functions, entries⟩

/-- The snapshot a text stores. -/
def ofText (text : String) : Decoded Snapshot := Decode.text decode text

end Snapshot

end Typeforge
