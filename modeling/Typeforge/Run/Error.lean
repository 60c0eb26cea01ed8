/-
# `Typeforge.Run.Error` — why a compiled function fails

A function that validates never fails; one that encodes, decodes or writes
text fails on input it cannot carry over.
-/
import Typeforge.Text.Diagnostic
import Typeforge.Text.Integer
import Typeforge.Value.Basic

namespace Typeforge

/-- What a decoder met in place of what it expected. -/
inductive Found where
  | text (s : String)
  | kind (name : String)
  /-- The text is no document at all. -/
  | notJson (why : String)

namespace Found

def ofValue : Value → Found
  | .string s => .text s
  | v => .kind v.kindName

def message : Found → String
  | .text s => "string " ++ diagnostic s
  | .kind name => name
  | .notJson why => why

end Found

inductive RunError where
  | bigIntNotSerializable (n : Int)
  | decode (expected : String) (found : Found)
  | badUnionTag (index arms : Nat)
  | noUnionMember (union : String)
  | missingFunction (key : String)
  | missingReviver (name : String)

namespace RunError

/-- The name by which callers tell the errors apart. -/
def name : RunError → String
  | .bigIntNotSerializable .. => "BigIntNotSerializable"
  | .decode .. => "Decode"
  | .badUnionTag .. => "BadUnionTag"
  | .noUnionMember .. => "NoUnionMember"
  | .missingFunction .. => "MissingFunction"
  | .missingReviver .. => "MissingReviver"

def message : RunError → String
  | bigIntNotSerializable n =>
    "bigint " ++ integerText n ++ " has no JSON representation outside a bigint-typed position"
  | decode expected found => "cannot decode " ++ expected ++ " from " ++ found.message
  | badUnionTag index arms =>
    s!"union tag {index} is out of range for {arms} members"
  | noUnionMember union => "value matches no member of union `" ++ union ++ "`"
  | missingFunction key => "compiled function `" ++ key ++ "` is not registered"
  | missingReviver name => "class `" ++ name ++ "` has no registered reviver"

end RunError

end Typeforge
