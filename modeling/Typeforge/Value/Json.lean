/-
# `Typeforge.Value.Json` — plain JSON for values

Two projections carry a value to JSON without knowing its type: `Value.toJson`
builds a document, and `Value.jsonText` writes text.  Both leave members out
of objects that JSON has no place for and write `null` for them elsewhere; a
regular expression becomes an empty object, a date its text.  A big integer
stops both of them, and `jsonText` then keeps what was written so far.

`Value.ofJson` goes back, without reviving anything.
-/
import Typeforge.Json.Printer
import Typeforge.Run.Error

namespace Typeforge

/-! ## Text that may stop short -/

/-- Text written so far, and the error that stopped the writing, if one did. -/
structure Written where
  text : String
  stop : Option RunError

namespace Written

/-- Text written to its end. -/
def ok (s : String) : Written := ⟨s, none⟩

/-- Nothing written, for an error. -/
def failed (e : RunError) : Written := ⟨"", some e⟩

/-- One piece after another; a piece that stopped is the last. -/
def andThen (a b : Written) : Written :=
  match a.stop with
  | some _ => a
  | none => ⟨a.text ++ b.text, b.stop⟩

instance : Append Written := ⟨andThen⟩

/-- The whole text, or the error. -/
def toExcept (w : Written) : Except RunError String :=
  match w.stop with
  | some e => .error e
  | none => .ok w.text

end Written

/-! ## Numbers -/

/-- The document of a number: an integer when it is one of at most `2 ^ 53`, null when it is no
decimal. -/
def numberToJson (x : Float) : Json :=
  if x.isFinite then
    match safeInteger? x with
    | some n => .ofInt n
    | none => .number (.real x)
  else .null

/-- The text of a number in written JSON. -/
def numberText (x : Float) : String := if x.isFinite then scriptText x else "null"

namespace Value

/-! ## From documents -/

mutual

/-- A document as a value. -/
def ofJson : Json → Value
  | .null => null
  | .bool b => bool b
  | .number n => number n.toFloat
  | .string s => string s
  | .array items => array (ofJsonItems items)
  | .object members => object (ofJsonMembers members)

def ofJsonItems : List Json → List Value
  | [] => []
  | j :: rest => ofJson j :: ofJsonItems rest

def ofJsonMembers : List (String × Json) → List (String × Value)
  | [] => []
  | (k, j) :: rest => (k, ofJson j) :: ofJsonMembers rest

end

/-! ## To documents -/

mutual

/-- The document of a value, or none where JSON has no place for it. -/
def toJsonSlot : Value → Except RunError (Option Json)
  | undefined | function _ | symbol _ => .ok none
  | null => .ok (some .null)
  | bool b => .ok (some (.bool b))
  | number x => .ok (some (numberToJson x))
  | string s => .ok (some (.string s))
  | bigint n => .error (.bigIntNotSerializable n)
  | regexp _ => .ok (some (.object []))
  | date i => .ok (some (.string i.text))
  | array items => do
    let out ← toJsonItems items
    pure (some (.array out))
  | object members => do
    let out ← toJsonMembers members
    pure (some (.object out))

def toJsonItems : List Value → Except RunError (List Json)
  | [] => .ok []
  | v :: rest => do
    let j ← v.toJsonSlot
    let out ← toJsonItems rest
    pure (j.getD .null :: out)

def toJsonMembers : List (String × Value) → Except RunError (List (String × Json))
  | [] => .ok []
  | (k, v) :: rest => do
    let j ← v.toJsonSlot
    let out ← toJsonMembers rest
    match j with
    | some j => pure ((k, j) :: out)
    | none => pure out

end

/-- The document of a value; null where JSON has no place for it. -/
def toJson (v : Value) : Except RunError Json := do
  let j ← v.toJsonSlot
  pure (j.getD .null)

/-! ## To text -/

mutual

/-- The JSON text of a value. -/
def jsonText : Value → Written
  | undefined | function _ | symbol _ | null => .ok "null"
  | bool b => .ok (if b then "true" else "false")
  | number x => .ok (numberText x)
  | string s => .ok (quoted s)
  | bigint n => .failed (.bigIntNotSerializable n)
  | regexp _ => .ok "\x7b\x7d"
  | date i => .ok (quoted i.text)
  | array items => .ok "[" ++ jsonItems "" items ++ .ok "]"
  | object members => .ok "\x7b" ++ jsonMembers "" members ++ .ok "\x7d"

/-- The items, each after the first one with a comma before it. -/
def jsonItems (comma : String) : List Value → Written
  | [] => .ok ""
  | v :: rest => .ok comma ++ v.jsonText ++ jsonItems "," rest

/-- The members JSON has a place for, each after the first one with a comma before it. -/
def jsonMembers (comma : String) : List (String × Value) → Written
  | [] => .ok ""
  | (k, v) :: rest =>
    if v.isOmitted then jsonMembers comma rest
    else .ok (comma ++ quoted k ++ ":") ++ v.jsonText ++ jsonMembers "," rest

end

end Value

end Typeforge
