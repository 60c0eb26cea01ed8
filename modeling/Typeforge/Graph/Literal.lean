/-
# `Typeforge.Graph.Literal` — literal types

A literal type has one instance.  Symbols match by description and regular
expressions by source and flags; numbers match as numbers, so that a literal
zero matches both zeros and a literal NaN matches nothing.
-/
import Typeforge.Json.Decode
import Typeforge.Value.Codec

namespace Typeforge

inductive Literal where
  | string (s : String)
  | number (x : Float)
  | boolean (b : Bool)
  | bigint (n : Int)
  | symbol (description : String)
  | regexp (r : Regexp)

namespace Literal

def toValue : Literal → Value
  | string s => .string s
  | number x => .number x
  | boolean b => .bool b
  | bigint n => .bigint n
  | symbol d => .symbol d
  | regexp r => .regexp r

/-- Whether a value is the literal's instance. -/
def accepts : Literal → Value → Bool
  | string s, .string t => s == t
  | number x, .number y => x == y
  | boolean a, .bool b => a == b
  | bigint m, .bigint n => m == n
  | symbol s, .symbol t => s == t
  | regexp r, .regexp q => decide (r = q)
  | _, _ => false

def kindName : Literal → String
  | string _ => "string"
  | number _ => "number"
  | boolean _ => "boolean"
  | bigint _ => "bigint"
  | symbol _ => "symbol"
  | regexp _ => "regexp"

/-- The literal as messages and identities show it. -/
def text : Literal → String
  | string s => diagnostic s
  | number x => scriptText x
  | boolean b => if b then "true" else "false"
  | bigint n => integerText n ++ "n"
  | symbol d => "Symbol(" ++ diagnostic d ++ ")"
  | regexp r => r.text

/-- The codec that carries the literal through JSON, if plain JSON cannot. -/
def codec? : Literal → Option Codec
  | bigint _ => some .bigint
  | symbol _ => some .symbol
  | regexp _ => some .regexp
  | _ => none

/-! ## Stored form -/

/-- The content of a stored literal; numbers that are no decimal are stored as null. -/
def contentToJson : Literal → Json
  | string s => .string s
  | number x => if x.isFinite then .number (.real x) else .null
  | boolean b => .bool b
  | bigint n => .string (integerText n)
  | symbol d => .string d
  | regexp r => .object [("source", .string r.source), ("flags", .string r.flags)]

/-- A literal is stored as its kind and its content. -/
def toJson (l : Literal) : Json :=
  .object [("type", .string l.kindName), ("value", l.contentToJson)]

/-- A regular expression from its stored form. -/
def decodeRegexp (j : Source) : Decoded Regexp := do
  let filled ← Decode.record ["source", "flags"]
    (fun (r : Option String × Option String) name j => do
      let s ← Decode.string j
      pure (if name = "source" then (some s, r.2) else (r.1, some s)))
    (none, none) j
  let source ← Decode.required "source" filled.1
  let flags ← Decode.required "flags" filled.2
  pure ⟨source, flags⟩

/-- The kinds of stored literals, each with the decoder of its content. -/
def contentDecoders : List (String × Decoder Literal) :=
  [("string", fun j => (Decode.string j).map string),
   ("number", fun j => (Decode.float j).map number),
   ("boolean", fun j => (Decode.bool j).map boolean),
   ("bigint", fun j => do
      let s ← Decode.string j
      match integer? s with
      | some n => pure (bigint n)
      | none => Decode.fail (.wrongType "decimal digits")),
   ("symbol", fun j => (Decode.string j).map symbol),
   ("regexp", fun j => (decodeRegexp j).map regexp)]

def decode : Decoder Literal :=
  Decode.tagged "type" "value" contentDecoders fun content j => content j

end Literal

end Typeforge
