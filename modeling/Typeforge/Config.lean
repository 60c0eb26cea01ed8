/-
# `Typeforge.Config` — the settings of an engine

Every setting has a default, and a stored configuration needs to name only the
ones it changes.
-/
import Typeforge.Json.Decode

namespace Typeforge

/-- The settings for drawing mocks. -/
structure MockOptions where
  /-- The start of the generator; without one every engine draws differently. -/
  seed : Option Nat := none
  optionalProbability : Float := 0.5
  /-- The depth from which on only minimal values are drawn. -/
  maxDepth : Nat := 8
  maxArrayLength : Nat := 4
  maxStringLength : Nat := 8
  /-- How many extra keys are drawn for an index signature at most. -/
  maxIndexKeys : Nat := 2
  promiseDelayMs : Nat := 0
  promiseRejectProbability : Float := 0.0

namespace MockOptions

def memberNames : List String :=
  ["seed", "optionalProbability", "maxDepth", "maxArrayLen", "maxStringLen", "maxIndexKeys",
    "promiseDelayMs", "promiseRejectProbability"]

def fill (o : MockOptions) (name : String) (j : Source) : Decoded MockOptions :=
  match name with
  | "seed" => do pure { o with seed := ← Decode.optional Decode.nat64 j }
  | "optionalProbability" => do pure { o with optionalProbability := ← Decode.float j }
  | "maxDepth" => do pure { o with maxDepth := ← Decode.nat64 j }
  | "maxArrayLen" => do pure { o with maxArrayLength := ← Decode.nat64 j }
  | "maxStringLen" => do pure { o with maxStringLength := ← Decode.nat64 j }
  | "maxIndexKeys" => do pure { o with maxIndexKeys := ← Decode.nat64 j }
  | "promiseDelayMs" => do pure { o with promiseDelayMs := ← Decode.nat64 j }
  | "promiseRejectProbability" => do pure { o with promiseRejectProbability := ← Decode.float j }
  | _ => pure o

def decode : Decoder MockOptions := Decode.recordWithDefaults memberNames fill {}

def toJson (o : MockOptions) : Json :=
  .object [
    ("seed", match o.seed with
      | some n => .ofNat n
      | none => .null),
    ("optionalProbability", .number (.real o.optionalProbability)),
    ("maxDepth", .ofNat o.maxDepth),
    ("maxArrayLen", .ofNat o.maxArrayLength),
    ("maxStringLen", .ofNat o.maxStringLength),
    ("maxIndexKeys", .ofNat o.maxIndexKeys),
    ("promiseDelayMs", .ofNat o.promiseDelayMs),
    ("promiseRejectProbability", .number (.real o.promiseRejectProbability))]

end MockOptions

structure EngineConfig where
  /-- How deep one walk over a type may go. -/
  maxDepth : Nat := 64
  /-- Whether a named type with several uses gets a function of its own. -/
  shareNamedTypes : Bool := true
  mock : MockOptions := {}

namespace EngineConfig

def memberNames : List String := ["maxDepth", "shareNamedTypes", "mock"]

def fill (c : EngineConfig) (name : String) (j : Source) : Decoded EngineConfig :=
  match name with
  | "maxDepth" => do pure { c with maxDepth := ← Decode.nat64 j }
  | "shareNamedTypes" => do pure { c with shareNamedTypes := ← Decode.bool j }
  | "mock" => do pure { c with mock := ← MockOptions.decode j }
  | _ => pure c

def decode : Decoder EngineConfig := Decode.recordWithDefaults memberNames fill {}

def toJson (c : EngineConfig) : Json :=
  .object [
    ("maxDepth", .ofNat c.maxDepth),
    ("shareNamedTypes", .bool c.shareNamedTypes),
    ("mock", c.mock.toJson)]

/-- The configuration a text stores. -/
def ofText (text : String) : Decoded EngineConfig := Decode.text decode text

end EngineConfig

end Typeforge
