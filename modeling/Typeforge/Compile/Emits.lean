/-
# `Typeforge.Compile.Emits` — compiling types into JSON text

What needs no encoding is written as plain JSON.  A declared member's emitter
writes its value only: the key is written by the object around it.
-/
import Typeforge.Compile.Transforms

namespace Typeforge

namespace Compile

/-- The language of emitters. -/
def emitters : Language Emit where
  target := .jsonStringify
  plain? n := if n.needsEncode then none else some .json
  call identity _ := .call identity
  toBody := .jsonStringify

/-- The emitter of an object type. -/
def objectEmit (a : Arena) (child : Site → NodeId → Build Emit) (site : Site)
    (ids : List NodeId) (index : Option NodeId) : Build Emit := do
  let members ← (a.properties ids).mapM fun p => do
    let emit ← child site p.id
    pure ⟨p.name, p.optional, emit⟩
  let others ← match a.indexFilter index with
    | some (id, filter) => do
      let emit ← child site.loop id
      pure (some (filter, emit))
    | none => pure none
  pure (.object members others)

/-- The emitter of a tuple type. -/
def tupleEmit (a : Arena) (child : Site → NodeId → Build Emit) (site : Site)
    (members : List NodeId) : Build Emit := do
  let (fixed, rest) := a.splitTuple members
  let elements ← fixed.zipIdx.mapM fun (id, i) => child (site.part (.element i)) id
  let others ← match rest with
    | some id => do
      let emit ← child site.loop id
      pure (some emit)
    | none => pure none
  pure (.tuple elements others)

/-- The emitter of a node; `check` compiles the tests of a union's members. -/
def emitNode (a : Arena) (check : Site → NodeId → Build Check)
    (child : Site → NodeId → Build Emit) : Compiler Emit
  | site, n =>
    match n.shape with
    | .atom x =>
      if x.isNever then site.never .jsonStringify
      else pure (match x.codec? with
        | some codec => .encoded codec
        | none => .json)
    | .array item => do
      let emit ← child site.loop item
      pure (.array emit)
    | .property name id => child (site.part (.member name)) id
    | .tupleMember id | .indexSignature _ id | .rest id | .parameter _ id _ => child site id
    | .promise _ => site.promiseNotData .jsonStringify
    | .object props index _ => objectEmit a child site props index
    | .tuple members => tupleEmit a child site members
    | .union members => do
      let arms ← members.mapM fun id => do
        let check ← check site id
        let emit ← child site id
        pure (check, emit)
      pure (.union n.identity arms)
    | .function _ => site.functionNotData .jsonStringify

/-- Visits a node for its emitter, as deep as the bound. -/
def emitAt (s : Setting) : Nat → Site → NodeId → Build Emit
  | 0 => emitters.visit s none
  | depth + 1 =>
    emitters.visit s (some (emitNode s.arena (checkAt s depth) (emitAt s depth)))

end Compile

end Typeforge
