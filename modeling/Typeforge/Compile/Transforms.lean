/-
# `Typeforge.Compile.Transforms` — compiling types into encoders and decoders

What JSON carries as it is has no code in either direction.  Encoding a union
tags the value with the number of the member it is encoded as; decoding goes by
that number.  Decoding a class ends with its reviver, and decoding a tuple
first brings back the elements that were left out.
-/
import Typeforge.Compile.Reports

namespace Typeforge

namespace Compile

/-- The language of encoders. -/
def encoders : Language (List Transform) where
  target := .jsonEncode
  plain? n := if n.needsEncode then none else some []
  call identity _ := [.call identity]
  toBody := .jsonEncode

/-- The language of decoders. -/
def decoders : Language (List Transform) where
  target := .jsonDecode
  plain? n := if n.needsDecode then none else some []
  call identity _ := [.call identity]
  toBody := .jsonDecode

/-- The changes of an object's members. -/
def objectTransform (a : Arena) (child : Site → NodeId → Build (List Transform)) (site : Site)
    (ids : List NodeId) (index : Option NodeId) : Build (List Transform) := do
  let props := a.properties ids
  let declared ← props.mapM fun p => child site p.id
  let others ← match a.indexFilter index with
    | some (id, filter) => do
      let body ← child site.loop id
      pure (unlessEmpty body (.eachKey filter (declaredNames props)))
    | none => pure []
  pure (declared.flatten ++ others)

/-- The changes of a tuple's elements; `before` is what is done first in a fixed position. -/
def tupleTransform (a : Arena) (before : NodeId → Nat → List Transform)
    (child : Site → NodeId → Build (List Transform)) (site : Site) (members : List NodeId) :
    Build (List Transform) := do
  let (fixed, rest) := a.splitTuple members
  let elements ← fixed.zipIdx.mapM fun (id, i) => do
    let body ← child (site.part (.element i)) id
    pure (before id i ++ unlessEmpty body (.part (.element i) (a.node id).optional))
  let others ← match rest with
    | some id => do
      let body ← child site.loop id
      pure (unlessEmpty body (.each fixed.length))
    | none => pure []
  pure (elements.flatten ++ others)

/-! ## Encoding -/

/-- The encoder of a node; `check` compiles the tests of a union's members. -/
def encodeNode (a : Arena) (check : Site → NodeId → Build Check)
    (child : Site → NodeId → Build (List Transform)) : Compiler (List Transform)
  | site, n =>
    match n.shape with
    | .atom x =>
      if x.isNever then site.never .jsonEncode
      else pure (x.codec?.toList.map .encode)
    | .array item => do
      let body ← child site.loop item
      pure (unlessEmpty body (.each 0))
    | .property name id => do
      let body ← child (site.part (.member name)) id
      pure (unlessEmpty body (.part (.member name) n.optional))
    | .tupleMember id | .indexSignature _ id | .rest id | .parameter _ id _ => child site id
    | .promise _ => site.promiseNotData .jsonEncode
    | .object props index _ => objectTransform a child site props index
    | .tuple members => tupleTransform a (fun _ _ => []) child site members
    | .union members => do
      let arms ← members.mapM fun id => do
        let check ← check site id
        let body ← child site id
        pure (check, body)
      pure [.tag n.identity arms]
    | .function _ => site.functionNotData .jsonEncode

/-- Visits a node for its encoder, as deep as the bound. -/
def encodeAt (s : Setting) : Nat → Site → NodeId → Build (List Transform)
  | 0 => encoders.visit s none
  | depth + 1 =>
    encoders.visit s (some (encodeNode s.arena (checkAt s depth) (encodeAt s depth)))

/-! ## Decoding -/

/-- What brings an instance of a class back from its decoded members. -/
def revival (s : Setting) : Option String → Build (List Transform)
  | none => pure []
  | some name => if s.revives name then pure [.revive name] else throw (.unregisteredClass name)

/-- What brings back an element that was left out. -/
def absence (a : Arena) (id : NodeId) (i : Nat) : List Transform :=
  if a.nullMeansAbsent id then [.absent (.element i)] else []

/-- The decoder of a node. -/
def decodeNode (s : Setting) (child : Site → NodeId → Build (List Transform)) :
    Compiler (List Transform)
  | site, n =>
    match n.shape with
    | .atom x =>
      if x.isNever then site.never .jsonDecode
      else pure (x.codec?.toList.map .decode)
    | .array item => do
      let body ← child site.loop item
      pure (unlessEmpty body (.each 0))
    | .property name id => do
      let body ← child (site.part (.member name)) id
      pure (unlessEmpty body (.part (.member name) n.optional))
    | .tupleMember id | .indexSignature _ id | .rest id | .parameter _ id _ => child site id
    | .promise _ => site.promiseNotData .jsonDecode
    | .object props index className => do
      let body ← objectTransform s.arena child site props index
      let revived ← revival s className
      pure (body ++ revived)
    | .tuple members => tupleTransform s.arena (absence s.arena) child site members
    | .union members => do
      let arms ← members.mapM fun id => child site id
      pure [.untag arms]
    | .function _ => site.functionNotData .jsonDecode

/-- Visits a node for its decoder, as deep as the bound. -/
def decodeAt (s : Setting) : Nat → Site → NodeId → Build (List Transform)
  | 0 => decoders.visit s none
  | depth + 1 => decoders.visit s (some (decodeNode s (decodeAt s depth)))

end Compile

end Typeforge
