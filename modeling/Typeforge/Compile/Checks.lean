/-
# `Typeforge.Compile.Checks` — compiling types into tests

Tests that always hold are left out of the tests they would be part of, and a
union with such a member always holds itself.
-/
import Typeforge.Compile.Language

namespace Typeforge

namespace Check

def isAlways : Check → Bool
  | always => true
  | _ => false

/-- All of some tests, as plainly as it can be said. -/
def allOf (checks : List Check) : Check :=
  match checks.filter (fun c => !c.isAlways) with
  | [] => always
  | [c] => c
  | checks => all checks

end Check

/-- The test of an atom; a type without instances has none. -/
def Atom.check? : Atom → Option Check
  | .never => none
  | .any | .unknown => some .always
  | .void | .undefined => some (.is .undefined)
  | .object => some (.is .nonPrimitive)
  | .string => some (.is .string)
  | .number => some .finiteNumber
  | .boolean => some (.is .boolean)
  | .symbol => some (.is .symbol)
  | .bigint => some (.is .bigint)
  | .null => some (.is .null)
  | .regexp => some (.is .regexp)
  | .date => some (.is .date)
  | .literal value => some (.equals value)
  | .enumeration members => some (.anyOf (members.map (·.2)))

namespace Compile

/-- The language of tests. -/
def checks : Language Check where
  target := .isType
  plain? _ := none
  call identity _ := .call identity
  toBody := .isType

/-- A list with a test, unless the test always holds. -/
def unlessAlways (check : Check) (wrap : Check → Check) : List Check :=
  if check.isAlways then [] else [wrap check]

/-- The tests of a union's members; none when one of them always holds. -/
def unionChecks (child : NodeId → Build Check) : List NodeId → Build (Option (List Check))
  | [] => pure (some [])
  | id :: rest => do
    let check ← child id
    if check.isAlways then pure none
    else do
      let more ← unionChecks child rest
      pure (more.map (check :: ·))

/-- The test of a union. -/
def unionCheck (child : NodeId → Build Check) (members : List NodeId) : Build Check := do
  let arms ← unionChecks child members
  pure (match arms with
    | some arms => .any arms
    | none => .always)

/-- The names that an object type declares. -/
def declaredNames (props : List Arena.Property) : List String := props.map (·.name)

/-- The test of an object type. -/
def objectCheck (a : Arena) (child : Site → NodeId → Build Check) (site : Site)
    (ids : List NodeId) (index : Option NodeId) : Build Check := do
  let props := a.properties ids
  let declared ← props.mapM fun p => child site p.id
  let others ← match a.indexFilter index with
    | some (id, filter) => do
      let check ← child site.loop id
      pure (unlessAlways check (.eachKey filter (declaredNames props)))
    | none => pure []
  pure (.allOf (.is .object :: declared ++ others))

/-- What a tuple of so many fixed positions must be: an array, no longer unless more may follow. -/
def tupleShape (fixed : Nat) (open_ : Bool) : List Check :=
  if open_ then [.is .array] else [.is .array, .maxLength fixed]

/-- The test of a tuple type. -/
def tupleCheck (a : Arena) (child : Site → NodeId → Build Check) (site : Site)
    (members : List NodeId) : Build Check := do
  let (fixed, rest) := a.splitTuple members
  let elements ← fixed.zipIdx.mapM fun (id, i) => do
    let check ← child (site.part (.element i)) id
    pure (unlessAlways check (.part (.element i) (a.node id).optional))
  let others ← match rest with
    | some id => do
      let check ← child site.loop id
      pure (unlessAlways check (.each fixed.length))
    | none => pure []
  pure (.allOf (tupleShape fixed.length rest.isSome ++ elements.flatten ++ others))

/-- The test of a node, its children's by `child`. -/
def checkNode (a : Arena) (child : Site → NodeId → Build Check) : Compiler Check
  | site, n =>
    match n.shape with
    | .atom x =>
      match x.check? with
      | some check => pure check
      | none => site.never .isType
    | .array item => do
      let check ← child site.loop item
      pure (.allOf (.is .array :: unlessAlways check (.each 0)))
    | .property name id => do
      let check ← child (site.part (.member name)) id
      pure (.allOf (unlessAlways check (.part (.member name) n.optional)))
    | .tupleMember id | .indexSignature _ id | .rest id | .parameter _ id _ => child site id
    | .promise _ => site.promiseNotData .isType
    | .object props index _ => objectCheck a child site props index
    | .tuple members => tupleCheck a child site members
    | .union members => unionCheck (child site) members
    | .function _ => site.functionNotData .isType

/-- Visits a node for its test, as deep as the bound. -/
def checkAt (s : Setting) : Nat → Site → NodeId → Build Check
  | 0 => checks.visit s none
  | depth + 1 => checks.visit s (some (checkNode s.arena (checkAt s depth)))

end Compile

end Typeforge
