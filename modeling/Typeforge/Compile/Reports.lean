/-
# `Typeforge.Compile.Reports` — compiling types into error reports

A node with a shape of its own expects that shape and only then looks at its
parts.  A union does not look at its members one by one: it expects the test of
the union.
-/
import Typeforge.Compile.Checks

namespace Typeforge

namespace Compile

/-- The language of reports. -/
def reports : Language (List Report) where
  target := .typeErrors
  plain? _ := none
  call identity path := [.call identity path]
  toBody := .typeErrors

/-- A list with a statement about a body, unless the body is empty. -/
def unlessEmpty {α : Type} (body : List α) (wrap : List α → α) : List α :=
  if body.isEmpty then [] else [wrap body]

/-- A statement that a test holds, unless it always does. -/
def expectation (check : Check) (path : List PathSegment) (expected : String) : List Report :=
  if check.isAlways then [] else [.expect check path expected []]

/-- The report of an object type. -/
def objectReport (a : Arena) (child : Site → NodeId → Build (List Report)) (site : Site)
    (ids : List NodeId) (index : Option NodeId) (className : Option String) :
    Build (List Report) := do
  let props := a.properties ids
  let declared ← props.mapM fun p => child site p.id
  let others ← match a.indexFilter index with
    | some (id, filter) => do
      let body ← child site.loop id
      pure (unlessEmpty body (.eachKey filter (declaredNames props)))
    | none => pure []
  pure [.expect (.is .object) site.path (className.getD "object") (declared.flatten ++ others)]

/-- The report of a tuple type. -/
def tupleReport (a : Arena) (child : Site → NodeId → Build (List Report)) (site : Site)
    (members : List NodeId) : Build (List Report) := do
  let (fixed, rest) := a.splitTuple members
  let elements ← fixed.zipIdx.mapM fun (id, i) => do
    let body ← child (site.part (.element i)) id
    pure (unlessEmpty body (.part (.element i) (a.node id).optional))
  let others ← match rest with
    | some id => do
      let body ← child site.loop id
      pure (unlessEmpty body (.each fixed.length))
    | none => pure []
  let shape := Check.allOf (tupleShape fixed.length rest.isSome)
  pure [.expect shape site.path "tuple" (elements.flatten ++ others)]

/-- The report of a node, its children's by `child`; `check` compiles tests of a union's members. -/
def reportNode (a : Arena) (check : Site → NodeId → Build Check)
    (child : Site → NodeId → Build (List Report)) : Compiler (List Report)
  | site, n =>
    match n.shape with
    | .atom x =>
      match x.check? with
      | some check => pure (expectation check site.path x.expected)
      | none => site.never .typeErrors
    | .array item => do
      let body ← child site.loop item
      pure [.expect (.is .array) site.path "array" (unlessEmpty body (.each 0))]
    | .property name id => do
      let body ← child (site.part (.member name)) id
      pure (unlessEmpty body (.part (.member name) n.optional))
    | .tupleMember id | .indexSignature _ id | .rest id | .parameter _ id _ => child site id
    | .promise _ => site.promiseNotData .typeErrors
    | .object props index className => objectReport a child site props index className
    | .tuple members => tupleReport a child site members
    | .union members => do
      let check ← unionCheck (check site) members
      pure (expectation check site.path "union")
    | .function _ => site.functionNotData .typeErrors

/-- Visits a node for its report, as deep as the bound. -/
def reportAt (s : Setting) : Nat → Site → NodeId → Build (List Report)
  | 0 => reports.visit s none
  | depth + 1 =>
    reports.visit s (some (reportNode s.arena (checkAt s depth) (reportAt s depth)))

end Compile

end Typeforge
