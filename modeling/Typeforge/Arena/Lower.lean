/-
# `Typeforge.Arena.Lower` — lowering a root of a type graph

After the walk, facts about the whole arena are filled in, one after another:
the JSON needs, the identities, the one index signature of each object, the
shared types and the heights.
-/
import Typeforge.Arena.Height
import Typeforge.Arena.Identity
import Typeforge.Arena.JsonNeeds
import Typeforge.Arena.Walk

namespace Typeforge

namespace Arena

/-! ## Index signatures -/

/-- What an object's errors call it: its type's name, or its place in the graph. -/
def errorName (n : Node) : String := n.typeName.getD ("type " ++ n.source.text)

/-- Merges into an object's index signature one that was put aside. Their value types must have
one identity; a signature for all keys takes the place of one for numeric keys. Says whether the
object changed. -/
def mergeIndex (a : Arena) (object candidate : NodeId) : Except CompileError (Arena × Bool) :=
  let n := a.node object
  match n.shape with
  | .object props (some kept) className =>
    match (a.node kept).shape, (a.node candidate).shape with
    | .indexSignature keptFilter keptChild, .indexSignature filter child =>
      if (a.node keptChild).identity ≠ (a.node child).identity then
        .error (.conflictingIndexSignatures (errorName n))
      else if keptFilter = .numeric ∧ filter = .anyKey then
        .ok (a.set object { n with shape := .object props (some candidate) className }, true)
      else .ok (a, false)
    | _, _ => .ok (a, false)
  | _ => .ok (a, false)

/-- Merges all index signatures that were put aside, in the order met. -/
def mergeIndexes : Arena → Bool → List (NodeId × NodeId) → Except CompileError (Arena × Bool)
  | a, changed, [] => .ok (a, changed)
  | a, changed, (object, candidate) :: rest => do
    let (a, merged) ← a.mergeIndex object candidate
    mergeIndexes a (changed || merged) rest

/-! ## Shared types -/

/-- The arena with the shared types marked: named, used more than once, and worth a function. -/
def markShared (a : Arena) : Arena :=
  { a with
    nodes := a.nodes.map fun n =>
      { n with isShared := n.typeName.isSome && decide (1 < n.parents) && n.hasBody } }

/-! ## The whole -/

/-- The arena of the type at a reference, declarations nested to at most `maxDepth`. -/
def lower (g : TypeGraph) (root : TypeId) (maxDepth : Nat) : Except CompileError Arena := do
  let (root, walked) ← (Walk.lowerType g maxDepth (maxDepth + 1) [] root).run {}
  let a : Arena := ⟨walked.nodes, root⟩
  let a := a.markJsonNeeds.assignIdentities
  let (a, merged) ← a.mergeIndexes false walked.aside
  let a := if merged then a.assignIdentities else a
  pure a.markShared.assignHeights

/-- The arena of a named root. -/
def lowerNamed (g : TypeGraph) (name : String) (maxDepth : Nat) : Except CompileError Arena := do
  lower g (← g.root name) maxDepth

end Arena

end Typeforge
