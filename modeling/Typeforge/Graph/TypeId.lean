/-
# `Typeforge.Graph.TypeId` — references between the nodes of a type graph
-/

namespace Typeforge

/-- A reference to a node of a type graph, by its place in the list of nodes. -/
structure TypeId where
  index : Nat
deriving Repr, DecidableEq, Inhabited

/-- The text of a reference: `#` and the place. -/
def TypeId.text (t : TypeId) : String := s!"#{t.index}"

end Typeforge
