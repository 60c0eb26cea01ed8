/-
# `Typeforge.Mock.Arguments` — drawing argument lists

Arguments are drawn for the parameters in order.  The first optional parameter
that is left out ends the list; a parameter for all remaining arguments adds as
many as are drawn for it.
-/
import Typeforge.Mock.Walk

namespace Typeforge

namespace Mock

/-- Draws arguments for parameters, counted from `i`. -/
def drawArguments (x : Context) : Nat → List NodeId → Draw (List Value)
  | _, [] => pure []
  | i, id :: others => do
    let n := x.arena.node id
    let site : Site := {}
    match n.shape with
    | .parameter _ _ true => do
      let drawn ← draw x (site.part (.element i)) id
      let rest ← drawArguments x (i + 1) others
      match drawn with
      | .array items => pure (items ++ rest)
      | v => pure (v :: rest)
    | _ => do
      let included ← if n.optional then x.includeOptional site else pure true
      if included then do
        let drawn ← draw x (site.part (.element i)) id
        let rest ← drawArguments x (i + 1) others
        pure (drawn :: rest)
      else pure []

end Mock

end Typeforge
