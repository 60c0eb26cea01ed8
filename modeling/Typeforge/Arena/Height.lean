/-
# `Typeforge.Arena.Height` — the height of the least instance

The height of a type is that of its least finite instance: what may be empty
or left out has height nought, a union is one above its lowest member, an
object or tuple one above its highest.  A type without finite instances has no
height.  Heights are the least solution of these equations, found by sweeping
from no heights at all.
-/
import Typeforge.Arena.Basic

namespace Typeforge

/-- The least of the heights there are. -/
def leastHeight : List (Option Nat) → Option Nat
  | [] => none
  | none :: rest => leastHeight rest
  | some h :: rest =>
    match leastHeight rest with
    | some k => some (min h k)
    | none => some h

/-- The greatest of the heights, if there is one for each. -/
def greatestHeight : List (Option Nat) → Option Nat
  | [] => some 0
  | none :: _ => none
  | some h :: rest => (greatestHeight rest).map (max h)

namespace Arena

/-- The height of a node as far as those of its children are known. -/
def height (a : Arena) (n : Node) : Option Nat :=
  let below (id : NodeId) := (a.node id).minHeight
  match n.shape with
  | .atom .never => none
  | .atom (.enumeration []) => none
  | .atom _ | .function _ => some 0
  | .array _ | .rest _ | .indexSignature _ _ => some 0
  | .parameter _ child rest => if rest || n.optional then some 0 else below child
  | .property _ child | .tupleMember child | .promise child =>
    if n.optional then some 0 else below child
  | .union members => (leastHeight (members.map below)).map (· + 1)
  | .object _ _ _ | .tuple _ => (greatestHeight (n.children.map below)).map (· + 1)

/-- The node with a lower height, if it has one. -/
def improveHeight (a : Arena) (n : Node) : Option Node :=
  match a.height n, n.minHeight with
  | some new, some old => if new < old then some { n with minHeight := some new } else none
  | some new, none => some { n with minHeight := some new }
  | none, _ => none

/-- The arena with the heights of all nodes. A least instance repeats no node on a branch, so
that its height is known after as many sweeps as there are nodes. -/
def assignHeights (a : Arena) : Arena := a.settle improveHeight (2 * a.size + 2)

end Arena

end Typeforge
