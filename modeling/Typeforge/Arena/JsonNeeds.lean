/-
# `Typeforge.Arena.JsonNeeds` — which types JSON carries as they are

A type needs encoding when some instance of it has to change on its way to
JSON, and decoding when something has to change on the way back.  Both are the
least facts closed under the rules of `Node.jsonNeeds`, found by sweeping: an
atom with a codec needs both, what holds such a part needs what the part
needs, and besides a class needs its reviver, a tuple with places that may be
left out needs them restored, and a union of which anything needs either way
is tagged in both.
-/
import Typeforge.Arena.Basic

namespace Typeforge

namespace Arena

/-- What a node needs, encoding first, as far as its children are known. -/
def jsonNeeds (a : Arena) (n : Node) : Bool × Bool :=
  let encodes := n.children.any fun c => (a.node c).needsEncode
  let decodes := n.children.any fun c => (a.node c).needsDecode
  match n.shape with
  | .atom x =>
    let needs := x.codec?.isSome || x.isNever
    (needs, needs)
  | .promise _ | .function _ => (true, true)
  | .tuple members => (encodes, decodes || members.any a.nullMeansAbsent)
  | .object _ _ className => (encodes, decodes || className.isSome)
  | .union _ => (encodes || decodes, encodes || decodes)
  | _ => (encodes, decodes)

/-- The node with its needs brought up to date, if they were not. -/
def improveNeeds (a : Arena) (n : Node) : Option Node :=
  let (encode, decode) := a.jsonNeeds n
  if n.needsEncode = encode ∧ n.needsDecode = decode then none
  else some { n with needsEncode := encode, needsDecode := decode }

/-- The arena with the needs of all nodes. Each sweep but the last adds one of two facts to a
node. -/
def markJsonNeeds (a : Arena) : Arena := a.settle improveNeeds (2 * a.size + 1)

end Arena

end Typeforge
