/-
# `Typeforge.Arena.Identity` — texts that name structures

The identity of a node is a text for the structure below it: two nodes with
one identity are compiled to one function.  A reference back to a node that is
still being named is written `$n`, for the node `n` levels up, so that a text
means the same wherever it stands.  The text of a node that refers to nothing
above itself is kept and used again.
-/
import Typeforge.Arena.Basic
import Typeforge.Code.Path

namespace Typeforge

namespace Node

def optionalSign (n : Node) : String := if n.optional then "?" else ""

/-- The text of a node, given those of its children. -/
def describe (n : Node) (kids : List String) : String :=
  let one := kids.headD ""
  match n.shape with
  | .atom (.literal value) => "lit:" ++ value.text
  | .atom (.enumeration members) =>
    "enum<" ++ ",".intercalate (members.map fun m => m.2.text) ++ ">"
  | .atom a => a.name
  | .array _ => "array<" ++ one ++ ">"
  | .property name _ => keyText name ++ n.optionalSign ++ ":" ++ one
  | .tupleMember _ => one ++ n.optionalSign
  | .indexSignature filter _ => "[" ++ filter.name ++ "]:" ++ one
  | .rest _ => "..." ++ one
  | .parameter _ _ rest => if rest then "..." ++ one else one ++ n.optionalSign
  | .promise _ => "promise<" ++ one ++ ">"
  | .object _ _ (some className) =>
    "class " ++ className ++ "\x7b" ++ ",".intercalate kids ++ "\x7d"
  | .object _ _ none => "\x7b" ++ ",".intercalate kids ++ "\x7d"
  | .tuple _ => "[" ++ ",".intercalate kids ++ "]"
  | .union _ => "union<" ++ "|".intercalate kids ++ ">"
  | .function f =>
    f.form.name ++ "(" ++ ",".intercalate kids.dropLast ++ ")=>" ++ kids.getLastD ""

end Node

/-- A text, and the lowest place of the stack that it refers to, if it refers to any. -/
structure Named where
  text : String
  lowest : Option Nat

/-- The lower of two places. -/
def lowerPlace : Option Nat → Option Nat → Option Nat
  | none, p => p
  | p, none => p
  | some p, some q => some (min p q)

/-- The texts kept so far, by node. -/
abbrev Naming := StateM (Array (Option String))

namespace Arena

/-- Names the nodes of a list, one after the other. -/
def nameAll (name : NodeId → Naming Named) : List NodeId → Naming (List String × Option Nat)
  | [] => pure ([], none)
  | id :: rest => do
    let first ← name id
    let (texts, lowest) ← nameAll name rest
    pure (first.text :: texts, lowerPlace first.lowest lowest)

/-- Names a node below a stack of others, the innermost first. The bound is on the depth of the
stack, whose nodes all differ. -/
def nameNode (a : Arena) : Nat → List NodeId → NodeId → Naming Named
  | 0, _, _ => pure ⟨"", none⟩
  | fuel + 1, stack, id => do
    match ((← get)[id.index]?).join with
    | some text => pure ⟨text, none⟩
    | none =>
      match stack.findIdx? (· == id) with
      | some up => pure ⟨s!"${up + 1}", some (stack.length - (up + 1))⟩
      | none =>
        let (kids, lowest) ← nameAll (nameNode a fuel (id :: stack)) (a.node id).children
        let text := (a.node id).describe kids
        let refersAbove := match lowest with
          | some place => decide (place < stack.length)
          | none => false
        unless refersAbove do
          modify fun kept => kept.setIfInBounds id.index (some text)
        pure ⟨text, lowest⟩

/-- The identities of all nodes, each named as the root of its own structure. -/
def identities (a : Arena) : List String :=
  let names : Naming (List String) := a.ids.mapM fun id => do
    let named ← a.nameNode (a.size + 1) [] id
    pure named.text
  (names.run (Array.replicate a.size none)).1

/-- The arena with the identities of all nodes. -/
def assignIdentities (a : Arena) : Arena :=
  let nodes := (a.nodes.toList.zip a.identities).map fun (n, identity) => { n with identity }
  { a with nodes := nodes.toArray }

end Arena

end Typeforge
