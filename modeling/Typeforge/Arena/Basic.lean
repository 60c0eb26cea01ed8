/-
# `Typeforge.Arena.Basic` — lowered types

Lowering turns the part of a type graph that is reachable from one root into an
arena: a list of nodes, one for each declaration met, that refer to one another
by place.  A recursive type is a cycle of references.  Each node carries the
facts that compiling and drawing need, so that neither looks at the graph.
-/
import Typeforge.Graph.Basic
import Typeforge.Code.Basic

namespace Typeforge

/-- A reference to a node of an arena. -/
structure NodeId where
  index : Nat
deriving Repr, DecidableEq, Inhabited

def NodeId.text (id : NodeId) : String := s!"n{id.index}"

/-! ## Shapes -/

/-- The types without parts. -/
inductive Atom where
  | never
  | any
  | unknown
  | void
  | object
  | string
  | number
  | boolean
  | symbol
  | bigint
  | null
  | undefined
  | regexp
  | date
  | literal (value : Literal)
  /-- Member names and values, in the order declared. -/
  | enumeration (members : List (String × Literal))

namespace Atom

def name : Atom → String
  | never => "never"
  | any => "any"
  | unknown => "unknown"
  | void => "void"
  | object => "object"
  | string => "string"
  | number => "number"
  | boolean => "boolean"
  | symbol => "symbol"
  | bigint => "bigint"
  | null => "null"
  | undefined => "undefined"
  | regexp => "regexp"
  | date => "Date"
  | literal _ => "literal"
  | enumeration _ => "enum"

/-- What validation errors say was expected. -/
def expected : Atom → String
  | literal value => value.text
  | a => a.name

/-- The codec that carries the type through JSON, if plain JSON cannot. -/
def codec? : Atom → Option Codec
  | bigint => some .bigint
  | symbol => some .symbol
  | regexp => some .regexp
  | date => some .date
  | void | undefined => some .undefined
  | literal value => value.codec?
  | _ => none

def isNever : Atom → Bool
  | never => true
  | _ => false

/-- Whether null is an instance. -/
def acceptsNull : Atom → Bool
  | null | any | unknown => true
  | _ => false

end Atom

/-- The ways a function type is declared. -/
inductive FunctionForm where
  | function
  | method
  | methodSignature
  | callSignature
deriving Repr, DecidableEq

def FunctionForm.name : FunctionForm → String
  | function => "function"
  | method => "method"
  | methodSignature => "methodSignature"
  | callSignature => "callSignature"

/-- The signature of a function type. -/
structure FunctionShape where
  form : FunctionForm
  name : Option String
  params : List NodeId
  result : NodeId

/-- What a lowered node is. -/
inductive Shape where
  | atom (a : Atom)
  | array (item : NodeId)
  | property (name : String) (child : NodeId)
  | tupleMember (child : NodeId)
  | indexSignature (filter : KeyFilter) (child : NodeId)
  /-- The element type of a tuple's remaining elements. -/
  | rest (child : NodeId)
  /-- A parameter; for all remaining arguments, the child is the type of one of them. -/
  | parameter (name : String) (child : NodeId) (rest : Bool)
  | promise (child : NodeId)
  /-- An object type or class: property nodes, and an index signature node. -/
  | object (props : List NodeId) (index : Option NodeId) (className : Option String)
  /-- Member nodes, the last of which may be a rest node. -/
  | tuple (members : List NodeId)
  | union (members : List NodeId)
  | function (f : FunctionShape)

namespace Shape

def name : Shape → String
  | atom a => a.name
  | array _ => "array"
  | property _ _ => "property"
  | tupleMember _ => "tupleMember"
  | indexSignature _ _ => "indexSignature"
  | rest _ => "rest"
  | parameter _ _ _ => "parameter"
  | promise _ => "promise"
  | object _ _ (some _) => "class"
  | object _ _ none => "objectLiteral"
  | tuple _ => "tuple"
  | union _ => "union"
  | function f => f.form.name

/-- The nodes a node refers to, in order. -/
def children : Shape → List NodeId
  | atom _ => []
  | array child | property _ child | tupleMember child | indexSignature _ child | rest child
  | parameter _ child _ | promise child => [child]
  | object props index _ => props ++ index.toList
  | tuple members | union members => members
  | function f => f.params ++ [f.result]

/-- Whether a node of this shape may get a function of its own. -/
def hasBody : Shape → Bool
  | array _ | object _ _ _ | tuple _ | union _ => true
  | _ => false

def isRest : Shape → Bool
  | rest _ => true
  | _ => false

end Shape

/-! ## Nodes and arenas -/

structure Node where
  /-- The declaration the node comes from. -/
  source : TypeId
  shape : Shape
  typeName : Option String := none
  /-- The text that names the type's structure. -/
  identity : String := ""
  /-- Met again below itself. -/
  isCircular : Bool := false
  /-- A named type with several uses. -/
  isShared : Bool := false
  /-- Whether some instance must change to be carried by JSON. -/
  needsEncode : Bool := false
  /-- Whether some carried instance must change to be restored. -/
  needsDecode : Bool := false
  optional : Bool := false
  readonly : Bool := false
  /-- The height of the least finite instance; none when every instance is infinite. -/
  minHeight : Option Nat := none
  /-- The number of references to the node. -/
  parents : Nat := 0

namespace Node

/-- A node whose shape is not known yet. -/
def placeholder (source : TypeId) : Node := { source, shape := .atom .never }

/-- The node found where there is none: a type without instances, which no code can carry. -/
instance : Inhabited Node where
  default := { placeholder ⟨0⟩ with needsEncode := true, needsDecode := true }

def children (n : Node) : List NodeId := n.shape.children

def hasBody (n : Node) : Bool := n.shape.hasBody

end Node

/-- The lowered nodes of one root type. -/
structure Arena where
  nodes : Array Node
  root : NodeId

namespace Arena

def size (a : Arena) : Nat := a.nodes.size

/-- The node at a reference. Lowering makes no reference to a place without a node; one would
find a type without instances. -/
def node (a : Arena) (id : NodeId) : Node := a.nodes.getD id.index default

def rootNode (a : Arena) : Node := a.node a.root

/-- All references into the arena, in order. -/
def ids (a : Arena) : List NodeId := (List.range a.size).map NodeId.mk

def set (a : Arena) (id : NodeId) (n : Node) : Arena :=
  { a with nodes := a.nodes.setIfInBounds id.index n }

/-! ## Walking an arena -/

/-- Takes the nodes off a stack of pending ones, each pushing those of its children that were
never pushed. The first argument bounds the number of nodes. -/
def walkStack (a : Arena) : Nat → List NodeId → List NodeId → List NodeId
  | 0, _, _ => []
  | _ + 1, _, [] => []
  | fuel + 1, seen, id :: stack =>
    let (seen, stack) := (a.node id).children.foldl
      (fun (seen, stack) child =>
        if seen.contains child then (seen, stack) else (child :: seen, child :: stack))
      (seen, stack)
    id :: walkStack a fuel seen stack

/-- The nodes that can be reached from a node, itself first. -/
def reachable (a : Arena) (id : NodeId) : List NodeId := walkStack a (a.size + 1) [id] [id]

/-- The names of the classes that can be reached from a node, in the order first reached. -/
def classNames (a : Arena) (id : NodeId) : List String :=
  (a.reachable id).foldl
    (fun names id =>
      match (a.node id).shape with
      | .object _ _ (some name) => if names.contains name then names else names ++ [name]
      | _ => names)
    []

/-! ## Null as an instance -/

/-- Whether some node of a list answers yes, handing on the nodes seen so far. -/
def anyWith (f : NodeId → List NodeId → Bool × List NodeId) :
    List NodeId → List NodeId → Bool × List NodeId
  | [], seen => (false, seen)
  | id :: rest, seen =>
    match f id seen with
    | (true, seen) => (true, seen)
    | (false, seen) => anyWith f rest seen

/-- Whether null is an instance of a node, apart from the nodes seen already. -/
def acceptsNullFrom (a : Arena) : Nat → NodeId → List NodeId → Bool × List NodeId
  | 0, _, seen => (false, seen)
  | fuel + 1, id, seen =>
    if seen.contains id then (false, seen)
    else match (a.node id).shape with
      | .atom x => (x.acceptsNull, id :: seen)
      | .tupleMember child => acceptsNullFrom a fuel child (id :: seen)
      | .union members => anyWith (acceptsNullFrom a fuel) members (id :: seen)
      | _ => (false, id :: seen)

/-- Whether null is an instance of a node. -/
def acceptsNull (a : Arena) (id : NodeId) : Bool := (a.acceptsNullFrom (a.size + 1) id []).1

/-- Whether a null in this tuple position can only stand for an element left out. -/
def nullMeansAbsent (a : Arena) (id : NodeId) : Bool := (a.node id).optional && !a.acceptsNull id

/-! ## Members of objects and tuples -/

/-- A declared property of an object type. -/
structure Property where
  id : NodeId
  name : String
  optional : Bool

/-- The properties behind a list of property nodes. -/
def properties (a : Arena) (ids : List NodeId) : List Property :=
  ids.filterMap fun id =>
    match (a.node id).shape with
    | .property name _ => some ⟨id, name, (a.node id).optional⟩
    | _ => none

/-- The index signature node of an object type, with the keys it covers. -/
def indexFilter (a : Arena) (index : Option NodeId) : Option (NodeId × KeyFilter) :=
  index.bind fun id =>
    match (a.node id).shape with
    | .indexSignature filter _ => some (id, filter)
    | _ => none

/-- The fixed positions of a tuple, and the rest node after them. -/
def splitTuple (a : Arena) (members : List NodeId) : List NodeId × Option NodeId :=
  match members.getLast? with
  | some last => if (a.node last).shape.isRest then (members.dropLast, some last) else (members, none)
  | none => (members, none)

/-! ## Sweeping an arena

A fact that depends on itself around cycles is found by sweeping over the
nodes, each improved in place from the others as they stand, until a sweep
changes nothing.
-/

/-- One sweep: improves each node that can be, and says whether any was. -/
def sweep (improve : Arena → Node → Option Node) (a : Arena) : Arena × Bool :=
  a.ids.foldl
    (fun (a, changed) id =>
      match improve a (a.node id) with
      | some n => (a.set id n, true)
      | none => (a, changed))
    (a, false)

/-- Sweeps until nothing changes, at most the given number of times. -/
def settle (improve : Arena → Node → Option Node) : Nat → Arena → Arena
  | 0, a => a
  | fuel + 1, a =>
    let (a, changed) := a.sweep improve
    if changed then settle improve fuel a else a

end Arena

end Typeforge
