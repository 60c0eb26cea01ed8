/-
# `Typeforge.Graph.Basic` — graphs of declared types

A type graph is a list of nodes that refer to one another by place, with named
roots among them.  A node says what kind of type it declares; references
instead of nesting let a type refer to itself.

Some kinds of node stand only inside certain others: tuple members and rest
elements inside tuples, properties, index signatures and methods inside object
types and classes, parameters inside functions, enum members inside enums.
The graph does not enforce this; lowering does.
-/
import Typeforge.Compile.Error
import Typeforge.Graph.Literal

namespace Typeforge

/-- What kind of type a node declares. -/
inductive TypeKind where
  | never
  | any
  | unknown
  | void
  /-- The `object` keyword: whatever is not primitive. -/
  | object
  | string
  | number
  | boolean
  | symbol
  | bigint
  | null
  | undefined
  | regexp
  | literal (value : Literal)
  | array (item : TypeId)
  | tuple (members : List TypeId)
  | tupleMember (type : TypeId) (optional : Bool) (name : Option String)
  /-- The remaining elements of a tuple or parameter list; the type is that of one element. -/
  | rest (type : TypeId)
  | objectLiteral (members : List TypeId)
  | property (name : String) (type : TypeId) (optional readonly : Bool)
  | indexSignature (key type : TypeId)
  | union (members : List TypeId)
  | intersection (members : List TypeId)
  | function (name : Option String) (params : List TypeId) (result : TypeId)
  | method (name : String) (params : List TypeId) (result : TypeId) (optional : Bool)
  | methodSignature (name : String) (params : List TypeId) (result : TypeId) (optional : Bool)
  | callSignature (params : List TypeId) (result : TypeId)
  /-- A rest parameter has a rest node as its type. -/
  | parameter (name : String) (type : TypeId) (optional : Bool)
  | promise (type : TypeId)
  | enumeration (members : List TypeId)
  | enumMember (name : String) (value : Literal)
  /-- The instances of a class; the class named `Date` is that of the native dates. -/
  | classType (name : String) (members : List TypeId)

namespace TypeKind

instance : Inhabited TypeKind := ⟨.never⟩

def name : TypeKind → String
  | never => "never"
  | any => "any"
  | unknown => "unknown"
  | void => "void"
  | object => "object"
  | string => "string"
  | number => "number"
  | boolean => "boolean"
  | symbol => "symbol"
  | bigint => "bigint"
  | null => "null"
  | undefined => "undefined"
  | regexp => "regexp"
  | literal _ => "literal"
  | array _ => "array"
  | tuple _ => "tuple"
  | tupleMember _ _ _ => "tupleMember"
  | rest _ => "rest"
  | objectLiteral _ => "objectLiteral"
  | property _ _ _ _ => "property"
  | indexSignature _ _ => "indexSignature"
  | union _ => "union"
  | intersection _ => "intersection"
  | function _ _ _ => "function"
  | method _ _ _ _ => "method"
  | methodSignature _ _ _ _ => "methodSignature"
  | callSignature _ _ => "callSignature"
  | parameter _ _ _ => "parameter"
  | promise _ => "promise"
  | enumeration _ => "enum"
  | enumMember _ _ => "enumMember"
  | classType _ _ => "class"

/-- Whether the type is one of functions, which are behaviour and not data. -/
def isFunctionLike : TypeKind → Bool
  | function _ _ _ | method _ _ _ _ | methodSignature _ _ _ _ | callSignature _ _ => true
  | _ => false

/-- The types a node refers to, in the order declared. -/
def children : TypeKind → List TypeId
  | array item => [item]
  | tupleMember type _ _ | rest type | property _ type _ _ | parameter _ type _ | promise type =>
    [type]
  | indexSignature key type => [key, type]
  | tuple members | objectLiteral members | union members | intersection members
  | enumeration members | classType _ members => members
  | function _ params result | method _ params result _ | methodSignature _ params result _
  | callSignature params result => params ++ [result]
  | _ => []

end TypeKind

/-- A node: the kind of type, and the name it was declared under, if any. -/
structure TypeNode where
  kind : TypeKind
  typeName : Option String
deriving Inhabited

/-- A graph of types with named roots. -/
structure TypeGraph where
  nodes : Array TypeNode
  roots : Members TypeId
deriving Inhabited

namespace TypeGraph

def empty : TypeGraph := ⟨#[], []⟩

/-! ## Looking up -/

def node (g : TypeGraph) (id : TypeId) : Except CompileError TypeNode :=
  match g.nodes[id.index]? with
  | some node => .ok node
  | none => .error (.danglingType id)

/-- The kind of the node at a reference. -/
def kind (g : TypeGraph) (id : TypeId) : Except CompileError TypeKind := (g.node id).map (·.kind)

def root (g : TypeGraph) (name : String) : Except CompileError TypeId :=
  match Members.get? name g.roots with
  | some id => .ok id
  | none => .error (.unknownRoot name)

/-- Fails at the first reference to no node: those of the nodes in order, then the roots. -/
def validate (g : TypeGraph) : Except CompileError Unit := do
  for node in g.nodes.toList do
    for child in node.kind.children do
      let _ ← g.node child
  for root in g.roots do
    let _ ← g.node root.2

/-! ## Putting a graph together -/

/-- Adds a node without a name and returns its place. -/
def add (g : TypeGraph) (kind : TypeKind) : TypeGraph × TypeId :=
  ({ g with nodes := g.nodes.push ⟨kind, none⟩ }, ⟨g.nodes.size⟩)

/-- Keeps a place for a node that is defined later, so that nodes before it can refer to it. -/
def reserve (g : TypeGraph) : TypeGraph × TypeId := g.add .never

/-- Gives the node at a place its kind. -/
def define (g : TypeGraph) (id : TypeId) (kind : TypeKind) : TypeGraph :=
  { g with nodes := g.nodes.modify id.index fun node => { node with kind } }

/-- Gives the node at a place its name. -/
def named (g : TypeGraph) (id : TypeId) (name : String) : TypeGraph :=
  { g with nodes := g.nodes.modify id.index fun node => { node with typeName := some name } }

def setRoot (g : TypeGraph) (name : String) (id : TypeId) : TypeGraph :=
  { g with roots := Members.put name id g.roots }

/-- The class of the native dates. -/
def addDate (g : TypeGraph) : TypeGraph × TypeId := g.add (.classType "Date" [])

/-- A tuple of required elements. -/
def addTuple (g : TypeGraph) (elements : List TypeId) : TypeGraph × TypeId :=
  let (g, members) := addMembers g elements
  g.add (.tuple members)
where
  addMembers (g : TypeGraph) : List TypeId → TypeGraph × List TypeId
    | [] => (g, [])
    | id :: rest =>
      let (g, member) := g.add (.tupleMember id false none)
      let (g, members) := addMembers g rest
      (g, member :: members)

/-- A parameter for all remaining arguments, of the element type given. -/
def addRestParam (g : TypeGraph) (name : String) (element : TypeId) : TypeGraph × TypeId :=
  let (g, rest) := g.add (.rest element)
  g.add (.parameter name rest false)

/-- An enum of the members given. -/
def addEnumeration (g : TypeGraph) (values : List (String × Literal)) : TypeGraph × TypeId :=
  let (g, members) := addMembers g values
  g.add (.enumeration members)
where
  addMembers (g : TypeGraph) : List (String × Literal) → TypeGraph × List TypeId
    | [] => (g, [])
    | (name, value) :: rest =>
      let (g, member) := g.add (.enumMember name value)
      let (g, members) := addMembers g rest
      (g, member :: members)

end TypeGraph

end Typeforge
