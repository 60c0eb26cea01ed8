/-
# `Typeforge.Sweep.Fixtures` — types to sweep over

A fixture is a type that the sweep draws mocks of.  Some are built in, one for
each shape of type; more are read from files, which hold a graph and the roots
of it to sweep.
-/
import Typeforge.Graph.Json

namespace Typeforge

namespace Sweep

structure Fixture where
  name : String
  graph : TypeGraph
  root : String

/-! ## Building graphs -/

/-- Adding to a graph. -/
abbrev Building := StateM TypeGraph

namespace Building

def add (kind : TypeKind) : Building TypeId := modifyGet fun g => (g.add kind).swap

def date : Building TypeId := modifyGet fun g => g.addDate.swap

def define (id : TypeId) (kind : TypeKind) : Building Unit := modify fun g => g.define id kind

/-- Gives a node its kind and its name. -/
def declare (id : TypeId) (name : String) (kind : TypeKind) : Building TypeId := do
  modify fun g => (g.define id kind).named id name
  pure id

def reserve : Building TypeId := modifyGet fun g => g.reserve.swap

def property (name : String) (type : TypeId) (optional : Bool := false) : Building TypeId :=
  add (.property name type optional false)

def element (type : TypeId) (optional : Bool := false) : Building TypeId :=
  add (.tupleMember type optional none)

end Building

open Building

/-- The fixture of a root that is built alone. -/
def Fixture.of (name : String) (build : Building TypeId) : Fixture :=
  let (root, g) := build.run .empty
  ⟨name, g.setRoot name root, name⟩

/-! ## Built-in fixtures -/

/-- An object that refers to itself where it may be left out. -/
def linkedList : Building TypeId := do
  let node ← reserve
  let value ← property "value" (← add .number)
  let next ← property "next" node true
  declare node "LinkedList" (.objectLiteral [value, next])

/-- An object that refers to itself through an array. -/
def tree : Building TypeId := do
  let node ← reserve
  let label ← property "label" (← add .string)
  let children ← property "children" (← add (.array node))
  declare node "Tree" (.objectLiteral [label, children])

def stringOrBigint : Building TypeId := do
  add (.union [← add .string, ← add .bigint])

/-- Declared properties besides an index signature. -/
def dictionary : Building TypeId := do
  let string ← add .string
  let number ← add .number
  let a ← property "a" string
  let b ← property "b" number
  let either ← add (.union [string, number])
  add (.objectLiteral [a, b, ← add (.indexSignature string either)])

/-- A tuple with a rest. -/
def event : Building TypeId := do
  let date ← date
  let number ← add .number
  let string ← add .string
  let instant ← element date
  let count ← element number
  add (.tuple [instant, count, ← add (.rest string)])

/-- A tuple with an optional element. -/
def pair : Building TypeId := do
  let string ← add .string
  let date ← date
  let first ← element string
  add (.tuple [first, ← element date true])

/-- The types that JSON has no place for. -/
def exotic : Building TypeId := do
  let symbol ← add .symbol
  let regexp ← add .regexp
  let bigint ← add .bigint
  let date ← date
  let sym ← property "sym" symbol
  let re ← property "re" regexp
  let big ← property "big" bigint true
  add (.objectLiteral [sym, re, big, ← property "when" date])

def status : Building TypeId :=
  modifyGet fun g => (g.addEnumeration
    [("Active", .string "active"), ("Retired", .string "retired"), ("Code", .number 7.0)]).swap

/-- An array of a union told apart by a literal. -/
def shape : Building TypeId := do
  let circle ← add (.literal (.string "circle"))
  let square ← add (.literal (.string "square"))
  let number ← add .number
  let ten ← add (.literal (.bigint 10))
  let circleKind ← property "kind" circle
  let r ← property "r" number
  let squareKind ← property "kind" square
  let side ← property "side" ten
  let circles ← add (.objectLiteral [circleKind, r])
  let squares ← add (.objectLiteral [squareKind, side])
  add (.array (← add (.union [circles, squares])))

/-- All of JSON: a union that refers to itself through an array and an index signature. -/
def json : Building TypeId := do
  let json ← reserve
  let null ← add .null
  let boolean ← add .boolean
  let number ← add .number
  let string ← add .string
  let array ← add (.array json)
  let index ← add (.indexSignature (← add .string) json)
  let object ← add (.objectLiteral [index])
  declare json "Json" (.union [null, boolean, number, string, array, object])

def catalogue : List Fixture :=
  [.of "LinkedList" linkedList, .of "Tree" tree, .of "StringOrBigint" stringOrBigint,
    .of "Dictionary" dictionary, .of "Event" event, .of "Pair" pair, .of "Exotic" exotic,
    .of "Status" status, .of "Shape" shape, .of "Json" json]

/-! ## Fixture files -/

/-- The graph of a fixture file, and the roots of it. -/
def decodeFile (j : Source) : Decoded (TypeGraph × List String) := do
  let (graph, roots) ← Decode.record ["graph", "roots"]
    (fun (r : Option TypeGraph × Option (List String)) name j =>
      if name = "graph" then do pure (some (← TypeGraph.decode j), r.2)
      else do pure (r.1, some (← Decode.list Decode.string j)))
    (none, none) j
  pure (← Decode.required "graph" graph, ← Decode.required "roots" roots)

/-- The fixtures of a file, named by its path and their roots. -/
def Fixture.ofFile (path text : String) : Decoded (List Fixture) := do
  let (graph, roots) ← Decode.text decodeFile text
  pure (roots.map fun root => ⟨path ++ "#" ++ root, graph, root⟩)

end Sweep

end Typeforge
