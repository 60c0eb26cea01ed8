/-
# `Typeforge.Arena.Walk` — from a type graph to nodes

The walk goes down from the root and makes a node for each declaration when it
is first met.  Met again, the declaration is referred to; met again below
itself, it is marked circular besides.  The walk knows what may stand where:
it drops members that are behaviour and not data, and refuses declarations
that are out of place.

An object keeps one index signature; the others it declares are put aside, to
be merged when the identities of all types are known.
-/
import Typeforge.Arena.Basic

namespace Typeforge

/-- The nodes made so far, and the index signatures put aside, each after its object. -/
structure WalkState where
  nodes : Array Node := #[]
  aside : List (NodeId × NodeId) := []

abbrev Walk := StateT WalkState (Except CompileError)

namespace Walk

/-- The node made for a declaration, if it was met before. -/
def made? (type : TypeId) : Walk (Option NodeId) := do
  let s ← get
  pure ((s.nodes.findIdx? fun n => n.source == type).map NodeId.mk)

def modifyNode (id : NodeId) (f : Node → Node) : Walk Unit :=
  modify fun s => { s with nodes := s.nodes.modify id.index f }

/-- Makes a node whose shape is to be filled in. -/
def make (type : TypeId) : Walk NodeId := do
  let s ← get
  set { s with nodes := s.nodes.push (.placeholder type) }
  pure ⟨s.nodes.size⟩

def shapeOf (id : NodeId) : Walk Shape := do
  let s ← get
  pure (s.nodes.getD id.index default).shape

/-- The shape of a node and its two flags, optional and readonly. -/
structure Lowered where
  shape : Shape
  optional : Bool := false
  readonly : Bool := false

/-- The error for a declaration of the wrong kind in a place. -/
def unexpected (id : TypeId) (found : TypeKind) (expected : String) : CompileError :=
  .unexpectedKind id found.name expected

/-! ## Members -/

/-- The values of an enum, whose members must be enum members. -/
def enumValues (g : TypeGraph) : List TypeId → Walk (List (String × Literal))
  | [] => pure []
  | id :: rest => do
    match ← g.kind id with
    | .enumMember name value => do
      let values ← enumValues g rest
      pure ((name, value) :: values)
    | other => throw (unexpected id other "enumMember")

/-- The nodes of a tuple's members, a rest element last. -/
def tupleMembers (g : TypeGraph) (child : TypeId → Walk NodeId) : List TypeId → Walk (List NodeId)
  | [] => pure []
  | id :: rest => do
    let kind ← g.kind id
    match kind with
    | .tupleMember _ _ _ | .rest _ => pure ()
    | other => throw (unexpected id other "tupleMember")
    let node ← child id
    if (← shapeOf node).isRest && !rest.isEmpty then
      throw (unexpected id kind "a rest element in last position")
    let nodes ← tupleMembers g child rest
    pure (node :: nodes)

/-- The nodes of a union's members; members without instances add nothing and are dropped. -/
def unionMembers (g : TypeGraph) (child : TypeId → Walk NodeId) : List TypeId → Walk (List NodeId)
  | [] => pure []
  | id :: rest => do
    match ← g.kind id with
    | .never => unionMembers g child rest
    | _ => do
      let node ← child id
      let nodes ← unionMembers g child rest
      pure (node :: nodes)

/-- The nodes of an object's properties and its first index signature. Methods, properties that
hold functions and signatures for symbols are dropped; further signatures are put aside. -/
def objectMembers (g : TypeGraph) (child : TypeId → Walk NodeId) (object : NodeId) :
    Option NodeId → List TypeId → Walk (List NodeId × Option NodeId)
  | index, [] => pure ([], index)
  | index, id :: rest => do
    match ← g.kind id with
    | .property _ type _ _ => do
      if (← g.kind type).isFunctionLike then objectMembers g child object index rest
      else do
        let node ← child id
        let (props, index) ← objectMembers g child object index rest
        pure (node :: props, index)
    | .indexSignature key _ => do
      match ← g.kind key with
      | .symbol => objectMembers g child object index rest
      | _ => do
        let node ← child id
        match index with
        | none => objectMembers g child object (some node) rest
        | some _ => do
          modify fun s => { s with aside := s.aside ++ [(object, node)] }
          objectMembers g child object index rest
    | other =>
      if other.isFunctionLike then objectMembers g child object index rest
      else throw (unexpected id other "an object member")

/-- The nodes of a function's parameters. -/
def parameters (g : TypeGraph) (child : TypeId → Walk NodeId) : List TypeId → Walk (List NodeId)
  | [] => pure []
  | id :: rest => do
    match ← g.kind id with
    | .parameter _ _ _ => do
      let node ← child id
      let nodes ← parameters g child rest
      pure (node :: nodes)
    | other => throw (unexpected id other "parameter")

/-- A function type. -/
def functionShape (g : TypeGraph) (child : TypeId → Walk NodeId) (form : FunctionForm)
    (name : Option String) (params : List TypeId) (result : TypeId) : Walk Shape := do
  let params ← parameters g child params
  let result ← child result
  pure (.function ⟨form, name, params, result⟩)

/-- An object type or class. -/
def objectShape (g : TypeGraph) (child : TypeId → Walk NodeId) (object : NodeId)
    (members : List TypeId) (className : Option String) : Walk Shape := do
  let (props, index) ← objectMembers g child object none members
  pure (.object props index className)

/-! ## Kinds -/

/-- Lowers the declaration of a node, its children by `child`. -/
def lowerKind (g : TypeGraph) (child : TypeId → Walk NodeId) (type : TypeId) (here : NodeId) :
    TypeKind → Walk Lowered
  | .never => pure { shape := .atom .never }
  | .any => pure { shape := .atom .any }
  | .unknown => pure { shape := .atom .unknown }
  | .void => pure { shape := .atom .void }
  | .object => pure { shape := .atom .object }
  | .string => pure { shape := .atom .string }
  | .number => pure { shape := .atom .number }
  | .boolean => pure { shape := .atom .boolean }
  | .symbol => pure { shape := .atom .symbol }
  | .bigint => pure { shape := .atom .bigint }
  | .null => pure { shape := .atom .null }
  | .undefined => pure { shape := .atom .undefined }
  | .regexp => pure { shape := .atom .regexp }
  | .literal value => pure { shape := .atom (.literal value) }
  | .enumMember _ value => pure { shape := .atom (.literal value) }
  | .enumeration members => do
    let values ← enumValues g members
    pure { shape := .atom (.enumeration values) }
  | .array item => do
    let item ← child item
    pure { shape := .array item }
  | .tupleMember inner optional _ => do
    match ← g.kind inner with
    | .rest element => do
      let node ← child element
      pure { shape := .rest node }
    | _ => do
      let node ← child inner
      pure { shape := .tupleMember node, optional }
  | .rest element => do
    let node ← child element
    pure { shape := .rest node }
  | .property name inner optional readonly => do
    let node ← child inner
    pure { shape := .property name node, optional, readonly }
  | .indexSignature key inner => do
    let filter ← match ← g.kind key with
      | .string => pure KeyFilter.anyKey
      | .number => pure KeyFilter.numeric
      | other => throw (unexpected key other "a string or number index key")
    let node ← child inner
    pure { shape := .indexSignature filter node }
  | .parameter name inner optional => do
    match ← g.kind inner with
    | .rest element => do
      let node ← child element
      pure { shape := .parameter name node true, optional := true }
    | _ => do
      let node ← child inner
      pure { shape := .parameter name node false, optional }
  | .promise inner => do
    let node ← child inner
    pure { shape := .promise node }
  | .tuple members => do
    let nodes ← tupleMembers g child members
    pure { shape := .tuple nodes }
  | .objectLiteral members => do
    let shape ← objectShape g child here members none
    pure { shape }
  | .classType name members =>
    if name = "Date" then pure { shape := .atom .date }
    else do
      let shape ← objectShape g child here members (some name)
      pure { shape }
  | .union members => do
    let nodes ← unionMembers g child members
    pure { shape := if nodes.isEmpty then .atom .never else .union nodes }
  | .intersection _ => throw (.unresolvedIntersection type)
  | .function name params result => do
    let shape ← functionShape g child .function name params result
    pure { shape }
  | .method name params result optional => do
    let shape ← functionShape g child .method (some name) params result
    pure { shape, optional }
  | .methodSignature name params result optional => do
    let shape ← functionShape g child .methodSignature (some name) params result
    pure { shape, optional }
  | .callSignature params result => do
    let shape ← functionShape g child .callSignature none params result
    pure { shape }

/-! ## The walk -/

/-- The node of a declaration that was met before; below itself it is marked circular. -/
def meet? (above : List TypeId) (type : TypeId) : Walk (Option NodeId) := do
  let node ← made? type
  match node with
  | some id => do
    if above.contains type then modifyNode id fun n => { n with isCircular := true }
    pure (some id)
  | none => pure none

/-- Makes the node of a declaration met for the first time, its children by `child`. -/
def lowerNew (g : TypeGraph) (child : TypeId → Walk NodeId) (type : TypeId) : Walk NodeId := do
  let declared ← g.node type
  let id ← make type
  let counted (type : TypeId) : Walk NodeId := do
    let node ← child type
    modifyNode node fun n => { n with parents := n.parents + 1 }
    pure node
  let lowered ← lowerKind g counted type id declared.kind
  modifyNode id fun n =>
    { n with
      shape := lowered.shape, typeName := declared.typeName,
      optional := lowered.optional, readonly := lowered.readonly }
  pure id

/-- The node of a declaration below others, the innermost first. The bound is on how much deeper
new declarations may be met; `limit` is the bound at the root, for the error. -/
def lowerType (g : TypeGraph) (limit : Nat) : Nat → List TypeId → TypeId → Walk NodeId
  | 0, above, type => do
    match ← meet? above type with
    | some id => pure id
    | none => throw (.maxDepth limit ("type " ++ type.text))
  | depth + 1, above, type => do
    match ← meet? above type with
    | some id => pure id
    | none => lowerNew g (lowerType g limit depth (type :: above)) type

end Walk

end Typeforge
