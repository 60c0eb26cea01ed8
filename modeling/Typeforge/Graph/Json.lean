/-
# `Typeforge.Graph.Json` — the stored form of type graphs

A node is stored as one flat object: the kind's name under `kind`, the fields
of that kind, and the type's name under `typeName` if it has one.  Fields with
a default may be left out; unknown ones are passed over.

The kind of a node may also be given by its number in the list of kinds.
Faults inside a node are reported at the node, except that of a wrong type
name.
-/
import Typeforge.Graph.Basic

namespace Typeforge

namespace TypeId

def toJson (t : TypeId) : Json := .ofNat t.index

def decode (j : Source) : Decoded TypeId := (Decode.nat32 j).map TypeId.mk

end TypeId

namespace TypeKind

/-! ## Writing -/

def idsToJson (ids : List TypeId) : Json := .array (ids.map TypeId.toJson)

/-- A field that is left out when there is nothing to store. -/
def optionalField (name : String) : Option String → List (String × Json)
  | some s => [(name, .string s)]
  | none => []

/-- The fields of a kind besides its name. -/
def fields : TypeKind → List (String × Json)
  | literal value => [("value", value.toJson)]
  | array item => [("item", item.toJson)]
  | tuple members | objectLiteral members | union members | intersection members
  | enumeration members => [("members", idsToJson members)]
  | tupleMember type optional name =>
    [("ty", type.toJson), ("optional", .bool optional)] ++ optionalField "name" name
  | rest type | promise type => [("ty", type.toJson)]
  | property name type optional readonly =>
    [("name", .string name), ("ty", type.toJson), ("optional", .bool optional),
      ("readonly", .bool readonly)]
  | indexSignature key type => [("key", key.toJson), ("ty", type.toJson)]
  | function name params result =>
    optionalField "name" name ++ [("params", idsToJson params), ("ret", result.toJson)]
  | method name params result optional | methodSignature name params result optional =>
    [("name", .string name), ("params", idsToJson params), ("ret", result.toJson),
      ("optional", .bool optional)]
  | callSignature params result => [("params", idsToJson params), ("ret", result.toJson)]
  | parameter name type optional =>
    [("name", .string name), ("ty", type.toJson), ("optional", .bool optional)]
  | enumMember name value => [("name", .string name), ("value", value.toJson)]
  | classType name members => [("name", .string name), ("members", idsToJson members)]
  | _ => []

/-- The stored form of a kind, its name first. -/
def storedFields (kind : TypeKind) : List (String × Json) :=
  ("kind", .string kind.name) :: kind.fields

/-! ## Reading -/

/-- The fields of a kind as far as they have been read. -/
structure Draft where
  name : Option String := none
  type : Option TypeId := none
  item : Option TypeId := none
  key : Option TypeId := none
  result : Option TypeId := none
  members : Option (List TypeId) := none
  params : Option (List TypeId) := none
  value : Option Literal := none
  optional : Bool := false
  readonly : Bool := false

namespace Draft

/-- Reads a field; only a name that may be missing may also be null. -/
def fill (nullableName : Bool) (d : Draft) (field : String) (j : Source) : Decoded Draft :=
  match field with
  | "name" =>
    if nullableName then do pure { d with name := ← Decode.optional Decode.string j }
    else do pure { d with name := some (← Decode.string j) }
  | "ty" => do pure { d with type := some (← TypeId.decode j) }
  | "item" => do pure { d with item := some (← TypeId.decode j) }
  | "key" => do pure { d with key := some (← TypeId.decode j) }
  | "ret" => do pure { d with result := some (← TypeId.decode j) }
  | "members" => do pure { d with members := some (← Decode.list TypeId.decode j) }
  | "params" => do pure { d with params := some (← Decode.list TypeId.decode j) }
  | "value" => do pure { d with value := some (← Literal.decode j) }
  | "optional" => do pure { d with optional := ← Decode.bool j }
  | "readonly" => do pure { d with readonly := ← Decode.bool j }
  | _ => pure d

def needName (d : Draft) : Decoded String := Decode.required "name" d.name

def needType (d : Draft) : Decoded TypeId := Decode.required "ty" d.type

def needResult (d : Draft) : Decoded TypeId := Decode.required "ret" d.result

def needMembers (d : Draft) : Decoded (List TypeId) := Decode.required "members" d.members

def needParams (d : Draft) : Decoded (List TypeId) := Decode.required "params" d.params

def needValue (d : Draft) : Decoded Literal := Decode.required "value" d.value

end Draft

/-- How a stored kind is read: the names of its fields in order, whether its name may be missing,
and what the fields make. -/
structure Form where
  fields : List String
  nullableName : Bool
  build : Draft → Decoded TypeKind

/-- A kind without fields. -/
def Form.plain (kind : TypeKind) : Form := ⟨[], false, fun _ => .ok kind⟩

/-- The forms of all kinds, each at its number. -/
def forms : List (String × Form) :=
  [("never", .plain never),
   ("any", .plain any),
   ("unknown", .plain unknown),
   ("void", .plain void),
   ("object", .plain object),
   ("string", .plain string),
   ("number", .plain number),
   ("boolean", .plain boolean),
   ("symbol", .plain symbol),
   ("bigint", .plain bigint),
   ("null", .plain null),
   ("undefined", .plain undefined),
   ("regexp", .plain regexp),
   ("literal", ⟨["value"], false, fun d => do pure (literal (← d.needValue))⟩),
   ("array", ⟨["item"], false, fun d => do pure (array (← Decode.required "item" d.item))⟩),
   ("tuple", ⟨["members"], false, fun d => do pure (tuple (← d.needMembers))⟩),
   ("tupleMember", ⟨["ty", "optional", "name"], true, fun d => do
      pure (tupleMember (← d.needType) d.optional d.name)⟩),
   ("rest", ⟨["ty"], false, fun d => do pure (rest (← d.needType))⟩),
   ("objectLiteral", ⟨["members"], false, fun d => do pure (objectLiteral (← d.needMembers))⟩),
   ("property", ⟨["name", "ty", "optional", "readonly"], false, fun d => do
      pure (property (← d.needName) (← d.needType) d.optional d.readonly)⟩),
   ("indexSignature", ⟨["key", "ty"], false, fun d => do
      pure (indexSignature (← Decode.required "key" d.key) (← d.needType))⟩),
   ("union", ⟨["members"], false, fun d => do pure (union (← d.needMembers))⟩),
   ("intersection", ⟨["members"], false, fun d => do pure (intersection (← d.needMembers))⟩),
   ("function", ⟨["name", "params", "ret"], true, fun d => do
      pure (function d.name (← d.needParams) (← d.needResult))⟩),
   ("method", ⟨["name", "params", "ret", "optional"], false, fun d => do
      pure (method (← d.needName) (← d.needParams) (← d.needResult) d.optional)⟩),
   ("methodSignature", ⟨["name", "params", "ret", "optional"], false, fun d => do
      pure (methodSignature (← d.needName) (← d.needParams) (← d.needResult) d.optional)⟩),
   ("callSignature", ⟨["params", "ret"], false, fun d => do
      pure (callSignature (← d.needParams) (← d.needResult))⟩),
   ("parameter", ⟨["name", "ty", "optional"], false, fun d => do
      pure (parameter (← d.needName) (← d.needType) d.optional)⟩),
   ("promise", ⟨["ty"], false, fun d => do pure (promise (← d.needType))⟩),
   ("enum", ⟨["members"], false, fun d => do pure (enumeration (← d.needMembers))⟩),
   ("enumMember", ⟨["name", "value"], false, fun d => do
      pure (enumMember (← d.needName) (← d.needValue))⟩),
   ("class", ⟨["name", "members"], false, fun d => do
      pure (classType (← d.needName) (d.members.getD []))⟩)]

/-- Reads the fields that a form calls for. -/
def Form.decode (form : Form) (j : Source) : Decoded TypeKind := do
  let draft ← Decode.recordWithDefaults form.fields (Draft.fill form.nullableName) {} j
  form.build draft

/-- The form named by the members of an object; exactly one of them names it. The others are held
back until all have been read. -/
def decodeTag (held : Bool) (form : Option Form) : List (String × RawJson) → Decoded Form
  | [] => Decode.required "kind" form
  | (k, j) :: others =>
    if k = "kind" then
      match form with
      | some _ => Decode.fail (.repeated "kind")
      | none => do
        let form ← Decode.under (.key k) (Decode.identifier forms ⟨j, held⟩)
        decodeTag held (some form) others
    else do
      let _ ← Decode.hold ⟨j, held⟩
      decodeTag held form others

/-- A kind from the members of a flat object. -/
def decodeMembers (held : Bool) (members : List (String × RawJson)) : Decoded TypeKind := do
  let form ← decodeTag held none members
  Decode.wholly (form.decode ⟨.object (members.filter fun m => m.1 != "kind"), true⟩)

/-- A kind on its own: a flat object, or an array of its name and its fields. -/
def decode : Decoder TypeKind
  | ⟨.object members, held⟩ => decodeMembers held members
  | ⟨.array (tag :: items), held⟩ => do
    let form ← Decode.under (.index 0) (Decode.identifier forms ⟨tag, held⟩)
    let fields ← Decode.hold ⟨.array items, held⟩
    Decode.wholly (form.decode fields)
  | ⟨.array [], _⟩ => Decode.fail (.missing "kind")
  | _ => Decode.fail (.wrongType "a kind of type")

end TypeKind

namespace TypeNode

def toJson (node : TypeNode) : Json :=
  .object (node.kind.storedFields ++ TypeKind.optionalField "typeName" node.typeName)

/-- A node is decoded when all of it has been read, so its fields are held back. -/
def decode : Decoder TypeNode
  | ⟨.object members, held⟩ => do
    let typeName ← Decode.fillMembers ["typeName"]
      (fun _ _ j => Decode.optional Decode.string j) held [] none members
    let kind ← Decode.wholly
      (TypeKind.decodeMembers true (members.filter fun m => m.1 != "typeName"))
    pure ⟨kind, typeName⟩
  | _ => Decode.fail (.wrongType "an object")

end TypeNode

namespace TypeGraph

def toJson (g : TypeGraph) : Json :=
  .object [
    ("nodes", .array (g.nodes.toList.map TypeNode.toJson)),
    ("roots", .object (g.roots.map fun root => (root.1, root.2.toJson)))]

def decode (j : Source) : Decoded TypeGraph := do
  let (nodes, roots) ← Decode.recordWithDefaults ["nodes", "roots"]
    (fun (r : Option (List TypeNode) × Members TypeId) name j =>
      if name = "nodes" then do pure (some (← Decode.list TypeNode.decode j), r.2)
      else do pure (r.1, ← Decode.table TypeId.decode j))
    (none, []) j
  let nodes ← Decode.required "nodes" nodes
  pure ⟨nodes.toArray, roots⟩

/-- The graph a text stores. -/
def ofText (text : String) : Decoded TypeGraph := Decode.text decode text

end TypeGraph

end Typeforge
