/-
# `Typeforge.Code.Json` — the stored form of compiled code

Statements and expressions are stored by name: a bare name where there is no
content, and otherwise an object with the name and its content.  The body of a
function stands beside the target it is for.

Code nests at least one array or object deeper at each step, so that a decoder
that goes as deep as a document may be nested reaches every part of it.
-/
import Typeforge.Code.Basic

namespace Typeforge

/-- A named alternative with its content. -/
def Json.named (name : String) (content : Json) : Json := .object [(name, content)]

/-! ## Names -/

namespace Codec

def storedNames : List (String × Codec) :=
  [("bigInt", bigint), ("symbol", symbol), ("regExp", regexp), ("date", date),
    ("undefined", undefined)]

def storedName : Codec → String
  | bigint => "bigInt"
  | symbol => "symbol"
  | regexp => "regExp"
  | date => "date"
  | undefined => "undefined"

def toJson (c : Codec) : Json := .string c.storedName

def ofJson : Decoder Codec := Decode.oneOf storedNames

end Codec

namespace Target

def toJson (t : Target) : Json := .string t.name

def storedNames : List (String × Target) := all.map fun t => (t.name, t)

def decode : Decoder Target := Decode.oneOf storedNames

end Target

namespace KeyFilter

def toJson (f : KeyFilter) : Json := .string f.name

def decode : Decoder KeyFilter := Decode.oneOf [("string", anyKey), ("number", numeric)]

end KeyFilter

namespace Kind

def all : List Kind :=
  [string, boolean, bigint, symbol, regexp, date, array, object, nonPrimitive, null, undefined,
    function]

def storedName : Kind → String
  | string => "string"
  | boolean => "boolean"
  | bigint => "bigInt"
  | symbol => "symbol"
  | regexp => "regExp"
  | date => "date"
  | array => "array"
  | object => "object"
  | nonPrimitive => "nonPrimitive"
  | null => "null"
  | undefined => "undefined"
  | function => "function"

def toJson (k : Kind) : Json := .string k.storedName

def decode : Decoder Kind := Decode.oneOf (all.map fun k => (k.storedName, k))

end Kind

namespace FunctionKey

def toJson (k : FunctionKey) : Json :=
  .object [("jit_id", .string k.identity), ("op", k.target.toJson)]

def decode (j : Source) : Decoded FunctionKey := do
  let (identity, target) ← Decode.record ["jit_id", "op"]
    (fun (r : Option String × Option Target) name j =>
      if name = "jit_id" then do pure (some (← Decode.string j), r.2)
      else do pure (r.1, some (← Target.decode j)))
    (none, none) j
  pure ⟨← Decode.required "jit_id" identity, ← Decode.required "op" target⟩

end FunctionKey

/-! ## Parts and paths -/

namespace Access

def toJson : Access → Json
  | member name => .named "prop" (.string name)
  | element i => .named "index" (.ofNat i)

def decode : Decoder Access :=
  Decode.variant [] ["prop", "index"] fun name j =>
    match name with
    | "prop" => (Decode.string j).map member
    | _ => (Decode.nat64 j).map element

end Access

namespace PathSegment

def toJson : PathSegment → Json
  | key name => .named "key" (.string name)
  | index i => .named "index" (.ofNat i)
  | loop depth => .named "loop" (.ofNat depth)

def decode : Decoder PathSegment :=
  Decode.variant [] ["key", "index", "loop"] fun name j =>
    match name with
    | "key" => (Decode.string j).map key
    | "index" => (Decode.nat64 j).map index
    | _ => (Decode.natBelow 256 j).map loop

end PathSegment

def pathToJson (path : List PathSegment) : Json := .array (path.map PathSegment.toJson)

/-! ## The three statements about parts

Checks, reports and transforms share the statements about one part, each
element and each key; what they apply to the part is stored under a name of
the language's own.
-/

/-- A statement about parts, as far as it has been read. -/
structure PartDraft (α : Type) where
  access : Option Access := none
  optional : Option Bool := none
  start : Option Nat := none
  filter : Option KeyFilter := none
  skip : Option (List String) := none
  content : Option α := none

namespace PartDraft

variable {α : Type}

def fill (decode : Decoder α) (d : PartDraft α) (name : String) (j : Source) :
    Decoded (PartDraft α) :=
  match name with
  | "access" => do pure { d with access := some (← Access.decode j) }
  | "optional" => do pure { d with optional := some (← Decode.bool j) }
  | "from" => do pure { d with start := some (← Decode.nat64 j) }
  | "filter" => do pure { d with filter := some (← KeyFilter.decode j) }
  | "skip" => do pure { d with skip := some (← Decode.list Decode.string j) }
  | _ => do pure { d with content := some (← decode j) }

/-- A statement about one part. -/
def part (contentName : String) (decode : Decoder α) (j : Source) :
    Decoded (Access × Bool × α) := do
  let d ← Decode.record ["access", "optional", contentName] (fill decode) {} j
  pure (← Decode.required "access" d.access, ← Decode.required "optional" d.optional,
    ← Decode.required contentName d.content)

/-- A statement about each element from an index on. -/
def each (contentName : String) (decode : Decoder α) (j : Source) : Decoded (Nat × α) := do
  let d ← Decode.record ["from", contentName] (fill decode) {} j
  pure (← Decode.required "from" d.start, ← Decode.required contentName d.content)

/-- A statement about each key that a filter covers. -/
def eachKey (contentName : String) (decode : Decoder α) (j : Source) :
    Decoded (KeyFilter × List String × α) := do
  let d ← Decode.record ["filter", "skip", contentName] (fill decode) {} j
  pure (← Decode.required "filter" d.filter, ← Decode.required "skip" d.skip,
    ← Decode.required contentName d.content)

end PartDraft

def partToJson (access : Access) (optional : Bool) (contentName : String) (content : Json) : Json :=
  .named "at" (.object [("access", access.toJson), ("optional", .bool optional),
    (contentName, content)])

def eachToJson (start : Nat) (contentName : String) (content : Json) : Json :=
  .named "each" (.object [("from", .ofNat start), (contentName, content)])

def eachKeyToJson (filter : KeyFilter) (skip : List String) (contentName : String)
    (content : Json) : Json :=
  .named "eachKey" (.object [("filter", filter.toJson), ("skip", .array (skip.map .string)),
    (contentName, content)])

/-! ## Checks -/

namespace Check

mutual

def toJson : Check → Json
  | always => .string "always"
  | is kind => .named "is" kind.toJson
  | finiteNumber => .string "finiteNumber"
  | equals literal => .named "equals" literal.toJson
  | anyOf literals => .named "oneOf" (.array (literals.map Literal.toJson))
  | maxLength n => .named "maxLen" (.ofNat n)
  | all checks => .named "all" (.array (listToJson checks))
  | any checks => .named "any" (.array (listToJson checks))
  | part access optional check => partToJson access optional "check" check.toJson
  | each start check => eachToJson start "check" check.toJson
  | eachKey filter skip check => eachKeyToJson filter skip "check" check.toJson
  | call identity => .named "call" (.string identity)

def listToJson : List Check → List Json
  | [] => []
  | c :: rest => c.toJson :: listToJson rest

end

/-- The check with a name and content; parts inside it are decoded by `check`. -/
def decodeNamed (check : Decoder Check) (name : String) (j : Source) : Decoded Check :=
  match name with
  | "is" => (Kind.decode j).map is
  | "equals" => (Literal.decode j).map equals
  | "oneOf" => (Decode.list Literal.decode j).map anyOf
  | "maxLen" => (Decode.nat64 j).map maxLength
  | "all" => (Decode.list check j).map all
  | "any" => (Decode.list check j).map any
  | "at" => do
    let (access, optional, c) ← PartDraft.part "check" check j
    pure (part access optional c)
  | "each" => do
    let (start, c) ← PartDraft.each "check" check j
    pure (each start c)
  | "eachKey" => do
    let (filter, skip, c) ← PartDraft.eachKey "check" check j
    pure (eachKey filter skip c)
  | "call" => (Decode.string j).map call
  | _ => Decode.fail (.unknownName name)

/-- The checks that are bare names. -/
def bareNames : List (String × Check) := [("always", always), ("finiteNumber", finiteNumber)]

/-- The names of the checks with content. -/
def contentNames : List String :=
  ["is", "equals", "oneOf", "maxLen", "all", "any", "at", "each", "eachKey", "call"]

def decodeWithin : Nat → Decoder Check
  | 0 => fun _ => Decode.fail .tooDeep
  | fuel + 1 => Decode.variant bareNames contentNames (decodeNamed (decodeWithin fuel))

def decode : Decoder Check := decodeWithin (Json.depthLimit + 1)

end Check

/-! ## Reports -/

namespace Report

mutual

def toJson : Report → Json
  | expect check path expected after =>
    .named "expect" (.object [("check", check.toJson), ("path", pathToJson path),
      ("expected", .string expected), ("then", .array (listToJson after))])
  | part access optional body => partToJson access optional "body" (.array (listToJson body))
  | each start body => eachToJson start "body" (.array (listToJson body))
  | eachKey filter skip body => eachKeyToJson filter skip "body" (.array (listToJson body))
  | call identity path =>
    .named "call" (.object [("jit_id", .string identity), ("path", pathToJson path)])

def listToJson : List Report → List Json
  | [] => []
  | r :: rest => r.toJson :: listToJson rest

end

/-- An expectation or a call, as far as it has been read. -/
structure Draft where
  check : Option Check := none
  path : Option (List PathSegment) := none
  expected : Option String := none
  after : Option (List Report) := none
  identity : Option String := none

def Draft.fill (report : Decoder Report) (d : Draft) (name : String) (j : Source) :
    Decoded Draft :=
  match name with
  | "check" => do pure { d with check := some (← Check.decode j) }
  | "path" => do pure { d with path := some (← Decode.list PathSegment.decode j) }
  | "expected" => do pure { d with expected := some (← Decode.string j) }
  | "then" => do pure { d with after := some (← Decode.list report j) }
  | "jit_id" => do pure { d with identity := some (← Decode.string j) }
  | _ => pure d

def decodeNamed (report : Decoder Report) (name : String) (j : Source) : Decoded Report :=
  match name with
  | "expect" => do
    let d ← Decode.record ["check", "path", "expected", "then"] (Draft.fill report) {} j
    pure (expect (← Decode.required "check" d.check) (← Decode.required "path" d.path)
      (← Decode.required "expected" d.expected) (← Decode.required "then" d.after))
  | "at" => do
    let (access, optional, body) ← PartDraft.part "body" (Decode.list report) j
    pure (part access optional body)
  | "each" => do
    let (start, body) ← PartDraft.each "body" (Decode.list report) j
    pure (each start body)
  | "eachKey" => do
    let (filter, skip, body) ← PartDraft.eachKey "body" (Decode.list report) j
    pure (eachKey filter skip body)
  | "call" => do
    let d ← Decode.record ["jit_id", "path"] (Draft.fill report) {} j
    pure (call (← Decode.required "jit_id" d.identity) (← Decode.required "path" d.path))
  | _ => Decode.fail (.unknownName name)

/-- The names of reports. -/
def contentNames : List String := ["expect", "at", "each", "eachKey", "call"]

def decodeWithin : Nat → Decoder Report
  | 0 => fun _ => Decode.fail .tooDeep
  | fuel + 1 => Decode.variant [] contentNames (decodeNamed (decodeWithin fuel))

def decode : Decoder Report := decodeWithin (Json.depthLimit + 1)

end Report

/-! ## Transforms -/

namespace Transform

mutual

def toJson : Transform → Json
  | encode codec => .named "encode" codec.toJson
  | decode codec => .named "decode" codec.toJson
  | part access optional body => partToJson access optional "body" (.array (listToJson body))
  | absent access => .named "absent" access.toJson
  | each start body => eachToJson start "body" (.array (listToJson body))
  | eachKey filter skip body => eachKeyToJson filter skip "body" (.array (listToJson body))
  | tag union arms =>
    .named "tag" (.object [("union", .string union), ("arms", .array (armsToJson arms))])
  | untag arms => .named "untag" (.object [("arms", .array (bodiesToJson arms))])
  | revive className => .named "revive" (.string className)
  | call identity => .named "call" (.string identity)

def listToJson : List Transform → List Json
  | [] => []
  | t :: rest => t.toJson :: listToJson rest

def armsToJson : List (Check × List Transform) → List Json
  | [] => []
  | (check, body) :: rest =>
    .object [("check", check.toJson), ("body", .array (listToJson body))] :: armsToJson rest

def bodiesToJson : List (List Transform) → List Json
  | [] => []
  | body :: rest => .array (listToJson body) :: bodiesToJson rest

end

/-- An arm of a tagged union. -/
def decodeArm (transform : Decoder Transform) (j : Source) :
    Decoded (Check × List Transform) := do
  let (check, body) ← Decode.record ["check", "body"]
    (fun (r : Option Check × Option (List Transform)) name j =>
      if name = "check" then do pure (some (← Check.decode j), r.2)
      else do pure (r.1, some (← Decode.list transform j)))
    (none, none) j
  pure (← Decode.required "check" check, ← Decode.required "body" body)

def decodeNamed (transform : Decoder Transform) (name : String) (j : Source) :
    Decoded Transform :=
  match name with
  | "encode" => (Codec.ofJson j).map encode
  | "decode" => (Codec.ofJson j).map decode
  | "at" => do
    let (access, optional, body) ← PartDraft.part "body" (Decode.list transform) j
    pure (part access optional body)
  | "absent" => (Access.decode j).map absent
  | "each" => do
    let (start, body) ← PartDraft.each "body" (Decode.list transform) j
    pure (each start body)
  | "eachKey" => do
    let (filter, skip, body) ← PartDraft.eachKey "body" (Decode.list transform) j
    pure (eachKey filter skip body)
  | "tag" => do
    let (union, arms) ← Decode.record ["union", "arms"]
      (fun (r : Option String × Option (List (Check × List Transform))) name j =>
        if name = "union" then do pure (some (← Decode.string j), r.2)
        else do pure (r.1, some (← Decode.list (decodeArm transform) j)))
      (none, none) j
    pure (tag (← Decode.required "union" union) (← Decode.required "arms" arms))
  | "untag" => do
    let arms ← Decode.record ["arms"]
      (fun (_ : Option (List (List Transform))) _ j => do
        pure (some (← Decode.list (Decode.list transform) j)))
      none j
    pure (untag (← Decode.required "arms" arms))
  | "revive" => (Decode.string j).map revive
  | "call" => (Decode.string j).map call
  | _ => Decode.fail (.unknownName name)

/-- The names of transforms. -/
def contentNames : List String :=
  ["encode", "decode", "at", "absent", "each", "eachKey", "tag", "untag", "revive", "call"]

def decodeWithin : Nat → Decoder Transform
  | 0 => fun _ => Decode.fail .tooDeep
  | fuel + 1 => Decode.variant [] contentNames (decodeNamed (decodeWithin fuel))

def ofJson : Decoder Transform := decodeWithin (Json.depthLimit + 1)

end Transform

/-! ## Emitters -/

namespace Emit

mutual

def toJson : Emit → Json
  | json => .string "json"
  | encoded codec => .named "encoded" codec.toJson
  | object members index =>
    .named "object" (.object [("props", .array (membersToJson members)),
      ("index", indexToJson index)])
  | array item => .named "array" (.object [("item", item.toJson)])
  | tuple elements rest =>
    .named "tuple" (.object [("elems", .array (listToJson elements)), ("rest", restToJson rest)])
  | union name arms =>
    .named "union" (.object [("union", .string name), ("arms", .array (armsToJson arms))])
  | call identity => .named "call" (.string identity)

def membersToJson : List (MemberEmit Emit) → List Json
  | [] => []
  | ⟨name, optional, emit⟩ :: rest =>
    .object [("name", .string name), ("optional", .bool optional), ("emit", emit.toJson)]
      :: membersToJson rest

def indexToJson : Option (KeyFilter × Emit) → Json
  | none => .null
  | some (filter, emit) => .object [("filter", filter.toJson), ("emit", emit.toJson)]

def listToJson : List Emit → List Json
  | [] => []
  | e :: rest => e.toJson :: listToJson rest

def restToJson : Option Emit → Json
  | none => .null
  | some e => e.toJson

def armsToJson : List (Check × Emit) → List Json
  | [] => []
  | (check, e) :: rest => .array [check.toJson, e.toJson] :: armsToJson rest

end

def decodeMember (emit : Decoder Emit) (j : Source) : Decoded (MemberEmit Emit) := do
  let (name, optional, e) ← Decode.record ["name", "optional", "emit"]
    (fun (r : Option String × Option Bool × Option Emit) name j =>
      match name with
      | "name" => do pure (some (← Decode.string j), r.2)
      | "optional" => do pure (r.1, some (← Decode.bool j), r.2.2)
      | _ => do pure (r.1, r.2.1, some (← emit j)))
    (none, none, none) j
  pure ⟨← Decode.required "name" name, ← Decode.required "optional" optional,
    ← Decode.required "emit" e⟩

def decodeIndex (emit : Decoder Emit) (j : Source) : Decoded (KeyFilter × Emit) := do
  let (filter, e) ← Decode.record ["filter", "emit"]
    (fun (r : Option KeyFilter × Option Emit) name j =>
      if name = "filter" then do pure (some (← KeyFilter.decode j), r.2)
      else do pure (r.1, some (← emit j)))
    (none, none) j
  pure (← Decode.required "filter" filter, ← Decode.required "emit" e)

def decodeNamed (emit : Decoder Emit) (name : String) (j : Source) : Decoded Emit :=
  match name with
  | "encoded" => (Codec.ofJson j).map encoded
  | "object" => do
    let (members, index) ← Decode.record ["props", "index"]
      (fun (r : Option (List (MemberEmit Emit)) × Option (KeyFilter × Emit)) name j =>
        if name = "props" then do pure (some (← Decode.list (decodeMember emit) j), r.2)
        else do pure (r.1, ← Decode.optional (decodeIndex emit) j))
      (none, none) j
    pure (object (← Decode.required "props" members) index)
  | "array" => do
    let item ← Decode.record ["item"] (fun (_ : Option Emit) _ j => do pure (some (← emit j))) none j
    pure (array (← Decode.required "item" item))
  | "tuple" => do
    let (elements, rest) ← Decode.record ["elems", "rest"]
      (fun (r : Option (List Emit) × Option Emit) name j =>
        if name = "elems" then do pure (some (← Decode.list emit j), r.2)
        else do pure (r.1, ← Decode.optional emit j))
      (none, none) j
    pure (tuple (← Decode.required "elems" elements) rest)
  | "union" => do
    let (unionName, arms) ← Decode.record ["union", "arms"]
      (fun (r : Option String × Option (List (Check × Emit))) name j =>
        if name = "union" then do pure (some (← Decode.string j), r.2)
        else do pure (r.1, some (← Decode.list (Decode.pair Check.decode emit) j)))
      (none, none) j
    pure (union (← Decode.required "union" unionName) (← Decode.required "arms" arms))
  | "call" => (Decode.string j).map call
  | _ => Decode.fail (.unknownName name)

/-- The names of the emitters with content. -/
def contentNames : List String := ["encoded", "object", "array", "tuple", "union", "call"]

def decodeWithin : Nat → Decoder Emit
  | 0 => fun _ => Decode.fail .tooDeep
  | fuel + 1 => Decode.variant [("json", json)] contentNames (decodeNamed (decodeWithin fuel))

def decode : Decoder Emit := decodeWithin (Json.depthLimit + 1)

end Emit

/-! ## Functions -/

namespace Body

def contentToJson : Body → Json
  | isType check => check.toJson
  | typeErrors body => .array (Report.listToJson body)
  | jsonEncode body | jsonDecode body => .array (Transform.listToJson body)
  | jsonStringify emit => emit.toJson

def toJson (b : Body) : Json :=
  .object [("op", b.target.toJson), ("body", b.contentToJson)]

def decode : Decoder Body :=
  Decode.tagged "op" "body" Target.storedNames fun target j =>
    match target with
    | .isType => (Check.decode j).map isType
    | .typeErrors => (Decode.list Report.decode j).map typeErrors
    | .jsonEncode => (Decode.list Transform.ofJson j).map jsonEncode
    | .jsonDecode => (Decode.list Transform.ofJson j).map jsonDecode
    | .jsonStringify => (Emit.decode j).map jsonStringify

end Body

namespace Function

def toJson (f : Function) : Json :=
  .object [("key", f.key.toJson), ("params", .array (f.params.map .string)),
    ("code", f.body.toJson)]

def decode (j : Source) : Decoded Function := do
  let (key, params, body) ← Decode.record ["key", "params", "code"]
    (fun (r : Option FunctionKey × Option (List String) × Option Body) name j =>
      match name with
      | "key" => do pure (some (← FunctionKey.decode j), r.2)
      | "params" => do pure (r.1, some (← Decode.list Decode.string j), r.2.2)
      | _ => do pure (r.1, r.2.1, some (← Body.decode j)))
    (none, none, none) j
  pure ⟨← Decode.required "key" key, ← Decode.required "params" params,
    ← Decode.required "code" body⟩

end Function

end Typeforge
