/-
# `Typeforge.Json.Decode` — domain values from documents

A decoder turns a document into a value of the domain or says where in the
document it failed and why.  The members of a record are decoded in the order
in which they are written, so that of two faults the first in the text is the
one reported; a member the record does not know is passed over, one it knows
must not stand twice.  A record may also be written as an array of its members
in their declared order.
-/
import Typeforge.Json.Reader
import Typeforge.Json.Printer
import Typeforge.Text.Diagnostic

namespace Typeforge

/-! ## Faults and their place -/

/-- One step into a document. -/
inductive PathStep where
  | key (name : String)
  | index (i : Nat)
deriving Repr, DecidableEq

/-- The text of a place in a document; the whole document is a point. -/
def placeText (steps : List PathStep) : String :=
  match steps with
  | [] => "."
  | .key name :: rest => rest.foldl extend name
  | .index i :: rest => rest.foldl extend s!"[{i}]"
where
  extend (text : String) : PathStep → String
    | .key name => text ++ "." ++ name
    | .index i => text ++ s!"[{i}]"

/-- Why a document has no value of the domain. -/
inductive DecodeCause where
  | missing (member : String)
  | repeated (member : String)
  | unknownName (name : String)
  | wrongType (expected : String)
  | outOfRange
  | tooManyItems
  | tooDeep
  | unreadable (fault : ReadFault)

namespace DecodeCause

def message : DecodeCause → String
  | missing member => "missing field `" ++ member ++ "`"
  | repeated member => "duplicate field `" ++ member ++ "`"
  | unknownName name => "unknown variant `" ++ name ++ "`"
  | wrongType expected => "invalid type: expected " ++ expected
  | outOfRange => "invalid value: out of range"
  | tooManyItems => "invalid length: too many items"
  | tooDeep => "recursion limit exceeded"
  | unreadable fault => fault.message

end DecodeCause

/-- A failed decoding: the place and the cause. -/
structure DecodeFault where
  path : List PathStep
  cause : DecodeCause

namespace DecodeFault

/-- The place of the fault, unless the text is no document at all. -/
def place? (f : DecodeFault) : Option String :=
  match f.cause with
  | .unreadable _ => none
  | _ => some (placeText f.path)

def message (f : DecodeFault) : String :=
  "at JSON path " ++ placeText f.path ++ " → " ++ f.cause.message

end DecodeFault

/-- A decoded value, or the place and cause of the failure. -/
abbrev Decoded (α : Type) := Except DecodeFault α

/-- A value that is to be decoded, as it stands in the text or held back. -/
structure Source where
  json : RawJson
  held : Bool

/-- A document as the source of a value. -/
def Source.ofJson (j : Json) : Source := ⟨.ofJson j, false⟩

/-- Turns a source into a value of the domain, or fails. -/
abbrev Decoder (α : Type) := Source → Decoded α

namespace Decode

variable {α β σ : Type}

/-- Fails at the place of the document itself. -/
def fail (cause : DecodeCause) : Decoded α := .error ⟨[], cause⟩

/-- Decodes one step into the document. -/
def under (step : PathStep) : Decoded α → Decoded α
  | .ok a => .ok a
  | .error f => .error { f with path := step :: f.path }

/-- Forgets where inside the document a failure lies. -/
def wholly : Decoded α → Decoded α
  | .ok a => .ok a
  | .error f => .error { f with path := [] }

/-! ## Leaves -/

def bool : Decoder Bool
  | ⟨.bool b, _⟩ => .ok b
  | _ => fail (.wrongType "a boolean")

def string : Decoder String
  | ⟨.string s, _⟩ => .ok s
  | _ => fail (.wrongType "a string")

/-- Any number. -/
def float : Decoder Float
  | ⟨.number n, _⟩ => .ok n.toFloat
  | _ => fail (.wrongType "a number")

/-- An integer below a bound. -/
def natBelow (bound : Nat) : Decoder Nat
  | ⟨.number (.integer n), _⟩ =>
    if 0 ≤ n ∧ n < bound then .ok n.toNat else fail .outOfRange
  | _ => fail (.wrongType "an integer")

/-- An unsigned integer of thirty-two bits. -/
def nat32 : Decoder Nat := natBelow (Nat.pow 2 32)

/-- An unsigned integer of sixty-four bits. -/
def nat64 : Decoder Nat := natBelow (Nat.pow 2 64)

/-- A value, or null for none. -/
def optional (decode : Decoder α) : Decoder (Option α)
  | ⟨.null, _⟩ => .ok none
  | j => (decode j).map some

/-! ## Arrays and tables -/

/-- The items from an index on. -/
def itemsFrom (decode : Decoder α) (held : Bool) : Nat → List RawJson → Decoded (List α)
  | _, [] => .ok []
  | i, j :: rest => do
    let a ← under (.index i) (decode ⟨j, held⟩)
    let as ← itemsFrom decode held (i + 1) rest
    pure (a :: as)

def list (decode : Decoder α) : Decoder (List α)
  | ⟨.array items, held⟩ => itemsFrom decode held 0 items
  | _ => fail (.wrongType "an array")

/-- An array of exactly two items. -/
def pair (first : Decoder α) (second : Decoder β) : Decoder (α × β)
  | ⟨.array items, held⟩ => do
    match items with
    | [] => fail (.wrongType "two items")
    | a :: rest =>
      let a ← under (.index 0) (first ⟨a, held⟩)
      match rest with
      | [] => fail (.wrongType "two items")
      | b :: rest =>
        let b ← under (.index 1) (second ⟨b, held⟩)
        if rest.isEmpty then pure (a, b) else fail .tooManyItems
  | _ => fail (.wrongType "two items")

/-- The entries of a table. -/
def entries (decode : Decoder α) (held : Bool) :
    List (String × RawJson) → Decoded (List (String × α))
  | [] => .ok []
  | (k, j) :: rest => do
    let a ← under (.key k) (decode ⟨j, held⟩)
    let as ← entries decode held rest
    pure ((k, a) :: as)

/-- A table of names; a repeated name keeps its first place and takes its last value. -/
def table (decode : Decoder α) : Decoder (Members α)
  | ⟨.object members, held⟩ => (entries decode held members).map Members.ofList
  | _ => fail (.wrongType "an object")

/-! ## Records -/

/-- What becomes of a record, as far as it has been read, by a member of it. -/
abbrev Filler (σ : Type) := σ → String → Source → Decoded σ

/-- Fills a record from the members of an object, in the order written. -/
def fillMembers (names : List String) (fill : Filler σ) (held : Bool) :
    List String → σ → List (String × RawJson) → Decoded σ
  | _, s, [] => .ok s
  | seen, s, (k, j) :: rest =>
    if names.contains k then
      if seen.contains k then fail (.repeated k)
      else do
        let s ← under (.key k) (fill s k ⟨j, held⟩)
        fillMembers names fill held (k :: seen) s rest
    else fillMembers names fill held seen s rest

/-- Fills a record from the items of an array, which stand for the names in order; returns the
names that are left. -/
def fillItems (fill : Filler σ) (held : Bool) :
    Nat → List String → σ → List RawJson → Decoded (σ × List String)
  | _, names, s, [] => .ok (s, names)
  | _, [], _, _ :: _ => fail .tooManyItems
  | i, k :: names, s, j :: rest => do
    let s ← under (.index i) (fill s k ⟨j, held⟩)
    fillItems fill held (i + 1) names s rest

/-- Fills a record, written as an object or as an array of all its members. -/
def record (names : List String) (fill : Filler σ) (start : σ) : Decoder σ
  | ⟨.object members, held⟩ => fillMembers names fill held [] start members
  | ⟨.array items, held⟩ => do
    let (s, left) ← fillItems fill held 0 names start items
    match left with
    | [] => pure s
    | name :: _ => fail (.missing name)
  | _ => fail (.wrongType "an object")

/-- Fills a record whose last members have defaults, so that an array may leave them out. -/
def recordWithDefaults (names : List String) (fill : Filler σ) (start : σ) : Decoder σ
  | ⟨.object members, held⟩ => fillMembers names fill held [] start members
  | ⟨.array items, held⟩ => (fillItems fill held 0 names start items).map Prod.fst
  | _ => fail (.wrongType "an object")

/-- A member that must be there. -/
def required (name : String) : Option α → Decoded α
  | some a => .ok a
  | none => fail (.missing name)

/-! ## Alternatives -/

/-- A named alternative: its bare name, or an object with the name and its content. -/
inductive Alternative where
  | bare (name : String)
  | filled (name : String) (content : Source)

/-- One of several named alternatives. An object may have one member only. -/
def choice (decode : Alternative → Decoded α) : Decoder α
  | ⟨.string name, _⟩ => decode (.bare name)
  | ⟨.object ((name, content) :: rest), held⟩ => do
    let a ← decode (.filled name ⟨content, held⟩)
    if rest.isEmpty then pure a else fail .tooManyItems
  | _ => fail (.wrongType "a name, or an object with one member")

/-- The content of an alternative without content: null, or an empty object that was held. -/
def noContent : Decoder Unit
  | ⟨.null, _⟩ => .ok ()
  | ⟨.object [], true⟩ => .ok ()
  | _ => fail (.wrongType "null")

/-- One of several alternatives: those that are bare names, and those with the names given, whose
content is decoded by name. -/
def variant (bare : List (String × α)) (names : List String)
    (content : String → Decoder α) : Decoder α :=
  choice fun
    | .bare name =>
      match Members.get? name bare with
      | some a => pure a
      | none =>
        if names.contains name then under (.key name) (fail (.wrongType "content"))
        else fail (.unknownName name)
    | .filled name j =>
      match Members.get? name bare with
      | some a => do
        under (.key name) (noContent j)
        pure a
      | none =>
        if names.contains name then under (.key name) (content name j)
        else fail (.unknownName name)

/-- One of several bare names. -/
def oneOf (names : List (String × α)) : Decoder α :=
  variant names [] fun name _ => fail (.unknownName name)

/-- A name out of a list and nothing else; a name that was held may be given by its number. -/
def identifier (names : List (String × α)) : Decoder α
  | ⟨.string name, _⟩ =>
    match Members.get? name names with
    | some a => .ok a
    | none => fail (.unknownName name)
  | ⟨.number (.integer n), true⟩ =>
    match if 0 ≤ n then names[n.toNat]? else none with
    | some a => .ok a.2
    | none => fail .outOfRange
  | _ => fail (.wrongType "a name")

/-- Holds a value back, all of which must be readable for that. -/
def hold (j : Source) : Decoded Source :=
  match j.json.fault? with
  | some fault => fail (.unreadable fault)
  | none => .ok { j with held := true }

/-- A record of a tag and the content the tag calls for, in either order, or an array of the two.
When the content is written first it is held back, and a fault in it is reported at the record
itself. -/
def tagged (tagName contentName : String) (tags : List (String × α))
    (content : α → Decoder β) : Decoder β
  | ⟨.array items, held⟩ =>
    match items with
    | [] => fail (.missing tagName)
    | t :: rest => do
      let t ← under (.index 0) (identifier tags ⟨t, held⟩)
      match rest with
      | [] => fail (.missing contentName)
      | c :: rest =>
        let b ← under (.index 1) (content t ⟨c, held⟩)
        if rest.isEmpty then pure b else fail .tooManyItems
  | ⟨.object members, held⟩ =>
    match members.filter fun m => m.1 == tagName || m.1 == contentName with
    | [] => fail (.missing tagName)
    | (k, j) :: rest =>
      if k = tagName then do
        let t ← under (.key tagName) (oneOf tags ⟨j, held⟩)
        match rest with
        | [] => fail (.missing contentName)
        | (k, c) :: rest =>
          if k = tagName then fail (.repeated tagName)
          else do
            let b ← under (.key contentName) (content t ⟨c, held⟩)
            match rest with
            | [] => pure b
            | (k, _) :: _ => fail (.repeated k)
      else do
        let c ← hold ⟨j, held⟩
        match rest with
        | [] => fail (.missing tagName)
        | (k, t) :: rest =>
          if k = contentName then fail (.repeated contentName)
          else do
            let t ← under (.key tagName) (oneOf tags ⟨t, held⟩)
            let b ← wholly (content t c)
            match rest with
            | [] => pure b
            | (k, _) :: _ => fail (.repeated k)
  | _ => fail (.wrongType "a tagged record")

/-! ## Text -/

/-- Decodes the value at the front of a text, whatever follows it. A place in the text is reported
only if all of the value can be read. -/
def text (decode : Decoder α) (source : String) : Decoded α :=
  match Json.readFront source with
  | .error fault => fail (.unreadable fault)
  | .ok j =>
    match decode ⟨j, false⟩, j.fault? with
    | .error _, some fault => fail (.unreadable fault)
    | result, _ => result

end Decode

end Typeforge
