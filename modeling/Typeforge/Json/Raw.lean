/-
# `Typeforge.Json.Raw` — documents as they stand in a text

A raw document is what the reader finds in a well-formed text.  It keeps
members that are named twice, and it marks the values that are well formed but
stand for nothing: a number beyond all doubles, a string with half of a
surrogate pair, an array or object nested too deep, an object one of whose
names is such a string.  Whoever passes over such a value never notices; a
document that is used as a whole must be free of them, and `RawJson.toJson`
says so.
-/
import Typeforge.Json.Basic

namespace Typeforge

/-- Why a text is not a document. -/
inductive ReadFault where
  | unexpectedEnd
  | unexpected (c : Char)
  | badNumber
  | numberTooLarge
  | badEscape
  | halfPair
  | controlCharacter
  | tooDeep
  | trailing
deriving Repr, DecidableEq

namespace ReadFault

def message : ReadFault → String
  | unexpectedEnd => "the text ends inside a value"
  | unexpected c => "unexpected character " ++ String.ofList [c]
  | badNumber => "invalid number"
  | numberTooLarge => "number out of range"
  | badEscape => "invalid escape"
  | halfPair => "lone surrogate in a string"
  | controlCharacter => "control character in a string"
  | tooDeep => "recursion limit exceeded"
  | trailing => "trailing characters"

end ReadFault

/-- A document as it stands in a text. -/
inductive RawJson where
  | null
  | bool (b : Bool)
  | number (n : JsonNumber)
  | string (s : String)
  | array (items : List RawJson)
  | object (members : List (String × RawJson))
  /-- A well-formed value that stands for nothing. -/
  | unreadable (fault : ReadFault)

namespace RawJson

instance : Inhabited RawJson := ⟨.null⟩

mutual

/-- The document, if all of it can be read. A repeated member has its first place and its last
value, at all depths. -/
def toJson : RawJson → Except ReadFault Json
  | null => .ok .null
  | bool b => .ok (.bool b)
  | number n => .ok (.number n)
  | string s => .ok (.string s)
  | array items => (itemsToJson items).map .array
  | object members => (membersToJson members).map fun ms => .object (Members.ofList ms)
  | unreadable fault => .error fault

def itemsToJson : List RawJson → Except ReadFault (List Json)
  | [] => .ok []
  | j :: rest => do
    let j ← j.toJson
    let rest ← itemsToJson rest
    pure (j :: rest)

def membersToJson : List (String × RawJson) → Except ReadFault (List (String × Json))
  | [] => .ok []
  | (k, j) :: rest => do
    let j ← j.toJson
    let rest ← membersToJson rest
    pure ((k, j) :: rest)

end

mutual

/-- The first part that cannot be read. -/
def fault? : RawJson → Option ReadFault
  | array items => itemsFault? items
  | object members => membersFault? members
  | unreadable fault => some fault
  | _ => none

def itemsFault? : List RawJson → Option ReadFault
  | [] => none
  | j :: rest => j.fault?.or (itemsFault? rest)

def membersFault? : List (String × RawJson) → Option ReadFault
  | [] => none
  | (_, j) :: rest => j.fault?.or (membersFault? rest)

end

mutual

/-- A document as it would stand in a text. -/
def ofJson : Json → RawJson
  | .null => null
  | .bool b => bool b
  | .number n => number n
  | .string s => string s
  | .array items => array (itemsOfJson items)
  | .object members => object (membersOfJson members)

def itemsOfJson : List Json → List RawJson
  | [] => []
  | j :: rest => ofJson j :: itemsOfJson rest

def membersOfJson : List (String × Json) → List (String × RawJson)
  | [] => []
  | (k, j) :: rest => (k, ofJson j) :: membersOfJson rest

end

end RawJson

end Typeforge
