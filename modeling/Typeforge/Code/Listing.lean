/-
# `Typeforge.Code.Listing` — compiled functions as readable text

A listing has one line for each statement; what belongs to a statement stands
below it, two blanks further in.
-/
import Typeforge.Code.Path

namespace Typeforge

/-- A line of a listing: how far it is indented, and its text. -/
structure ListingLine where
  level : Nat
  text : String

namespace ListingLine

def render (l : ListingLine) : String :=
  String.ofList (List.replicate (2 * l.level) ' ') ++ l.text ++ "\n"

end ListingLine

def optionalMark (optional : Bool) : String := if optional then " (optional)" else ""

/-- What a statement about keys is headed by. -/
def eachKeyHeading (filter : KeyFilter) (skip : List String) : String :=
  "each " ++ filter.name ++ " key" ++
    (if skip.isEmpty then "" else " except " ++ ", ".intercalate (skip.map keyText))

/-- What a statement about one part is headed by. -/
def partHeading (access : Access) (optional : Bool) : String :=
  "at " ++ access.text ++ optionalMark optional

/-- What a statement about elements is headed by. -/
def eachHeading (start : Nat) : String := s!"each element from {start}"

/-- What an arm of a union is headed by. -/
def armHeading (i : Nat) : String := s!"arm {i}"

def Kind.text : Kind → String
  | .string => "string"
  | .boolean => "boolean"
  | .bigint => "bigint"
  | .symbol => "symbol"
  | .regexp => "regexp"
  | .date => "Date"
  | .array => "array"
  | .object => "object"
  | .nonPrimitive => "non-primitive"
  | .null => "null"
  | .undefined => "undefined"
  | .function => "function"

namespace Check

mutual

def listing (level : Nat) : Check → List ListingLine
  | always => [⟨level, "always"⟩]
  | is kind => [⟨level, "is " ++ kind.text⟩]
  | finiteNumber => [⟨level, "is finite number"⟩]
  | equals literal => [⟨level, "equals " ++ literal.text⟩]
  | anyOf literals => [⟨level, "one of " ++ ", ".intercalate (literals.map Literal.text)⟩]
  | maxLength n => [⟨level, s!"length <= {n}"⟩]
  | all checks => ⟨level, "all"⟩ :: listingOf (level + 1) checks
  | any checks => ⟨level, "any"⟩ :: listingOf (level + 1) checks
  | part access optional check =>
    ⟨level, partHeading access optional⟩ :: check.listing (level + 1)
  | each start check => ⟨level, eachHeading start⟩ :: check.listing (level + 1)
  | eachKey filter skip check =>
    ⟨level, eachKeyHeading filter skip⟩ :: check.listing (level + 1)
  | call identity => [⟨level, "call " ++ identity⟩]

def listingOf (level : Nat) : List Check → List ListingLine
  | [] => []
  | c :: rest => c.listing level ++ listingOf level rest

end

end Check

namespace Report

mutual

def listing (level : Nat) : Report → List ListingLine
  | expect check path expected after =>
    ⟨level, "expect " ++ expected ++ " at " ++ pathText path⟩ :: check.listing (level + 1) ++
      (match after with
        | [] => []
        | after => ⟨level + 1, "then"⟩ :: listingOf (level + 2) after)
  | part access optional body => ⟨level, partHeading access optional⟩ :: listingOf (level + 1) body
  | each start body => ⟨level, eachHeading start⟩ :: listingOf (level + 1) body
  | eachKey filter skip body => ⟨level, eachKeyHeading filter skip⟩ :: listingOf (level + 1) body
  | call identity path => [⟨level, "call " ++ identity ++ " at " ++ pathText path⟩]

def listingOf (level : Nat) : List Report → List ListingLine
  | [] => []
  | r :: rest => r.listing level ++ listingOf level rest

end

end Report

namespace Transform

mutual

def listing (level : Nat) : Transform → List ListingLine
  | encode codec => [⟨level, "encode " ++ codec.name⟩]
  | decode codec => [⟨level, "decode " ++ codec.name⟩]
  | part access optional body => ⟨level, partHeading access optional⟩ :: listingOf (level + 1) body
  | absent access => [⟨level, "null at " ++ access.text ++ " is absent"⟩]
  | each start body => ⟨level, eachHeading start⟩ :: listingOf (level + 1) body
  | eachKey filter skip body => ⟨level, eachKeyHeading filter skip⟩ :: listingOf (level + 1) body
  | tag union arms => ⟨level, "tag " ++ union⟩ :: armsListing (level + 1) 0 arms
  | untag arms => ⟨level, "untag"⟩ :: bodiesListing (level + 1) 0 arms
  | revive className => [⟨level, "revive " ++ className⟩]
  | call identity => [⟨level, "call " ++ identity⟩]

def listingOf (level : Nat) : List Transform → List ListingLine
  | [] => []
  | t :: rest => t.listing level ++ listingOf level rest

def armsListing (level i : Nat) : List (Check × List Transform) → List ListingLine
  | [] => []
  | (check, body) :: rest =>
    ⟨level, armHeading i⟩ :: check.listing (level + 1) ++ listingOf (level + 1) body
      ++ armsListing level (i + 1) rest

def bodiesListing (level i : Nat) : List (List Transform) → List ListingLine
  | [] => []
  | body :: rest =>
    ⟨level, armHeading i⟩ :: listingOf (level + 1) body ++ bodiesListing level (i + 1) rest

end

end Transform

namespace Emit

mutual

def listing (level : Nat) : Emit → List ListingLine
  | json => [⟨level, "json"⟩]
  | encoded codec => [⟨level, "encoded " ++ codec.name⟩]
  | object members index =>
    ⟨level, "object"⟩ :: membersListing (level + 1) members ++ indexListing (level + 1) index
  | array item => ⟨level, "array"⟩ :: item.listing (level + 1)
  | tuple elements rest =>
    ⟨level, "tuple"⟩ :: elementsListing (level + 1) 0 elements ++ restListing (level + 1) rest
  | union name arms => ⟨level, "union " ++ name⟩ :: armsListing (level + 1) 0 arms
  | call identity => [⟨level, "call " ++ identity⟩]

def membersListing (level : Nat) : List (MemberEmit Emit) → List ListingLine
  | [] => []
  | ⟨name, optional, emit⟩ :: rest =>
    ⟨level, keyText name ++ optionalMark optional⟩ :: emit.listing (level + 1)
      ++ membersListing level rest

def indexListing (level : Nat) : Option (KeyFilter × Emit) → List ListingLine
  | none => []
  | some (filter, emit) => ⟨level, "[" ++ filter.name ++ "]"⟩ :: emit.listing (level + 1)

def elementsListing (level i : Nat) : List Emit → List ListingLine
  | [] => []
  | e :: rest => ⟨level, elementText i⟩ :: e.listing (level + 1) ++ elementsListing level (i + 1) rest

def restListing (level : Nat) : Option Emit → List ListingLine
  | none => []
  | some e => ⟨level, "..."⟩ :: e.listing (level + 1)

def armsListing (level i : Nat) : List (Check × Emit) → List ListingLine
  | [] => []
  | (check, e) :: rest =>
    ⟨level, armHeading i⟩ :: check.listing (level + 1) ++ e.listing (level + 1)
      ++ armsListing level (i + 1) rest

end

end Emit

/-- The lines of a body; a body that changes nothing says so. -/
def Body.listing (level : Nat) : Body → List ListingLine
  | isType check => check.listing level
  | typeErrors body => Report.listingOf level body
  | jsonEncode [] | jsonDecode [] => [⟨level, "pass"⟩]
  | jsonEncode body | jsonDecode body => Transform.listingOf level body
  | jsonStringify emit => emit.listing level

/-- The listing of a function: a line with its target, identity and parameters, then its body. -/
def Function.listing (f : Function) : String :=
  let heading : ListingLine :=
    ⟨0, f.key.target.name ++ " " ++ f.key.identity ++ "(" ++ ", ".intercalate f.params ++ ")"⟩
  String.join ((heading :: f.body.listing 1).map ListingLine.render)

end Typeforge
