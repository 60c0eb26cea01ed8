/-
# `Typeforge.Code.Basic` — what types are compiled into

A type is compiled for five targets, each with a language of its own:

  * `isType`, a `Check`: a pure test of a value;
  * `typeErrors`, a list of `Report`s: statements that record where a value fails;
  * `jsonEncode` and `jsonDecode`, lists of `Transform`s: changes in place, none for a
    value that JSON carries as it is;
  * `jsonStringify`, an `Emit`: an expression for JSON text.

A compiled function is plain data: its key, the names of its parameters and
its body.  Functions call one another by identity, never by reference, so that
a set of them can be stored and brought back.
-/
import Typeforge.Graph.Literal

namespace Typeforge

/-! ## Targets and keys -/

inductive Target where
  | isType
  | typeErrors
  | jsonEncode
  | jsonDecode
  | jsonStringify
deriving Repr, DecidableEq, Inhabited

namespace Target

/-- The five targets, in their fixed order. -/
def all : List Target := [isType, typeErrors, jsonEncode, jsonDecode, jsonStringify]

def name : Target → String
  | isType => "isType"
  | typeErrors => "typeErrors"
  | jsonEncode => "jsonEncode"
  | jsonDecode => "jsonDecode"
  | jsonStringify => "jsonStringify"

/-- The place of a target in the fixed order. -/
def rank : Target → Nat
  | isType => 0
  | typeErrors => 1
  | jsonEncode => 2
  | jsonDecode => 3
  | jsonStringify => 4

/-- The names of the parameters of a function for the target. -/
def params : Target → List String
  | typeErrors => ["v", "path"]
  | _ => ["v"]

end Target

/-- What a compiled function is known by: the identity of its type, and the target. -/
structure FunctionKey where
  identity : String
  target : Target
deriving Repr, DecidableEq, Inhabited

/-- The text of a key. -/
def FunctionKey.text (k : FunctionKey) : String := k.identity ++ ":" ++ k.target.name

/-! ## Parts of the languages -/

/-- How a part is reached from its whole. -/
inductive Access where
  | member (name : String)
  | element (index : Nat)
deriving Repr, DecidableEq

/-- A step of a path in compiled code. A loop step is filled in when the code runs, by the key or
index of the loop with that number. -/
inductive PathSegment where
  | key (name : String)
  | index (i : Nat)
  | loop (depth : Nat)
deriving Repr, DecidableEq

/-- The keys an index signature covers. -/
inductive KeyFilter where
  | anyKey
  /-- Keys that read as finite numbers. -/
  | numeric
deriving Repr, DecidableEq

namespace KeyFilter

def name : KeyFilter → String
  | anyKey => "string"
  | numeric => "number"

def accepts : KeyFilter → String → Bool
  | anyKey, _ => true
  | numeric, key =>
    match numeral? key with
    | some x => x.isFinite
    | none => false

/-- Whether a key is covered and not declared on its own. -/
def covers (filter : KeyFilter) (declared : List String) (key : String) : Bool :=
  filter.accepts key && !declared.contains key

end KeyFilter

/-- The kinds of values that code tests for. -/
inductive Kind where
  | string
  | boolean
  | bigint
  | symbol
  | regexp
  | date
  | array
  /-- Plain objects: no arrays, dates or regular expressions. -/
  | object
  /-- Whatever is not primitive, functions included. -/
  | nonPrimitive
  | null
  | undefined
  | function
deriving Repr, DecidableEq

/-- Whether a value is of a kind. Only whole milliseconds count as dates. -/
def Kind.holds : Kind → Value → Bool
  | string, .string _ => true
  | boolean, .bool _ => true
  | bigint, .bigint _ => true
  | symbol, .symbol _ => true
  | regexp, .regexp _ => true
  | date, .date i => i.isMillis
  | array, .array _ => true
  | object, .object _ => true
  | nonPrimitive, .object _ | nonPrimitive, .array _ | nonPrimitive, .date _
  | nonPrimitive, .regexp _ | nonPrimitive, .function _ => true
  | null, .null => true
  | undefined, .undefined => true
  | function, .function _ => true
  | _, _ => false

/-! ## The languages -/

/-- A test of a value. -/
inductive Check where
  | always
  | is (kind : Kind)
  | finiteNumber
  | equals (literal : Literal)
  | anyOf (literals : List Literal)
  /-- An array of at most that length. -/
  | maxLength (n : Nat)
  | all (checks : List Check)
  | any (checks : List Check)
  /-- A test of a part; an optional part passes when it is undefined. -/
  | part (access : Access) (optional : Bool) (check : Check)
  | each (start : Nat) (check : Check)
  | eachKey (filter : KeyFilter) (skip : List String) (check : Check)
  | call (identity : String)

/-- A statement that records what a value fails. -/
inductive Report where
  /-- Records the path and what was expected when the check fails, and goes on otherwise. -/
  | expect (check : Check) (path : List PathSegment) (expected : String) (after : List Report)
  | part (access : Access) (optional : Bool) (body : List Report)
  | each (start : Nat) (body : List Report)
  | eachKey (filter : KeyFilter) (skip : List String) (body : List Report)
  /-- Runs another function, its paths after the path given. -/
  | call (identity : String) (path : List PathSegment)

/-- A change of a value in place. -/
inductive Transform where
  | encode (codec : Codec)
  | decode (codec : Codec)
  | part (access : Access) (optional : Bool) (body : List Transform)
  /-- A null in this place stands for an element left out. -/
  | absent (access : Access)
  | each (start : Nat) (body : List Transform)
  | eachKey (filter : KeyFilter) (skip : List String) (body : List Transform)
  /-- Encodes by the first arm whose check passes, and pairs the result with the arm's number. -/
  | tag (union : String) (arms : List (Check × List Transform))
  /-- Decodes a pair of an arm's number and what the arm encoded. -/
  | untag (arms : List (List Transform))
  /-- Hands a decoded object to the reviver of its class. -/
  | revive (className : String)
  | call (identity : String)

/-- The emitter of a declared member. -/
structure MemberEmit (α : Type) where
  name : String
  optional : Bool
  emit : α

/-- An expression for JSON text. -/
inductive Emit where
  /-- Plain JSON. -/
  | json
  | encoded (codec : Codec)
  /-- The members of the value in its own order: declared ones by their emitters, others that the
  index covers by its emitter, the rest as plain JSON. -/
  | object (members : List (MemberEmit Emit)) (index : Option (KeyFilter × Emit))
  | array (item : Emit)
  | tuple (elements : List Emit) (rest : Option Emit)
  /-- A pair of the number of the first arm whose check passes, and what that arm writes. -/
  | union (name : String) (arms : List (Check × Emit))
  | call (identity : String)

/-! ## Functions -/

/-- The body of a compiled function. -/
inductive Body where
  | isType (check : Check)
  | typeErrors (body : List Report)
  | jsonEncode (body : List Transform)
  | jsonDecode (body : List Transform)
  | jsonStringify (emit : Emit)

def Body.target : Body → Target
  | isType _ => .isType
  | typeErrors _ => .typeErrors
  | jsonEncode _ => .jsonEncode
  | jsonDecode _ => .jsonDecode
  | jsonStringify _ => .jsonStringify

/-- A compiled function. -/
structure Function where
  key : FunctionKey
  params : List String
  body : Body

/-- The function of a type with that body. -/
def Function.ofBody (identity : String) (body : Body) : Function :=
  ⟨⟨identity, body.target⟩, body.target.params, body⟩

end Typeforge
