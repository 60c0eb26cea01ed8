/-
# `Typeforge.Value.Basic` — values at run time

Compiled functions work on dynamic values: what JSON can hold, and besides it
undefined, big integers, symbols, regular expressions, dates and functions.
Objects keep the order in which their members were first made; a symbol is its
description, and of a function only the name is known.

Equality compares objects without regard to order and numbers as numbers: the
two zeros are equal, and NaN differs from itself.
-/
import Typeforge.Calendar.Instant
import Typeforge.Members

namespace Typeforge

/-- A regular expression, by its source and its flags. -/
structure Regexp where
  source : String
  flags : String
deriving Repr, DecidableEq, Inhabited

inductive Value where
  | undefined
  | null
  | bool (b : Bool)
  | number (x : Float)
  | string (s : String)
  | bigint (n : Int)
  | symbol (description : String)
  | regexp (r : Regexp)
  | date (i : Instant)
  | array (items : List Value)
  | object (members : List (String × Value))
  | function (name : String)

namespace Value

instance : Inhabited Value := ⟨.undefined⟩

/-- The name of a value's kind in messages. -/
def kindName : Value → String
  | undefined => "undefined"
  | null => "null"
  | bool _ => "boolean"
  | number _ => "number"
  | string _ => "string"
  | bigint _ => "bigint"
  | symbol _ => "symbol"
  | regexp _ => "regexp"
  | date _ => "Date"
  | array _ => "array"
  | object _ => "object"
  | function _ => "function"

def isUndefined : Value → Bool
  | undefined => true
  | _ => false

def isNull : Value → Bool
  | null => true
  | _ => false

/-- Whether JSON has no place for the value: members of this kind are left out of objects. -/
def isOmitted : Value → Bool
  | undefined | function _ | symbol _ => true
  | _ => false

/-- A whole number as a value. -/
def ofNat (n : Nat) : Value := number (Float.ofNat n)

/-- An object from its entries; a repeated name keeps its first place and takes its last value. -/
def ofEntries (entries : List (String × Value)) : Value := object (Members.ofList entries)

/-! ## Reading parts -/

/-- The member of a name; missing members, and members of what is no object, are undefined. -/
def member (name : String) : Value → Value
  | object members => (Members.get? name members).getD undefined
  | _ => undefined

/-- The element at an index; missing elements, and elements of what is no array, are undefined. -/
def element (index : Nat) : Value → Value
  | array items => items[index]?.getD undefined
  | _ => undefined

/-- Whether there is a member of that name. -/
def hasMember (name : String) : Value → Bool
  | object members => Members.has name members
  | _ => false

/-- Whether there is an element at that index. -/
def hasElement (index : Nat) : Value → Bool
  | array items => decide (index < items.length)
  | _ => false

def length? : Value → Option Nat
  | array items => some items.length
  | _ => none

/-! ## Equality and depth -/

mutual

/-- Equality of values. -/
def equals : Value → Value → Bool
  | undefined, undefined => true
  | null, null => true
  | bool a, bool b => a == b
  | number x, number y => x == y
  | string s, string t => s == t
  | bigint m, bigint n => m == n
  | symbol s, symbol t => s == t
  | regexp r, regexp q => decide (r = q)
  | date i, date j => decide (i = j)
  | array xs, array ys => equalItems xs ys
  | object ms, object ns => ms.length == ns.length && equalMembers ms ns
  | function f, function g => f == g
  | _, _ => false

def equalItems : List Value → List Value → Bool
  | [], [] => true
  | x :: xs, y :: ys => x.equals y && equalItems xs ys
  | _, _ => false

/-- Whether every member of the first list is found in the second with an equal value. -/
def equalMembers : List (String × Value) → List (String × Value) → Bool
  | [], _ => true
  | (k, x) :: rest, ns =>
    (match Members.get? k ns with
      | some y => x.equals y
      | none => false) && equalMembers rest ns

end

mutual

/-- How deep arrays and objects stand inside one another. -/
def depth : Value → Nat
  | array items => itemsDepth items + 1
  | object members => membersDepth members + 1
  | _ => 0

def itemsDepth : List Value → Nat
  | [] => 0
  | x :: rest => max x.depth (itemsDepth rest)

def membersDepth : List (String × Value) → Nat
  | [] => 0
  | (_, x) :: rest => max x.depth (membersDepth rest)

end

end Value

end Typeforge
