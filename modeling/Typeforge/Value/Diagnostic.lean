/-
# `Typeforge.Value.Diagnostic` — values as diagnostics show them

A diagnostic shows a value with the name of its kind, so that no two kinds look
alike, and every string so that all its characters can be seen.
-/
import Typeforge.Code.Basic
import Typeforge.Number.Layout
import Typeforge.Run.Reports
import Typeforge.Text.Diagnostic
import Typeforge.Text.Integer
import Typeforge.Value.Basic

namespace Typeforge

/-- Texts in brackets, with commas between them. -/
def bracketed (texts : List String) : String := "[" ++ ", ".intercalate texts ++ "]"

/-- The parts of a second: none, or as many groups of three places as are needed. -/
def fractionText (nanos : Nat) : List Char :=
  if nanos = 0 then []
  else if nanos % 1000000 = 0 then '.' :: Instant.padded 3 (nanos / 1000000)
  else if nanos % 1000 = 0 then '.' :: Instant.padded 6 (nanos / 1000)
  else '.' :: Instant.padded 9 nanos

/-- An instant to its nanoseconds. -/
def Instant.diagnostic (i : Instant) : String :=
  let date := Civil.ofDay (i.seconds / 86400)
  let clock := (i.seconds % 86400).toNat
  let year :=
    if 0 ≤ date.year ∧ date.year ≤ 9999 then padded 4 date.year.natAbs
    else (if date.year < 0 then '-' else '+') :: padded 4 date.year.natAbs
  String.ofList (year ++ '-' :: padded 2 date.month ++ '-' :: padded 2 date.day
    ++ 'T' :: padded 2 (clock / 3600) ++ ':' :: padded 2 (clock / 60 % 60)
    ++ ':' :: padded 2 (clock % 60 + i.nanos / 1000000000)
    ++ fractionText (i.nanos % 1000000000) ++ ['Z'])

def Regexp.diagnostic (r : Regexp) : String :=
  "RegExp \x7b source: " ++ Typeforge.diagnostic r.source ++ ", flags: "
    ++ Typeforge.diagnostic r.flags ++ " \x7d"

namespace Value

/-- The name of a kind with what it holds. -/
def tagged (kind content : String) : String := kind ++ "(" ++ content ++ ")"

mutual

def diagnostic : Value → String
  | undefined => "Undefined"
  | null => "Null"
  | bool b => tagged "Bool" (if b then "true" else "false")
  | number x => tagged "Number" (Layout.diagnostic.set x)
  | string s => tagged "String" (Typeforge.diagnostic s)
  | bigint n => tagged "BigInt" (tagged "BigInt" (Typeforge.diagnostic (integerText n)))
  | symbol s => tagged "Symbol" (Typeforge.diagnostic s)
  | regexp r => tagged "RegExp" r.diagnostic
  | date i => tagged "Date" i.diagnostic
  | array items => tagged "Array" (bracketed (diagnosticItems items))
  | object members =>
    tagged "Object" ("\x7b" ++ ", ".intercalate (diagnosticMembers members) ++ "\x7d")
  | function f => tagged "Function" (Typeforge.diagnostic f)

def diagnosticItems : List Value → List String
  | [] => []
  | v :: rest => v.diagnostic :: diagnosticItems rest

def diagnosticMembers : List (String × Value) → List String
  | [] => []
  | (k, v) :: rest => (Typeforge.diagnostic k ++ ": " ++ v.diagnostic) :: diagnosticMembers rest

end

end Value

def PathItem.diagnostic : PathItem → String
  | .key s => Value.tagged "Key" (Typeforge.diagnostic s)
  | .index i => Value.tagged "Index" s!"{i}"

def ValidationError.diagnostic (e : ValidationError) : String :=
  "ValidationError \x7b path: " ++ bracketed (e.path.map PathItem.diagnostic) ++ ", expected: "
    ++ Typeforge.diagnostic e.expected ++ " \x7d"

/-- The names of the classes that have revivers, each once, in order. -/
def Revivers.diagnostic (r : Revivers) : String :=
  let names := ((r.map (·.1)).mergeSort fun a b => decide (a ≤ b)).eraseDups
  "ClassRegistry \x7b classes: " ++ bracketed (names.map Typeforge.diagnostic) ++ " \x7d"

end Typeforge
