/-
# `Typeforge.Value.Codec` — JSON-carried forms of the values JSON lacks

| kind      | carried as                      |
|-----------|---------------------------------|
| bigint    | decimal digits                  |
| symbol    | `Symbol:` and the description   |
| regexp    | `/source/flags`                 |
| Date      | its text, to the millisecond    |
| undefined | `null`                          |

Encoding touches only values of the codec's own kind: any other value has
already failed validation and is left alone.  Decoding is strict.
-/
import Typeforge.Value.Json

namespace Typeforge

inductive Codec where
  | bigint
  | symbol
  | regexp
  | date
  | undefined
deriving Repr, DecidableEq

/-- What a carried symbol begins with. -/
def symbolMark : List Char := ['S', 'y', 'm', 'b', 'o', 'l', ':']

/-- The letters a regular expression may have as flags. -/
def isFlag (c : Char) : Bool := ['d', 'g', 'i', 'm', 's', 'u', 'v', 'y'].contains c

/-- The written form of a regular expression. -/
def Regexp.text (r : Regexp) : String := "/" ++ r.source ++ "/" ++ r.flags

/-- Splits a written regular expression at its last slash: what follows must be flags. -/
def Regexp.ofText? (text : String) : Option Regexp :=
  match text.toList with
  | '/' :: cs =>
    let flags := (cs.reverse.takeWhile (· ≠ '/')).reverse
    let front := cs.take (cs.length - flags.length)
    if front.isEmpty || !flags.all isFlag then none
    else some ⟨String.ofList front.dropLast, String.ofList flags⟩
  | _ => none

namespace Codec

def name : Codec → String
  | bigint => "bigint"
  | symbol => "symbol"
  | regexp => "regexp"
  | date => "Date"
  | undefined => "undefined"

/-- The carried form of a value of the codec's kind; other values are unchanged. -/
def encode : Codec → Value → Value
  | bigint, .bigint n => .string (integerText n)
  | symbol, .symbol d => .string (String.ofList (symbolMark ++ d.toList))
  | regexp, .regexp r => .string r.text
  | date, .date i => .string i.text
  | undefined, .undefined => .null
  | _, v => v

/-- The error for a value that carries nothing of the codec's kind. -/
def mismatch (codec : Codec) (v : Value) : RunError := .decode codec.name (.ofValue v)

/-- The description a carried symbol holds. -/
def symbolOfText? (text : String) : Option String :=
  let cs := text.toList
  if symbolMark.isPrefixOf cs then some (String.ofList (cs.drop symbolMark.length)) else none

/-- What a string carries. -/
def ofText? : Codec → String → Option Value
  | bigint, s => (integer? s).map .bigint
  | symbol, s => (symbolOfText? s).map .symbol
  | regexp, s => (Regexp.ofText? s).map .regexp
  | date, s => (Instant.ofText? s).map .date
  | undefined, s => some (.string s)

/-- The value a carried form stands for. An undefined value is carried as null, and whatever
else stands in its place is left alone. -/
def decode (codec : Codec) (v : Value) : Except RunError Value :=
  match codec, v with
  | undefined, .null => .ok .undefined
  | undefined, v => .ok v
  | codec, .string s =>
    match codec.ofText? s with
    | some w => .ok w
    | none => .error (codec.mismatch (.string s))
  | codec, v => .error (codec.mismatch v)

/-- The carried form as JSON text. -/
def jsonText (codec : Codec) (v : Value) : Written := (codec.encode v).jsonText

end Codec

end Typeforge
