/-
# `Typeforge.CommandLine.Query` — the filters of the command line

The part of the filter language jq that the command line has.  `.` keeps a document,
`.name` and `[i]` take a part, `[]` takes all parts; `,` joins the results of two
filters, `|` feeds the results of one to another, and `empty` has none.  A
missing part is null, and null has only null parts; asking a document for a part
of the wrong kind fails.  All else that the language has is an error here.

Only the command line runs these filters: what is said about documents is said for any
`FilterLanguage`.
-/
import Typeforge.Filters
import Typeforge.Json.Pointer
import Typeforge.Json.Printer

namespace Typeforge

/-- A filter over documents. -/
inductive Query where
  | same
  | empty
  | name (source : Query) (key : String)
  | index (source : Query) (i : Int)
  | parts (source : Query)
  | pipe (first second : Query)
  | both (first second : Query)

/-- Why a filter is none, or has no result. -/
inductive QueryFault where
  | noPart (document part : String)
  | unexpected (c : Char)
  | unclosed (what : String)
  | undefined (name : String)
  | missingFilter
  | trailing

def QueryFault.message : QueryFault → String
  | noPart document part => document ++ " has no " ++ part
  | unexpected c => "unexpected " ++ String.ofList [c]
  | unclosed what => what ++ " is not closed"
  | undefined name => "undefined " ++ name
  | missingFilter => "a filter is missing"
  | trailing => "more text follows the filter"

namespace Query

/-! ## Running -/

/-- The results of a filter, or why there are none. -/
abbrev Found (α : Type) := Except QueryFault α

/-- The member of a name. -/
def takeName (key : String) : Json → Found Json
  | .object members => .ok ((Members.get? key members).getD .null)
  | .null => .ok .null
  | j => .error (.noPart j.text "names")

/-- The element at an index; one below zero counts from the end. -/
def takeIndex (i : Int) : Json → Found Json
  | .array items =>
    match if i < 0 then i + items.length else i with
    | .ofNat n => .ok (items[n]?.getD .null)
    | .negSucc _ => .ok .null
  | .null => .ok .null
  | j => .error (.noPart j.text "indices")

/-- The parts of a document. -/
def takeParts : Json → Found (List Json)
  | .array items => .ok items
  | .object members => .ok (members.map (·.2))
  | j => .error (.noPart j.text "parts")

/-- The documents a filter makes of one. -/
def run : Query → Json → Found (List Json)
  | same, j => .ok [j]
  | empty, _ => .ok []
  | name source key, j => do (← source.run j).mapM (takeName key)
  | index source i, j => do (← source.run j).mapM (takeIndex i)
  | parts source, j => do
    let found ← source.run j
    pure (← found.mapM takeParts).flatten
  | pipe first second, j => do
    let found ← first.run j
    pure (← found.mapM second.run).flatten
  | both first second, j => do
    let left ← first.run j
    let right ← second.run j
    pure (left ++ right)

/-! ## Reading -/

inductive Token where
  | dot
  | word (name : String)
  | text (s : String)
  | number (n : Nat)
  | minus
  | openBracket
  | closeBracket
  | openParenthesis
  | closeParenthesis
  | comma
  | bar

/-- The tokens of one character. -/
def mark? : Char → Option Token
  | '.' => some .dot
  | '-' => some .minus
  | '[' => some .openBracket
  | ']' => some .closeBracket
  | '(' => some .openParenthesis
  | ')' => some .closeParenthesis
  | ',' => some .comma
  | '|' => some .bar
  | _ => none

def isWordStart (c : Char) : Bool := c.isAlpha || c == '_'

def isWordChar (c : Char) : Bool := isWordStart c || c.isDigit

/-- The token that a text starts with, which is not blank, and what follows it. -/
def token (c : Char) (rest : List Char) : Found (Token × List Char) :=
  match mark? c with
  | some t => .ok (t, rest)
  | none =>
    if c = '"' then
      match Json.readString (rest.length + 1) rest with
      | .ok (some s, after) => .ok (.text s, after)
      | _ => .error (.unclosed "a string")
    else if c.isDigit then
      let (digits, after) := spanDigits (c :: rest)
      .ok (.number (digitsValue digits), after)
    else if isWordStart c then
      .ok (.word (String.ofList (c :: rest.takeWhile isWordChar)), rest.dropWhile isWordChar)
    else .error (.unexpected c)

/-- The tokens of a text; the first argument bounds its length. -/
def tokens : Nat → List Char → Found (List Token)
  | _, [] => .ok []
  | 0, _ :: _ => .ok []
  | bound + 1, c :: rest =>
    if Json.isBlank c then tokens bound rest
    else do
      let (t, after) ← token c rest
      let others ← tokens bound after
      pure (t :: others)

/-- Reads a filter from tokens and returns the rest. -/
abbrev TokenReader := List Token → Found (Query × List Token)

/-- Reads the names and brackets that may follow a filter; the first argument bounds their
number. -/
def readSuffixes : Nat → Query → TokenReader
  | 0, q, ts => .ok (q, ts)
  | bound + 1, q, ts =>
    match ts with
    | .dot :: .word key :: rest | .dot :: .text key :: rest
    | .openBracket :: .text key :: .closeBracket :: rest
    | .dot :: .openBracket :: .text key :: .closeBracket :: rest =>
      readSuffixes bound (.name q key) rest
    | .openBracket :: .closeBracket :: rest | .dot :: .openBracket :: .closeBracket :: rest =>
      readSuffixes bound (.parts q) rest
    | .openBracket :: .number n :: .closeBracket :: rest
    | .dot :: .openBracket :: .number n :: .closeBracket :: rest =>
      readSuffixes bound (.index q n) rest
    | .openBracket :: .minus :: .number n :: .closeBracket :: rest
    | .dot :: .openBracket :: .minus :: .number n :: .closeBracket :: rest =>
      readSuffixes bound (.index q (-(n : Int))) rest
    | .openBracket :: _ => .error (.unclosed "a bracket")
    | ts => .ok (q, ts)

/-- Reads a filter without `,` and `|`. -/
def readTerm (nested : TokenReader) : TokenReader
  | .dot :: rest =>
    match rest with
    | .word key :: after | .text key :: after =>
      readSuffixes rest.length (.name .same key) after
    | _ => readSuffixes (rest.length + 1) .same rest
  | .word word :: rest =>
    if word = "empty" then readSuffixes (rest.length + 1) .empty rest
    else .error (.undefined word)
  | .openParenthesis :: rest => do
    let (q, after) ← nested rest
    match after with
    | .closeParenthesis :: after => readSuffixes (after.length + 1) q after
    | _ => .error (.unclosed "a parenthesis")
  | _ => .error .missingFilter

/-- Reads filters joined by `,`; the number bounds how many. -/
def readJoined (nested : TokenReader) : Nat → TokenReader
  | 0, _ => .error .missingFilter
  | bound + 1, ts => do
    let (q, rest) ← readTerm nested ts
    match rest with
    | .comma :: rest => do
      let (others, rest) ← readJoined nested bound rest
      pure (.both q others, rest)
    | rest => pure (q, rest)

/-- Reads filters one fed to the next; the number bounds how many there are, and how deep they
stand in parentheses. -/
def readPiped : Nat → TokenReader
  | 0, _ => .error .missingFilter
  | bound + 1, ts => do
    let (q, rest) ← readJoined (readPiped bound) (ts.length + 1) ts
    match rest with
    | .bar :: rest => do
      let (second, rest) ← readPiped bound rest
      pure (.pipe q second, rest)
    | rest => pure (q, rest)

/-- The filter that a text says. -/
def ofText (text : String) : Found Query := do
  let ts ← tokens text.length text.toList
  let (q, rest) ← readPiped (ts.length + 1) ts
  if rest.isEmpty then pure q else throw .trailing

/-- The outputs of a filter: its results, or why there are none. -/
def outputs (q : Query) (document : Json) : List (Except String String) :=
  match q.run document with
  | .ok results => results.map fun j => .ok j.text
  | .error fault => [.error fault.message]

/-- The language of these filters. -/
def language : FilterLanguage where
  compile text := (ofText text).map outputs |>.mapError QueryFault.message

end Query

end Typeforge
