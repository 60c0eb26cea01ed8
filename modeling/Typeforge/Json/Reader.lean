/-
# `Typeforge.Json.Reader` — documents from text

The reader takes one JSON value from the front of a run of characters and
returns the rest.  It descends through arrays and objects down to a depth
limit, so that its recursion is on that limit, and scans what lies deeper
without building it; the loops inside one level are bounded by the length of
the whole text.

A numeral without point and exponent that fits in sixty-four bits, with or
without sign, is an integer; every other numeral, and `-0`, is rounded to the
nearest double.  A numeral beyond all doubles, a string in which an escape
names half of a surrogate pair and whatever is nested too deep are read as
values that stand for nothing.  A bare control character in a string, like all
else that the grammar has no place for, makes the text no document.
-/
import Typeforge.Json.Raw
import Typeforge.Number.Reading

namespace Typeforge

/-- Takes a result from the front of the characters and returns the rest. -/
abbrev Reader (α : Type) := List Char → Except ReadFault (α × List Char)

namespace Json

/-! ## Blanks and words -/

def isBlank (c : Char) : Bool := c = ' ' || c = '\t' || c = '\n' || c = '\r'

def skipBlanks (cs : List Char) : List Char := cs.dropWhile isBlank

/-- The characters of a word, one after the other. -/
def expectWord : List Char → List Char → Except ReadFault (List Char)
  | [], cs => .ok cs
  | _ :: _, [] => .error .unexpectedEnd
  | w :: ws, c :: cs => if w = c then expectWord ws cs else .error (.unexpected c)

/-! ## Numerals -/

/-- The integers of a document fit in sixty-four bits, with or without a sign. -/
def fitsInteger (n : Int) : Bool := decide (-(Nat.pow 2 63) ≤ n ∧ n < Nat.pow 2 64)

/-- A real numeral, which stands for nothing beyond the range of numbers. -/
def realNumber (negative : Bool) (digits : Nat) (exponent : Int) : RawJson :=
  let x := roundDecimal negative digits exponent
  if x.isFinite then .number (.real x) else .unreadable .numberTooLarge

/-- The exponent of a numeral, after its `e`. -/
def readExponent (cs : List Char) : Except ReadFault (Int × List Char) :=
  let (negative, cs) := match cs with
    | '-' :: ds => (true, ds)
    | '+' :: ds => (false, ds)
    | ds => (false, ds)
  let (digits, rest) := spanDigits cs
  if digits.isEmpty then .error .badNumber
  else .ok (if negative then -(digitsValue digits : Int) else digitsValue digits, rest)

/-- A numeral after its sign: digits without a useless leading zero, places, exponent. -/
def readUnsigned (negative : Bool) : Reader RawJson := fun cs => do
  let (whole, rest) := spanDigits cs
  if whole.isEmpty || (whole.head? = some '0' && decide (1 < whole.length)) then
    throw .badNumber
  let (places, rest, pointed) ← match rest with
    | '.' :: after =>
      let (places, rest) := spanDigits after
      if places.isEmpty then throw .badNumber else pure (places, rest, true)
    | _ => pure ([], rest, false)
  let (exponent, rest, raised) ← match rest with
    | c :: after =>
      if c = 'e' ∨ c = 'E' then do
        let (e, rest) ← readExponent after
        pure (e, rest, true)
      else pure (0, rest, false)
    | [] => pure (0, rest, false)
  let digits := digitsValue (whole ++ places)
  let n : Int := if negative then -(digits : Int) else digits
  if !pointed && !raised && fitsInteger n && !(negative && digits == 0) then
    pure (.number (.integer n), rest)
  else pure (realNumber negative digits (exponent - places.length), rest)

/-- A numeral. -/
def readNumber : Reader RawJson
  | '-' :: cs => readUnsigned true cs
  | cs => readUnsigned false cs

/-! ## Strings -/

/-- The value of a hexadecimal digit of either case. -/
def hexValue? (c : Char) : Option Nat :=
  if c.isDigit then some (c.toNat - '0'.toNat)
  else if 'a' ≤ c ∧ c ≤ 'f' then some (c.toNat - 'a'.toNat + 10)
  else if 'A' ≤ c ∧ c ≤ 'F' then some (c.toNat - 'A'.toNat + 10)
  else none

/-- Four hexadecimal digits. -/
def readHex4 : Reader Nat
  | a :: b :: c :: d :: rest =>
    match hexValue? a, hexValue? b, hexValue? c, hexValue? d with
    | some a, some b, some c, some d => .ok (((a * 16 + b) * 16 + c) * 16 + d, rest)
    | _, _, _, _ => .error .badEscape
  | _ => .error .unexpectedEnd

/-- The character of an escape by number: a code point, or two halves of a surrogate pair. Half a
pair names no character. -/
def readNumberedEscape : Reader (Option Char) := fun cs => do
  let (high, rest) ← readHex4 cs
  if 0xD800 ≤ high ∧ high ≤ 0xDBFF then
    match rest with
    | '\\' :: 'u' :: after => do
      let (low, after) ← readHex4 after
      if 0xDC00 ≤ low ∧ low ≤ 0xDFFF then
        pure (some (Char.ofNat (0x10000 + (high - 0xD800) * 0x400 + (low - 0xDC00))), after)
      else pure (none, rest)
    | _ => pure (none, rest)
  else if 0xDC00 ≤ high ∧ high ≤ 0xDFFF then pure (none, rest)
  else pure (some (Char.ofNat high), rest)

/-- The character an escape stands for, after its backslash. -/
def readEscape : Reader (Option Char)
  | '"' :: rest => .ok (some '"', rest)
  | '\\' :: rest => .ok (some '\\', rest)
  | '/' :: rest => .ok (some '/', rest)
  | 'b' :: rest => .ok (some '\x08', rest)
  | 'f' :: rest => .ok (some '\x0c', rest)
  | 'n' :: rest => .ok (some '\n', rest)
  | 'r' :: rest => .ok (some '\r', rest)
  | 't' :: rest => .ok (some '\t', rest)
  | 'u' :: rest => readNumberedEscape rest
  | _ :: _ => .error .badEscape
  | [] => .error .unexpectedEnd

/-- The characters of a string after its opening mark, through the closing one; none if an escape
names no character. The first argument bounds the number of characters. -/
def readChars : Nat → Reader (Option (List Char))
  | 0, _ => .error .unexpectedEnd
  | _ + 1, [] => .error .unexpectedEnd
  | fuel + 1, c :: rest =>
    if c = '"' then .ok (some [], rest)
    else if c = '\\' then do
      let (e, rest) ← readEscape rest
      let (cs, rest) ← readChars fuel rest
      pure (do pure ((← e) :: (← cs)), rest)
    else if c.toNat < 0x20 then .error .controlCharacter
    else do
      let (cs, rest) ← readChars fuel rest
      pure (cs.map (c :: ·), rest)

/-- A string after its opening mark, of at most `bound` characters. -/
def readString (bound : Nat) : Reader (Option String) := fun cs => do
  let (cs, rest) ← readChars bound cs
  pure (cs.map String.ofList, rest)

/-! ## Values without parts -/

/-- A value that is no array and no object. -/
def readLeaf (bound : Nat) : Reader RawJson
  | 'n' :: rest => do pure (.null, ← expectWord ['u', 'l', 'l'] rest)
  | 't' :: rest => do pure (.bool true, ← expectWord ['r', 'u', 'e'] rest)
  | 'f' :: rest => do pure (.bool false, ← expectWord ['a', 'l', 's', 'e'] rest)
  | '"' :: rest => do
    let (s, rest) ← readString bound rest
    pure (match s with
      | some s => .string s
      | none => .unreadable .halfPair, rest)
  | c :: rest =>
    if c = '-' ∨ c.isDigit then readNumber (c :: rest) else .error (.unexpected c)
  | [] => .error .unexpectedEnd

/-! ## What is nested too deep -/

/-- An open array or object. -/
inductive Bracket where
  | array
  | object
deriving Repr, DecidableEq

/-- The bracket that closes it. -/
def Bracket.closing : Bracket → Char
  | array => ']'
  | object => '\x7d'

/-- What may follow inside the innermost open bracket. -/
inductive Scan where
  /-- A first item or member, or the closing bracket. -/
  | start
  /-- An item or member after a comma. -/
  | part
  /-- The value of an item or member. -/
  | value
  /-- A comma or the closing bracket. -/
  | next
deriving Repr, DecidableEq

/-- Scans to the end of the open brackets, the innermost first, and builds nothing. `fuel` bounds
the number of steps: each takes a character, or turns to the value of an item. -/
def scanNested (bound : Nat) : Nat → Scan → Bracket → List Bracket → List Char →
    Except ReadFault (List Char)
  | 0, _, _, _, _ => .error .unexpectedEnd
  | fuel + 1, scan, inner, outer, cs =>
    match skipBlanks cs with
    | [] => .error .unexpectedEnd
    | c :: rest =>
      match scan with
      | .start =>
        if c = inner.closing then
          match outer with
          | [] => .ok rest
          | around :: outer => scanNested bound fuel .next around outer rest
        else scanNested bound fuel .part inner outer (c :: rest)
      | .part =>
        match inner with
        | .array => scanNested bound fuel .value inner outer (c :: rest)
        | .object =>
          if c = '"' then do
            let (_, rest) ← readString bound rest
            match skipBlanks rest with
            | ':' :: rest => scanNested bound fuel .value inner outer rest
            | c :: _ => .error (.unexpected c)
            | [] => .error .unexpectedEnd
          else .error (.unexpected c)
      | .value =>
        if c = '[' then scanNested bound fuel .start .array (inner :: outer) rest
        else if c = '\x7b' then scanNested bound fuel .start .object (inner :: outer) rest
        else do
          let (_, rest) ← readLeaf bound (c :: rest)
          scanNested bound fuel .next inner outer rest
      | .next =>
        if c = ',' then scanNested bound fuel .part inner outer rest
        else if c = inner.closing then
          match outer with
          | [] => .ok rest
          | around :: outer => scanNested bound fuel .next around outer rest
        else .error (.unexpected c)

/-- An array or object after its opening bracket, passed over because it is nested too deep. -/
def readTooDeep (bound : Nat) (bracket : Bracket) : Reader RawJson := fun cs => do
  let rest ← scanNested bound (4 * bound + 4) .start bracket [] cs
  pure (.unreadable .tooDeep, rest)

/-! ## Arrays, objects, values -/

/-- The items of an array from its first value on, through the closing bracket. The bound is on
the number of items. -/
def readItems (value : Reader RawJson) : Nat → Reader (List RawJson)
  | 0, _ => .error .unexpectedEnd
  | fuel + 1, cs => do
    let (j, rest) ← value cs
    match skipBlanks rest with
    | ',' :: rest => do
      let (items, rest) ← readItems value fuel rest
      pure (j :: items, rest)
    | ']' :: rest => pure ([j], rest)
    | c :: _ => throw (.unexpected c)
    | [] => throw .unexpectedEnd

/-- The members of an object from its first name on, through the closing brace; none if a name
cannot be read. The bounds are on the length of a name and on the number of members. -/
def readMembers (bound : Nat) (value : Reader RawJson) :
    Nat → Reader (Option (List (String × RawJson)))
  | 0, _ => .error .unexpectedEnd
  | fuel + 1, cs => do
    match skipBlanks cs with
    | '"' :: rest => do
      let (name, rest) ← readString bound rest
      match skipBlanks rest with
      | ':' :: rest => do
        let (j, rest) ← value rest
        let member := name.map fun name => (name, j)
        match skipBlanks rest with
        | ',' :: rest => do
          let (members, rest) ← readMembers bound value fuel rest
          pure (do pure ((← member) :: (← members)), rest)
        | '\x7d' :: rest => pure (member.map fun member => [member], rest)
        | c :: _ => throw (.unexpected c)
        | [] => throw .unexpectedEnd
      | c :: _ => throw (.unexpected c)
      | [] => throw .unexpectedEnd
    | c :: _ => throw (.unexpected c)
    | [] => throw .unexpectedEnd

/-- One value, the values inside arrays and objects read by `nested?`; without it they are too
deep. No string, array or object has more than `bound` parts. -/
def readValueWith (bound : Nat) (nested? : Option (Reader RawJson)) : Reader RawJson := fun cs =>
  match skipBlanks cs with
  | '[' :: rest =>
    match nested? with
    | none => readTooDeep bound .array rest
    | some value =>
      match skipBlanks rest with
      | ']' :: rest => .ok (.array [], rest)
      | rest => do
        let (items, rest) ← readItems value bound rest
        pure (.array items, rest)
  | '\x7b' :: rest =>
    match nested? with
    | none => readTooDeep bound .object rest
    | some value =>
      match skipBlanks rest with
      | '\x7d' :: rest => .ok (.object [], rest)
      | rest => do
        let (members, rest) ← readMembers bound value bound rest
        pure (match members with
          | some members => .object members
          | none => .unreadable .halfPair, rest)
  | rest => readLeaf bound rest

/-- One value with at most `depth` arrays and objects inside one another; what lies deeper stands
for nothing. -/
def readValue (bound : Nat) : Nat → Reader RawJson
  | 0 => readValueWith bound none
  | depth + 1 => readValueWith bound (some (readValue bound depth))

/-- How deep arrays and objects may stand inside one another. -/
def depthLimit : Nat := 127

/-- The value at the front of a text, whatever follows it. -/
def readFront (text : String) : Except ReadFault RawJson :=
  (readValue text.length depthLimit text.toList).map Prod.fst

/-- The value a whole text is, within a depth. -/
def readWithin (depth : Nat) (text : String) : Except ReadFault Json := do
  let (j, rest) ← readValue text.length depth text.toList
  match skipBlanks rest with
  | [] => j.toJson
  | _ => throw .trailing

/-- The document a whole text is. -/
def parse (text : String) : Except ReadFault Json := readWithin depthLimit text

end Json

end Typeforge
