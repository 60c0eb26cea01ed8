/-
# `Typeforge.Calendar.Instant` — instants and their text

An instant is a count of seconds from the start of 1970 and of nanoseconds
within the second.  A count of `10 ^ 9` nanoseconds or more stands for the leap
second after second 59, written `:60`.

`Instant.text` writes whole milliseconds and the zone `Z`; years outside
0 … 9999 carry a sign and six digits.  `Instant.ofText?` reads that form back,
and besides it the wider form in which dates are exchanged: any number of
places, a blank or a small letter before the time, an offset from the zone.
What has more than milliseconds is refused.
-/
import Typeforge.Calendar.Civil
import Typeforge.Number.Reading

namespace Typeforge

structure Instant where
  seconds : Int
  nanos : Nat
deriving Repr, DecidableEq, BEq, Inhabited

namespace Instant

/-! ## The range of instants -/

/-- The first instant: the start of year -262143. -/
def first : Instant := ⟨Civil.toDay ⟨-262143, 1, 1⟩ * 86400, 0⟩

/-- The last instant: the end of year 262142. -/
def last : Instant := ⟨Civil.toDay ⟨262142, 12, 31⟩ * 86400 + 86399, 999999999⟩

def inRange (i : Instant) : Bool :=
  decide (first.seconds ≤ i.seconds ∧
    (i.seconds < last.seconds ∨ i.seconds = last.seconds ∧ i.nanos ≤ last.nanos))

/-! ## Milliseconds -/

/-- Whether an instant is a whole number of milliseconds. -/
def isMillis (i : Instant) : Bool := decide (i.nanos % 1000000 = 0)

/-- The milliseconds since the start of 1970; a leap second counts into the next second. -/
def toMillis (i : Instant) : Int := i.seconds * 1000 + (i.nanos / 1000000 : Nat)

/-- The instant of a count of milliseconds, when it is in range. -/
def ofMillis? (ms : Int) : Option Instant :=
  let i : Instant := ⟨ms / 1000, (ms % 1000).toNat * 1000000⟩
  if i.inRange then some i else none

/-- The instant cut to whole milliseconds. -/
def truncate (i : Instant) : Instant := (ofMillis? i.toMillis).getD i

/-! ## Writing -/

/-- A number with leading zeros up to a width. -/
def padded (width n : Nat) : List Char :=
  let digits := Nat.toDigits 10 n
  List.replicate (width - digits.length) '0' ++ digits

def yearText (year : Int) : List Char :=
  if 0 ≤ year ∧ year ≤ 9999 then padded 4 year.natAbs
  else (if year < 0 then '-' else '+') :: padded 6 year.natAbs

/-- The characters of an instant's text: date, time to the millisecond, zone `Z`. -/
def chars (i : Instant) : List Char :=
  let date := Civil.ofDay (i.seconds / 86400)
  let clock := (i.seconds % 86400).toNat
  yearText date.year ++ '-' :: padded 2 date.month ++ '-' :: padded 2 date.day
    ++ 'T' :: padded 2 (clock / 3600) ++ ':' :: padded 2 (clock / 60 % 60)
    ++ ':' :: padded 2 (clock % 60 + i.nanos / 1000000000)
    ++ '.' :: padded 3 (i.nanos % 1000000000 / 1000000) ++ ['Z']

def text (i : Instant) : String := String.ofList i.chars

/-! ## Reading -/

/-- Exactly `n` digits at the front. -/
def takeDigits? (n : Nat) (cs : List Char) : Option (Nat × List Char) :=
  let digits := cs.take n
  if digits.length = n ∧ digits.all Char.isDigit then some (digitsValue digits, cs.drop n) else none

/-- The character `c` at the front. -/
def takeChar? (c : Char) : List Char → Option (List Char)
  | [] => none
  | d :: rest => if d = c then some rest else none

/-- The nanoseconds after a point; places beyond the ninth are dropped. -/
def fraction? : List Char → Option (Nat × List Char)
  | '.' :: cs =>
    let (digits, rest) := spanDigits cs
    if digits.isEmpty then none
    else
      let kept := digits.take 9
      some (digitsValue kept * Nat.pow 10 (9 - kept.length), rest)
  | cs => some (0, cs)

/-- The offset from the zone, in seconds; nothing may follow it. The strict form is `Z` alone. -/
def offset? (strict : Bool) : List Char → Option Int
  | ['Z'] => some 0
  | cs =>
    if strict then none
    else match cs with
      | ['z'] => some 0
      | sign :: cs => do
        let negative ← if sign = '+' then some false
          else if sign = '-' ∨ sign = '\u2212' then some true else none
        let (hours, cs) ← takeDigits? 2 cs
        let cs ← takeChar? ':' cs
        let (minutes, cs) ← takeDigits? 2 cs
        if hours ≤ 23 ∧ minutes ≤ 59 ∧ cs = [] then
          let seconds : Int := (hours * 3600 + minutes * 60 : Nat)
          some (if negative then -seconds else seconds)
        else none
      | [] => none

/-- What follows the year: month, day, time and offset. The strict form has a capital `T` and
the zone `Z`. -/
def afterYear? (strict : Bool) (year : Int) (cs : List Char) : Option Instant := do
  let cs ← takeChar? '-' cs
  let (month, cs) ← takeDigits? 2 cs
  let cs ← takeChar? '-' cs
  let (day, cs) ← takeDigits? 2 cs
  let cs ← match cs with
    | c :: rest => if c = 'T' ∨ (!strict ∧ (c = 't' ∨ c = ' ')) then some rest else none
    | [] => none
  let (hour, cs) ← takeDigits? 2 cs
  let cs ← takeChar? ':' cs
  let (minute, cs) ← takeDigits? 2 cs
  let cs ← takeChar? ':' cs
  let (second, cs) ← takeDigits? 2 cs
  let (nanos, cs) ← fraction? cs
  let offset ← offset? strict cs
  let date : Civil := ⟨year, month, day⟩
  if date.isValid ∧ hour ≤ 23 ∧ minute ≤ 59 ∧ second ≤ 60 then
    let leap := decide (second = 60)
    let clock : Int := (hour * 3600 + minute * 60 + (if leap then 59 else second) : Nat)
    some ⟨date.toDay * 86400 + clock - offset, nanos + (if leap then 1000000000 else 0)⟩
  else none

/-- The instant a text names: a year of four digits, or a sign and a year of six, then the rest.
A negative year zero is none, and neither is an instant with a part of a millisecond. -/
def ofChars? (cs : List Char) : Option Instant := do
  let i ← match cs with
    | '+' :: rest => do
      let (year, rest) ← takeDigits? 6 rest
      afterYear? true year rest
    | '-' :: rest => do
      let (year, rest) ← takeDigits? 6 rest
      if year = 0 then none else afterYear? true (-(year : Int)) rest
    | cs => do
      let (year, rest) ← takeDigits? 4 cs
      afterYear? false year rest
  if i.inRange && i.isMillis then some i else none

def ofText? (text : String) : Option Instant := ofChars? text.toList

end Instant

end Typeforge
