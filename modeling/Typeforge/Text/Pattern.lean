/-
# `Typeforge.Text.Pattern` — patterns searched for in names

A pattern is a regular expression: characters, `.`, classes in brackets, `^`
and `$` for the two ends, groups, `|`, and the repetitions `*`, `+`, `?` and
`{m,n}`.  `\d`, `\w` and `\s` name the digits, the word characters and the
blanks of ASCII, their capitals all other characters.

`Pattern.rests` says what may remain of a text behind a match at its front, so
that a text is searched by asking each of its ends.
-/
import Typeforge.Number.Reading

namespace Typeforge

/-- A set of characters: those in some ranges, or those in none of them. -/
structure CharSet where
  ranges : List (Char × Char)
  inverted : Bool := false

def CharSet.contains (s : CharSet) (c : Char) : Bool :=
  (s.ranges.any fun r => decide (r.1 ≤ c ∧ c ≤ r.2)) != s.inverted

inductive Pattern where
  | nothing
  | oneOf (set : CharSet)
  | atStart
  | atEnd
  | sequence (first second : Pattern)
  | either (first second : Pattern)
  /-- So many times at least, and at most so many times more; without a number, any number more. -/
  | repeated (p : Pattern) (least : Nat) (more : Option Nat)

namespace Pattern

/-! ## Matching -/

/-- What remains behind so many steps. -/
def afterSteps (step : List Char → List (List Char)) : Nat → List Char → List (List Char)
  | 0, cs => [cs]
  | n + 1, cs => ((step cs).flatMap (afterSteps step n)).eraseDups

/-- What remains behind at most so many steps. -/
def withinSteps (step : List Char → List (List Char)) : Nat → List (List Char) → List (List Char)
  | 0, found => found
  | n + 1, found => withinSteps step n (found ++ found.flatMap step).eraseDups

/-- What may remain of a text behind a match at its front. The number is the length of the whole
text that it is an end of; steps that take no characters need not be repeated, so that this many
steps are enough for any number of them. -/
def rests (length : Nat) : Pattern → List Char → List (List Char)
  | nothing, cs => [cs]
  | oneOf set, cs =>
    match cs with
    | c :: rest => if set.contains c then [rest] else []
    | [] => []
  | atStart, cs => if cs.length = length then [cs] else []
  | atEnd, cs => if cs.isEmpty then [cs] else []
  | sequence first second, cs => ((first.rests length cs).flatMap (second.rests length)).eraseDups
  | either first second, cs => (first.rests length cs ++ second.rests length cs).eraseDups
  | repeated p least more, cs =>
    withinSteps (p.rests length) (min length (more.getD length))
      (afterSteps (p.rests length) least cs)

/-- All ends of a text, the whole first and the empty one last. -/
def ends : List Char → List (List Char)
  | [] => [[]]
  | c :: rest => (c :: rest) :: ends rest

/-- Whether a pattern matches somewhere in a text. -/
def occursIn (p : Pattern) (text : String) : Bool :=
  (ends text.toList).any fun cs => !(p.rests text.length cs).isEmpty

/-! ## Reading -/

/-- A character by itself. -/
def char (c : Char) : Pattern := oneOf ⟨[(c, c)], false⟩

/-- Any character but a line feed. -/
def anyChar : Pattern := oneOf ⟨[('\n', '\n')], true⟩

/-- The named classes. -/
def namedRanges? : Char → Option (List (Char × Char))
  | 'd' => some [('0', '9')]
  | 'w' => some [('0', '9'), ('A', 'Z'), ('_', '_'), ('a', 'z')]
  | 's' => some [('\t', '\r'), (' ', ' ')]
  | _ => none

/-- The set that a backslash and a character stand for. -/
def escaped? (c : Char) : Option CharSet :=
  match namedRanges? c, namedRanges? c.toLower with
  | some ranges, _ => some ⟨ranges, false⟩
  | none, some ranges => some ⟨ranges, true⟩
  | none, none =>
    let itself (c : Char) : CharSet := ⟨[(c, c)], false⟩
    match c with
    | 'n' => some (itself '\n')
    | 't' => some (itself '\t')
    | 'r' => some (itself '\r')
    | 'f' => some (itself '\x0c')
    | 'v' => some (itself '\x0b')
    | 'a' => some (itself '\x07')
    | c => if c.isAlphanum || 0x7f < c.toNat || c == '<' || c == '>' then none else some (itself c)

/-- The ranges of a class, through its closing bracket. The flag tells that a bracket that stands
first is one of the characters. -/
def classRanges (first : Bool) : List Char → Option (List (Char × Char) × List Char)
  | [] => none
  | ']' :: rest =>
    if first then do
      let (ranges, rest) ← classRanges false rest
      pure ((']', ']') :: ranges, rest)
    else some ([], rest)
  | '\\' :: c :: rest => do
    let set ← escaped? c
    if set.inverted then none
    else do
      let (ranges, rest) ← classRanges false rest
      pure (set.ranges ++ ranges, rest)
  | '[' :: _ => none
  | c :: '-' :: ']' :: rest => do
    let (ranges, rest) ← classRanges false ('-' :: ']' :: rest)
    pure ((c, c) :: ranges, rest)
  | c :: '-' :: d :: rest =>
    if d = '\\' ∨ d = '[' ∨ d < c then none
    else do
      let (ranges, rest) ← classRanges false rest
      pure ((c, d) :: ranges, rest)
  | c :: rest => do
    let (ranges, rest) ← classRanges false rest
    pure ((c, c) :: ranges, rest)

/-- A class, after its opening bracket. -/
def readClass : List Char → Option (Pattern × List Char)
  | '^' :: cs => (classRanges true cs).map fun (ranges, rest) => (oneOf ⟨ranges, true⟩, rest)
  | cs => (classRanges true cs).map fun (ranges, rest) => (oneOf ⟨ranges, false⟩, rest)

/-- The counts of a repetition, after its opening brace. -/
def readCounts (cs : List Char) : Option ((Nat × Option Nat) × List Char) :=
  let (least, rest) := spanDigits cs
  if least.isEmpty then none
  else match rest with
    | '\x7d' :: rest => some ((digitsValue least, some 0), rest)
    | ',' :: '\x7d' :: rest => some ((digitsValue least, none), rest)
    | ',' :: rest =>
      let (greatest, rest) := spanDigits rest
      match rest with
      | '\x7d' :: rest =>
        if greatest.isEmpty || digitsValue greatest < digitsValue least then none
        else some ((digitsValue least, some (digitsValue greatest - digitsValue least)), rest)
      | _ => none
    | _ => none

/-- The repetition at the front: how often at least, and how often more. -/
def readRepetition : List Char → Option ((Nat × Option Nat) × List Char)
  | '*' :: rest => some ((0, none), rest)
  | '+' :: rest => some ((1, none), rest)
  | '?' :: rest => some ((0, some 1), rest)
  | '\x7b' :: rest => readCounts rest
  | _ => none

/-- Whether a character begins a repetition. -/
def beginsRepetition (c : Char) : Bool := ['*', '+', '?', '\x7b'].contains c

/-- Applies the repetitions that stand behind a pattern; each may be marked as taking as little as
possible, which makes no difference to a search. The first argument bounds their number. -/
def readRepetitions : Nat → Pattern → List Char → Option (Pattern × List Char)
  | 0, p, cs => some (p, cs)
  | bound + 1, p, cs =>
    match cs with
    | c :: _ =>
      if beginsRepetition c then
        match readRepetition cs with
        | some ((least, more), '?' :: rest) => readRepetitions bound (.repeated p least more) rest
        | some ((least, more), rest) => readRepetitions bound (.repeated p least more) rest
        | none => none
      else some (p, cs)
    | [] => some (p, [])

/-- A pattern without `|`, repetitions or neighbours. -/
def readAtom (nested : List Char → Option (Pattern × List Char)) :
    List Char → Option (Pattern × List Char)
  | '(' :: rest =>
    match nested (match rest with
      | '?' :: ':' :: inside => inside
      | inside => inside) with
    | some (p, ')' :: rest) => some (p, rest)
    | _ => none
  | '[' :: rest => readClass rest
  | '\\' :: c :: rest => (escaped? c).map fun set => (oneOf set, rest)
  | '.' :: rest => some (anyChar, rest)
  | '^' :: rest => some (atStart, rest)
  | '$' :: rest => some (atEnd, rest)
  | c :: rest =>
    if beginsRepetition c || c == '\\' then none else some (char c, rest)
  | [] => none

/-- Patterns in a row, up to `|`, `)` or the end. The number bounds how many. -/
def readRow (nested : List Char → Option (Pattern × List Char)) :
    Nat → List Char → Option (Pattern × List Char)
  | _, [] => some (nothing, [])
  | 0, _ => none
  | bound + 1, c :: rest =>
    if c = '|' ∨ c = ')' then some (nothing, c :: rest)
    else do
      let (p, rest) ← readAtom nested (c :: rest)
      let (p, rest) ← readRepetitions (rest.length + 1) p rest
      let (q, rest) ← readRow nested bound rest
      pure (sequence p q, rest)

/-- Patterns joined by `|`. The number bounds how many, and how deep they stand in groups. -/
def readChoice : Nat → List Char → Option (Pattern × List Char)
  | 0, _ => none
  | bound + 1, cs => do
    let (p, rest) ← readRow (readChoice bound) (cs.length + 1) cs
    match rest with
    | '|' :: rest => do
      let (q, rest) ← readChoice bound rest
      pure (either p q, rest)
    | rest => pure (p, rest)

/-- The pattern that a text is, if it is one. -/
def ofText? (text : String) : Option Pattern :=
  match readChoice (text.length + 1) text.toList with
  | some (p, []) => some p
  | _ => none

end Pattern

end Typeforge
