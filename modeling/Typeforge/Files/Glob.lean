/-
# `Typeforge.Files.Glob` — file names by pattern

In a pattern `?` stands for one character, `*` for any number of them within a
name, `[…]` for one of some characters or ranges, `[!…]` for any other, and
`**` as a whole name for any number of directories.  What a pattern matches is
listed in the order of names, a directory before what stands in it.

The names `.` and `..` are no entries of a directory: only a name without
wildcards, or one that begins with a point, leads along them, and then they
come before all entries.
-/
import Typeforge.Files.Basic

namespace Typeforge

namespace Glob

/-- A character or a range of characters. -/
inductive CharRange where
  | one (c : Char)
  | range (first last : Char)

def CharRange.holds : CharRange → Char → Bool
  | one a, c => a == c
  | range first last, c => decide (first ≤ c ∧ c ≤ last)

/-- A part of a pattern. -/
inductive Token where
  | char (c : Char)
  | anyChar
  | anyText
  | within (ranges : List CharRange)
  | except (ranges : List CharRange)

/-- The pattern of one name. -/
inductive NamePattern where
  /-- Any number of directories. -/
  | anyDirectories
  | name (tokens : List Token)

/-- What is wrong with a pattern, and where. -/
structure PatternFault where
  position : Nat
  problem : String

def PatternFault.message (f : PatternFault) : String :=
  s!"Pattern syntax error near position {f.position}: " ++ f.problem

/-! ## Reading patterns -/

def wildcardProblem : String := "wildcards are either regular `*` or recursive `**`"
def recursiveProblem : String := "recursive wildcards must form a single path component"
def rangeProblem : String := "invalid range pattern"

/-- The characters and ranges between brackets. -/
def charRanges : List Char → List CharRange
  | first :: '-' :: last :: rest => .range first last :: charRanges rest
  | c :: rest => .one c :: charRanges rest
  | [] => []

/-- Splits behind the first closing bracket, the first character not being looked at. -/
def untilBracket : List Char → Option (List Char × List Char)
  | [] => none
  | first :: rest =>
    let inside := rest.takeWhile (· ≠ ']')
    match rest.dropWhile (· ≠ ']') with
    | ']' :: after => some (first :: inside, after)
    | _ => none

/-- Reads a bracketed part behind its opening bracket; says how many characters it takes. -/
def readBrackets : List Char → Option (Token × Nat)
  | '!' :: rest => (untilBracket rest).map fun (inside, _) =>
      (.except (charRanges inside), inside.length + 2)
  | rest => (untilBracket rest).map fun (inside, _) =>
      (.within (charRanges inside), inside.length + 1)

/-- Reads the tokens of a pattern from a position on. `before` is the character in front; a
recursive wildcard must fill a whole name. -/
def readTokens (before : Option Char) (position : Nat) : Nat → List Char →
    Except PatternFault (List Token × Bool)
  | _, [] => .ok ([], false)
  | 0, _ => .ok ([], false)
  | bound + 1, c :: rest =>
    let more (token : Token) (taken : Nat) : Except PatternFault (List Token × Bool) := do
      let (tokens, recursive) ←
        readTokens ((c :: rest)[taken - 1]?) (position + taken) bound ((c :: rest).drop taken)
      pure (token :: tokens, recursive)
    if c = '?' then more .anyChar 1
    else if c = '*' then
      match ((c :: rest).takeWhile (· == '*')).length with
      | 1 => more .anyText 1
      | 2 =>
        if before.isNone || before == some '/' then
          match (c :: rest).drop 2 with
          | [] => .ok ([], true)
          | '/' :: after => do
            let (tokens, _) ← readTokens (some '/') (position + 3) bound after
            pure (tokens, true)
          | _ => .error ⟨position + 2, recursiveProblem⟩
        else .error ⟨position - 1, recursiveProblem⟩
      | _ => .error ⟨position + 2, wildcardProblem⟩
    else if c = '[' then
      match readBrackets rest with
      | some (token, taken) => more token (taken + 1)
      | none => .error ⟨position, rangeProblem⟩
    else more (.char c) 1

/-- Reads the pattern of one name. -/
def readName (text : String) : Except PatternFault NamePattern := do
  let (tokens, recursive) ← readTokens none 0 (text.length + 1) text.toList
  pure (if recursive then .anyDirectories else .name tokens)

/-! ## Matching names -/

/-- Whether tokens match a whole name. -/
def matchTokens : List Token → List Char → Bool
  | [], cs => cs.isEmpty
  | .anyText :: rest, cs => anySuffix (matchTokens rest) cs
  | .anyChar :: rest, _ :: cs => matchTokens rest cs
  | .char a :: rest, c :: cs => a == c && matchTokens rest cs
  | .within ranges :: rest, c :: cs => ranges.any (·.holds c) && matchTokens rest cs
  | .except ranges :: rest, c :: cs => !ranges.any (·.holds c) && matchTokens rest cs
  | _ :: _, [] => false
where
  /-- Whether something holds of the text or a part at its end. -/
  anySuffix (p : List Char → Bool) : List Char → Bool
    | [] => p []
    | c :: cs => p (c :: cs) || anySuffix p cs

/-- The name a pattern stands for, if it has no wildcards. -/
def plainName? : List Token → Option (List Char)
  | [] => some []
  | .char c :: rest => (plainName? rest).map (c :: ·)
  | _ => none

/-! ## Walking a tree -/

/-- A place in a tree, with the path to it and the directories it stands in, the nearest first. -/
structure Place where
  path : String
  tree : Tree
  above : List Tree := []

/-- Whether a path is only a way to write the current directory. -/
def isCurrent (path : String) : Bool :=
  match path.splitOn "/" with
  | "." :: rest => rest.all fun name => name.isEmpty || name == "."
  | _ => false

/-- A path with one more name. -/
def join (path name : String) : String :=
  if path.isEmpty || path.endsWith "/" then path ++ name else path ++ "/" ++ name

/-- The path to an entry of a directory; the current directory is not named. -/
def entryPath (path name : String) : String := if isCurrent path then name else join path name

mutual

/-- All places below a directory with their names, each before what stands in it. -/
def below (path : String) (above : List Tree) : Tree → List (String × Place)
  | .file => []
  | .directory entries => belowEntries path (.directory entries :: above) entries

def belowEntries (path : String) (above : List Tree) :
    List (String × Tree) → List (String × Place)
  | [] => []
  | (name, t) :: rest =>
    (name, ⟨entryPath path name, t, above⟩)
      :: below (entryPath path name) above t ++ belowEntries path above rest

end

namespace Place

/-- The entries of a directory with their names. -/
def entries (p : Place) : List (String × Place) :=
  p.tree.entries.map fun (name, t) => (name, ⟨entryPath p.path name, t, p.tree :: p.above⟩)

/-- The place at a path, reached along `.` or `..` from a directory. Nothing is known of what
stands above the whole tree. -/
def along (p : Place) (name path : String) : Option Place :=
  if !p.tree.isDirectory then none
  else if name = ".." then
    match p.above with
    | around :: above => some ⟨path, around, above⟩
    | [] => some ⟨path, .directory [], []⟩
  else some { p with path }

/-- The place one name on. An empty name leads from a directory to itself, unless that is the
current one. -/
def step? (p : Place) (name : String) : Option Place :=
  if name = "." ∨ name = ".." then p.along name (entryPath p.path name)
  else if name = "" then
    if p.tree.isDirectory && !isCurrent p.path then some { p with path := join p.path name }
    else none
  else (p.tree.entry? name).map fun t => ⟨entryPath p.path name, t, p.tree :: p.above⟩

/-- The places that a name with wildcards finds along `..` and `.`. -/
def dotted (p : Place) (tokens : List Token) : List Place :=
  match tokens with
  | .char '.' :: _ =>
    [("..", "..".toList), (".", ".".toList)].filterMap fun (name, chars) =>
      if matchTokens tokens chars then p.along name (join p.path name) else none
  | _ => []

/-- The directories below a place. -/
def directories (p : Place) : List Place :=
  ((below p.path p.above p.tree).map (·.2)).filter (·.tree.isDirectory)

end Place

/-- The places that patterns lead to. The flag tells that any number of directories may be passed
before the next name. -/
def expandFrom : Bool → List NamePattern → Place → List Place
  | true, [], p => p.directories
  | false, [], p => [p]
  | _, .anyDirectories :: rest, p => expandFrom true rest p
  | true, .name tokens :: rest, p =>
    onward tokens (expandFrom false rest) (below p.path p.above p.tree)
  | false, .name tokens :: rest, p =>
    match plainName? tokens with
    | some name =>
      match p.step? (String.ofList name) with
      | some q => expandFrom false rest q
      | none => []
    | none =>
      (p.dotted tokens).flatMap (expandFrom false rest)
        ++ onward tokens (expandFrom false rest) p.entries
where
  /-- Goes on from the places whose names match. -/
  onward (tokens : List Token) (next : Place → List Place) (places : List (String × Place)) :
      List Place :=
    (places.filter fun p => matchTokens tokens p.1.toList).flatMap fun p => next p.2

/-! ## Patterns of paths -/

/-- The pattern of a path. -/
structure PathPattern where
  /-- The path of the directory that the names lead on from. -/
  base : String
  names : List NamePattern
  /-- Whether the pattern ends in a slash, and so is for directories. -/
  directoriesOnly : Bool

/-- Whether a name may lead upwards. -/
def NamePattern.climbs : NamePattern → Bool
  | .name tokens => matchTokens tokens ['.', '.']
  | .anyDirectories => false

/-- Goes along the names without wildcards, except those that a later name may lead back above. -/
def splitBase (base : String) : List NamePattern → String × List NamePattern
  | .name tokens :: rest =>
    match (plainName? tokens).map String.ofList with
    | some name =>
      if name = "." ∨ name = ".." then splitBase (entryPath base name) rest
      else if name = "" ∨ rest.any (·.climbs) then (base, .name tokens :: rest)
      else splitBase (entryPath base name) rest
    | none => (base, .name tokens :: rest)
  | names => (base, names)

namespace PathPattern

/-- Reads the pattern of a path: first as a whole, then name by name. -/
def ofText (text : String) : Except PatternFault PathPattern := do
  let _ ← readTokens none 0 (text.length + 1) text.toList
  let root := if text.startsWith "/" then "/" else ""
  let parts := (text.drop root.length).toString.splitOn "/"
  let names ← (if parts.getLast? == some "" then parts.dropLast else parts).mapM readName
  let (base, names) := splitBase (if root.isEmpty then "." else root) names
  pure ⟨base, names, text.endsWith "/"⟩

/-- How many levels of the tree at its base a pattern looks at; none when it may look at all. -/
def levels (p : PathPattern) : Option Nat :=
  if p.names.any fun
    | .anyDirectories => true
    | .name _ => false
  then none else some p.names.length

/-- The paths that a pattern matches in the tree at its base. -/
def expand (p : PathPattern) (t : Tree) : List String :=
  ((expandFrom false p.names ⟨p.base, t, []⟩).filter fun q =>
    !p.directoriesOnly || q.tree.isDirectory).map (·.path)

end PathPattern

/-- Whether a text is meant as a pattern. -/
def isPattern (text : String) : Bool := text.toList.any fun c => ['*', '?', '[', '\x7b'].contains c

end Glob

end Typeforge
