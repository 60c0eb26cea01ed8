/-
# `Typeforge.Mock.Draw` — drawing parts of mocks

A draw rests on an arena and the options; where it stands, a site tells.  From
the greatest depth on draws are minimal: what may be left out is, arrays are
empty, and unions take their lowest member.
-/
import Typeforge.Arena.Basic
import Typeforge.Code.Path
import Typeforge.Compile.Error
import Typeforge.Config
import Typeforge.Generator

namespace Typeforge

namespace Mock

/-- What draws rest on. -/
structure Context where
  arena : Arena
  options : MockOptions

/-- Where a draw stands: how deep, and at which part. -/
structure Site where
  depth : Nat := 0
  path : List Access := []

/-- Drawing; the generator outlives a failure. -/
abbrev Draw := ExceptT CompileError Random

namespace Site

def part (site : Site) (access : Access) : Site := { site with path := site.path ++ [access] }

def deeper (site : Site) : Site := { site with depth := site.depth + 1 }

def text (site : Site) : String := pathText (site.path.map Access.segment)

variable {α : Type}

def uninhabited (site : Site) : Draw α := throw (.uninhabited site.text)

def functionNotData (site : Site) : Draw α := throw (.functionNotData "mock" site.text)

def promiseNotData (site : Site) : Draw α := throw (.promiseNotData "mock" site.text)

end Site

namespace Context

/-- Whether a draw is minimal. -/
def minimal (x : Context) (site : Site) : Bool := decide (x.options.maxDepth ≤ site.depth)

/-- How deep draws may go at most. Minimal draws of a type with instances stay below it, unless
the greatest depth is so near the end of sixty-four bits that the sum runs over. -/
def limit (x : Context) : Nat := (x.options.maxDepth + 2 * x.arena.size + 1) % Nat.pow 2 64

/-- Whether something optional is drawn. -/
def includeOptional (x : Context) (site : Site) : Random Bool := do
  if x.minimal site then pure false
  else do
    let f ← Random.fraction
    pure (f < x.options.optionalProbability)

/-- A number up to a greatest one; nought in a minimal draw. -/
def count (x : Context) (site : Site) (most : Nat) : Random Nat :=
  if x.minimal site then pure 0 else Random.below64 (most + 1)

def arrayLength (x : Context) (site : Site) : Random Nat :=
  x.count site x.options.maxArrayLength

def indexKeys (x : Context) (site : Site) : Random Nat := x.count site x.options.maxIndexKeys

def string (x : Context) : Random String := do
  let length ← Random.below64 (x.options.maxStringLength + 1)
  Random.alphanumericText length

/-- The members of a union that have instances, with their heights. -/
def candidates (x : Context) (members : List NodeId) : List (NodeId × Nat) :=
  members.filterMap fun id => (x.arena.node id).minHeight.map fun h => (id, h)

/-- The first of the lowest. -/
def lowest : List (NodeId × Nat) → Option NodeId
  | [] => none
  | (id, h) :: rest =>
    some (rest.foldl (fun (best : NodeId × Nat) c => if c.2 < best.2 then c else best) (id, h)).1

/-- The member of a union that is drawn. -/
def pickMember (x : Context) (site : Site) (members : List NodeId) : Draw NodeId := do
  let candidates := x.candidates members
  match lowest candidates with
  | none => site.uninhabited
  | some best =>
    if x.minimal site then pure best
    else do
      let i ← Random.below64 candidates.length
      pure ((candidates[i]?.map (·.1)).getD best)

end Context

/-- A number, as often whole as not. -/
def number : Random Float := do
  if ← Random.bool then do
    let n ← Random.below32 2001
    pure (Float.ofInt ((n : Int) - 1000))
  else do
    let f ← Random.fraction
    pure ((f - 0.5) * 2000.0)

/-- The regular expressions that are drawn. -/
def samplePatterns : List Regexp :=
  [⟨"^[a-z]+$", "i"⟩, ⟨"\\d\x7b3\x7d-\\d\x7b4\x7d", ""⟩, ⟨"a/b", "g"⟩, ⟨"(foo|bar)+", "gm"⟩, ⟨"", ""⟩]

/-- Dates are drawn before 2100-01-01, in milliseconds since 1970-01-01. -/
def dateBound : Nat := 4102444800000

/-- The instant of a number of milliseconds. -/
def instantOfMillis (ms : Nat) : Instant := ⟨(ms / 1000 : Nat), ms % 1000 * 1000000⟩

/-- An instance of an atom. -/
def drawAtom (x : Context) (site : Site) : Atom → Draw Value
  | .never => site.uninhabited
  | .any | .unknown => do
    match ← Random.below32 4 with
    | 0 => pure .null
    | 1 => do
      let b ← Random.bool
      pure (.bool b)
    | 2 => do
      let n ← number
      pure (.number n)
    | _ => do
      let s ← x.string
      pure (.string s)
  | .void | .undefined => pure .undefined
  | .object => do
    let s ← x.string
    pure (.object [("key", .string s)])
  | .string => do
    let s ← x.string
    pure (.string s)
  | .number => do
    let n ← number
    pure (.number n)
  | .boolean => do
    let b ← Random.bool
    pure (.bool b)
  | .symbol => do
    let s ← x.string
    pure (.symbol s)
  | .bigint => do
    let n ← Random.int64
    pure (.bigint n)
  | .null => pure .null
  | .regexp => do
    let i ← Random.below64 samplePatterns.length
    pure (.regexp (samplePatterns.getD i ⟨"", ""⟩))
  | .date => do
    let ms ← Random.below64 dateBound
    pure (.date (instantOfMillis ms))
  | .literal value => pure value.toValue
  | .enumeration members =>
    match members with
    | [] => site.uninhabited
    | first :: _ => do
      let i ← Random.below64 members.length
      pure (members.getD i first).2.toValue

end Mock

end Typeforge
