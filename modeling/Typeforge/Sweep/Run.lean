/-
# `Typeforge.Sweep.Run` — the sweep as a program

`run` takes arguments to the outcome of a sweep: `--only` selects the fixtures in
whose names a pattern occurs, `--draws` says how many mocks are drawn of each,
and every other argument is a file of fixtures.
-/
import Typeforge.CommandLine.Outcome
import Typeforge.Files.Basic
import Typeforge.Sweep.Agreement
import Typeforge.Text.Pattern

namespace Typeforge

namespace Sweep

structure Options where
  only : Option Pattern := none
  draws : Nat := 200
  files : List String := []

/-- Why there is no sweep. -/
inductive Refusal where
  | noPattern
  | noNumber
  | unreadable (path reason : String)
  | badFile (path : String) (fault : DecodeFault)

def Refusal.message : Refusal → String
  | noPattern => "--only needs a valid regex"
  | noNumber => "--draws needs a number"
  | unreadable path reason => "❌ " ++ path ++ ": " ++ reason
  | badFile path fault => "❌ " ++ path ++ ": " ++ fault.message

/-- Reads arguments; of an option that is repeated the last one counts. -/
def Options.ofArguments (o : Options) : List String → Except Refusal Options
  | [] => .ok o
  | "--only" :: text :: rest =>
    match Pattern.ofText? text with
    | some p => ofArguments { o with only := some p } rest
    | none => .error .noPattern
  | ["--only"] => .error .noPattern
  | "--draws" :: text :: rest =>
    match word64? text with
    | some n => ofArguments { o with draws := n } rest
    | none => .error .noNumber
  | ["--draws"] => .error .noNumber
  | path :: rest => ofArguments { o with files := o.files ++ [path] } rest

def Options.selects (o : Options) (f : Fixture) : Bool :=
  match o.only with
  | some p => p.occursIn f.name
  | none => true

/-- What is said of the fixtures, and what was found. -/
structure Progress where
  lines : List String := []
  tally : Tally := {}

/-- Sweeps one more fixture. -/
def Progress.add (draws : Nat) (r : Progress) (f : Fixture) : Progress :=
  match sweepFixture draws f r.tally with
  | (t, none) => ⟨r.lines ++ ["—— " ++ f.name ++ " ——"], t⟩
  | (t, some fault) => ⟨r.lines, { t with failures := t.failures ++ [.notBuilt f.name fault] }⟩

/-- The lines at the end: the failures, and how many there are. -/
def Tally.lines (t : Tally) : List String :=
  (t.failures.map fun f => "❌ " ++ f.message) ++
    [if t.failures.isEmpty then s!"✅ {t.checked} checks passed"
      else s!"{t.failures.length} of {t.checked} checks failed"]

def Progress.outcome (r : Progress) : Outcome where
  code := if r.tally.failures.isEmpty then 0 else 1
  stderr := String.join ((r.lines ++ r.tally.lines).map (· ++ "\n"))

/-- Sweeps over the fixtures that are selected. -/
def sweep (o : Options) (fixtures : List Fixture) : Outcome :=
  ((fixtures.filter o.selects).foldl (Progress.add o.draws) {}).outcome

variable {m : Type → Type} [Monad m]

/-- The fixtures of a file. -/
def loadFile (files : Files m) (path : String) : ExceptT Refusal m (List Fixture) := do
  match ← (files.read path : ExceptT Refusal m (Except String String)) with
  | .error reason => throw (.unreadable path reason)
  | .ok text =>
    match Fixture.ofFile path text with
    | .ok fixtures => pure fixtures
    | .error fault => throw (.badFile path fault)

/-- The outcome of the program. -/
def run (files : Files m) (arguments : List String) : m Outcome := do
  let swept : ExceptT Refusal m Outcome := do
    let o ← liftExcept (Options.ofArguments {} arguments)
    let extra ← o.files.mapM (loadFile files)
    pure (sweep o (catalogue ++ extra.flatten))
  match ← swept.run with
  | .ok outcome => pure outcome
  | .error refusal => pure { code := 1, stderr := refusal.message ++ "\n" }
where
  liftExcept {α : Type} : Except Refusal α → ExceptT Refusal m α
    | .ok a => pure a
    | .error e => throw e

end Sweep

end Typeforge
