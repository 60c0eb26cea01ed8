/-
# `Typeforge.Sweep.Agreement` — whether compiled functions agree on mocks

A mock of a type has the type and no errors; encoding it, or writing its text,
and decoding again gives it back; and functions that went through a snapshot
answer as the ones they were stored from.  `sweepFixture` checks this on draws
of one fixture, six checks on each.
-/
import Typeforge.Engine
import Typeforge.Mock.Sampler
import Typeforge.Sweep.Fixtures
import Typeforge.Value.Diagnostic

namespace Typeforge

namespace Sweep

/-! ## What is found -/

/-- Why a fixture has no functions or no mocks. -/
inductive BuildFault where
  | type (e : CompileError)
  | snapshot (f : DecodeFault)

def BuildFault.message : BuildFault → String
  | type e => e.message
  | snapshot f => f.message

/-- How a mock went out and back. -/
inductive Way where
  | encoded
  | written

def Way.name : Way → String
  | encoded => "encode/decode"
  | written => "stringify/decode"

/-- In what the functions disagree about a mock. -/
inductive Finding where
  | notItsType
  | hasErrors (errors : List ValidationError)
  | changed (way : Way) (back : Value)
  | notBack (way : Way) (h : Halt)
  | restoredCheck
  | restoredText

def Finding.message : Finding → String
  | notItsType => "mock is not its own type"
  | hasErrors errors => "typeErrors reported " ++ bracketed (errors.map ValidationError.diagnostic)
  | changed way back => way.name ++ " gave " ++ back.diagnostic
  | notBack way h => way.name ++ " failed: " ++ h.message
  | restoredCheck => "restored isType disagrees"
  | restoredText => "restored jsonStringify disagrees"

inductive Failure where
  | notBuilt (fixture : String) (fault : BuildFault)
  | disagreement (fixture : String) (draw : Nat) (finding : Finding) (mock : Value)

def Failure.message : Failure → String
  | notBuilt fixture fault => fixture ++ ": build failed: " ++ fault.message
  | disagreement fixture draw finding mock =>
    s!"{fixture} draw {draw}: " ++ finding.message ++ " for " ++ mock.diagnostic

/-- How many checks were made, and what failed. -/
structure Tally where
  checked : Nat := 0
  failures : List Failure := []

/-! ## The functions of a fixture -/

/-- What a fixture is checked with. -/
structure Subject where
  functions : TypeFunctions
  registry : Registry
  /-- The functions that went through a snapshot. -/
  restored : TypeFunctions
  restoredRegistry : Registry
  sampler : Mock.Sampler

/-- The functions that the text of a snapshot holds under a name. -/
def restoreText (text root : String) : Except BuildFault (TypeFunctions × Registry) := do
  let s ← (Snapshot.ofText text).mapError .snapshot
  let (e, r) := (({} : Engine).restore s).run .empty
  pure (← (e.restored r root).mapError .type, r)

/-- Builds what a fixture is checked with. -/
def Subject.build (f : Fixture) (o : MockOptions) : Except BuildFault Subject := do
  let e : Engine := { config := { mock := o } }
  let a ← (e.loadNamed f.graph f.root).mapError .type
  let (compiled, registry) := (e.compileAll f.root a).run .empty
  let (e, functions) ← compiled.mapError .type
  let sampler ← (Mock.Sampler.build a a.root o).mapError .type
  let (restored, restoredRegistry) ← restoreText (e.snapshot registry).text f.root
  pure { functions, registry, restored, restoredRegistry, sampler }

/-! ## Checking -/

/-- What is found when a value comes back, if it differs. -/
def wayBack (way : Way) (v : Value) : Except Halt Value → Option Finding
  | .ok back => if back.equals v then none else some (.changed way back)
  | .error h => some (.notBack way h)

def textOf : Except Halt String → Option String
  | .ok text => some text
  | .error _ => none

/-- The checks of a mock, each with what it finds. -/
def checks (s : Subject) (v : Value) : List (Option Finding) :=
  let f := s.functions
  let r := s.registry
  let errors := f.typeErrors.typeErrors r v []
  let text := f.jsonStringify.stringify r v
  let restoredText := s.restored.jsonStringify.stringify s.restoredRegistry v
  [if f.isType.isType r v then none else some .notItsType,
    if errors.isEmpty then none else some (.hasErrors errors),
    wayBack .encoded v (f.jsonEncode.encode r v >>= f.jsonDecode.decode r),
    wayBack .written v (text >>= f.jsonDecode.parse r),
    if s.restored.isType.isType s.restoredRegistry v then none else some .restoredCheck,
    if textOf text = textOf restoredText then none else some .restoredText]

/-- Enters the checks of a mock. -/
def Tally.enter (t : Tally) (fixture : String) (draw : Nat) (v : Value)
    (found : List (Option Finding)) : Tally where
  checked := t.checked + found.length
  failures := t.failures ++ (found.filterMap id).map fun f => .disagreement fixture draw f v

/-- Makes so many draws, counted from `draw`; one that fails ends them. -/
def sweepDraws (fixture : String) (s : Subject) (draw : Nat) :
    Nat → Generator → Tally → Tally × Option CompileError
  | 0, _, t => (t, none)
  | count + 1, g, t =>
    match s.sampler.next.run g with
    | (.ok v, g) =>
      sweepDraws fixture s (draw + 1) count g (t.enter fixture draw v (checks s v))
    | (.error e, _) => (t, some e)

/-- Makes so many draws of a fixture; their number is the seed too. -/
def sweepFixture (draws : Nat) (f : Fixture) (t : Tally) : Tally × Option BuildFault :=
  let o : MockOptions := { seed := some draws }
  match Subject.build f o with
  | .ok s =>
    let (t, stop) := sweepDraws f.name s 0 draws (Mock.generator o) t
    (t, stop.map .type)
  | .error fault => (t, some fault)

end Sweep

end Typeforge
