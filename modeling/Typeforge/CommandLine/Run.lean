/-
# `Typeforge.CommandLine.Run` — carrying out commands

`run` takes the arguments of the program to its outcome: an exit code and what
is printed.  Arguments that are not understood end with code 2, other failures
with code 1 after what was printed before them.
-/
import Typeforge.Code.Listing
import Typeforge.CommandLine.Command
import Typeforge.CommandLine.Failure
import Typeforge.CommandLine.Outcome
import Typeforge.CommandLine.Query
import Typeforge.Engine
import Typeforge.Files.Basic
import Typeforge.Mock.Sampler

namespace Typeforge

namespace CommandLine

/-- What has been printed and logged. -/
structure Printed where
  stdout : String := ""
  log : String := ""

/-- Carrying out a command; what is printed outlives a failure. -/
abbrev Session (m : Type → Type) := ExceptT Failure (StateT Printed m)

variable {m : Type → Type} [Monad m]

namespace Session

def print (text : String) : Session m Unit :=
  modify fun p => { p with stdout := p.stdout ++ text }

def printLine (text : String) : Session m Unit := print (text ++ "\n")

def log (verbose : Bool) (text : String) : Session m Unit :=
  if verbose then modify fun p => { p with log := p.log ++ text ++ "\n" } else pure ()

/-- Does something outside the program, and fails with its reason. -/
def access {α : Type} (x : m (Except String α)) (failure : String → Failure) : Session m α := do
  match ← (x : Session m (Except String α)) with
  | .ok a => pure a
  | .error reason => throw (failure reason)

/-- Takes a result, or fails with its error. -/
def orFail {ε α : Type} (failure : ε → Failure) : Except ε α → Session m α
  | .ok a => pure a
  | .error e => throw (failure e)

end Session

open Session

/-! ## Types -/

/-- The configuration of a command, with the seed for draws that have none. -/
def loadConfig (files : Files m) (freshSeed : Nat) (s : TypeSource) : Session m EngineConfig := do
  let config ← match s.config with
    | none => pure {}
    | some path => do
      let text ← access (files.read path) (.configUnreadable path)
      orFail (.badConfig path) (EngineConfig.ofText text)
  pure { config with mock := { config.mock with seed := some (config.mock.seed.getD freshSeed) } }

/-- The arena of the type that a command works on. -/
def loadTypes (files : Files m) (c : Command) (e : Engine) : Session m Arena := do
  let path := c.source.types
  let text ← access (files.read path) (.typesUnreadable path)
  let g ← orFail (.badTypes path) (TypeGraph.ofText text)
  let a ← orFail (.notLowered c.source.root path) (e.loadNamed g c.source.root)
  log c.verbose s!"loaded type graph: root {c.source.root}, {a.size} nodes"
  pure a

/-- Compiles all functions of the root into a registry of its own. -/
def compileRoot (c : Command) (e : Engine) (a : Arena) :
    Session m (Engine × TypeFunctions × Registry) := do
  let (result, r) := (e.compileAll c.source.root a).run .empty
  let (e, functions) ← orFail .notCompiled result
  log c.verbose s!"compiled {r.size} functions"
  pure (e, functions, r)

/-! ## Sources -/

/-- The paths that an input stands for: those it matches, if it is a pattern. -/
def expandInput (files : Files m) (input : String) : Session m (List String) := do
  if Glob.isPattern input then
    let pattern ← orFail .badPattern (Glob.PathPattern.ofText input)
    let tree ← (files.tree pattern.base pattern.levels : Session m (Option Tree))
    match (tree.map pattern.expand).getD [] with
    | [] => throw (.nothingMatched input)
    | paths => pure paths
  else pure [input]

def loadDocuments (files : Files m) (inputs : List String) (o : DocumentOptions) :
    Session m (List Document) := do
  let paths ← inputs.mapM (expandInput files)
  let documents ← paths.flatten.mapM fun path => do
    let text ← access (files.read path) (.sourceUnreadable path)
    orFail .badSource (Document.ofSource Query.language o path text)
  pure documents.flatten

/-! ## Validation -/

/-- What validation finds in a document: what is wrong, or why it cannot be decoded. -/
def checkDocument (f : TypeFunctions) (r : Registry) (decode : Bool) (d : Document) :
    Except Halt (List ValidationError) := do
  let v ← if decode then f.jsonDecode.decode r d.value else pure (.ofJson d.value)
  pure (f.typeErrors.typeErrors r v [])

def isValid : Except Halt (List ValidationError) → Bool
  | .ok errors => errors.isEmpty
  | .error _ => false

def errorLine (e : ValidationError) : String :=
  "    " ++ errorPathText e.path ++ " expected " ++ e.expected ++ "\n"

/-- The lines about a document. -/
def verdict (source : String) : Except Halt (List ValidationError) → String
  | .ok [] => "✔ " ++ source ++ "\n"
  | .ok errors => "✘ " ++ source ++ "\n" ++ String.join (errors.map errorLine)
  | .error h => "✘ " ++ source ++ ": " ++ h.message ++ "\n"

/-! ## Commands -/

def compile (files : Files m) (c : Command) (e : Engine) (out : Option String) :
    Session m Unit := do
  let a ← loadTypes files c e
  let (e, _, r) ← compileRoot c e a
  let text := (e.snapshot r).toJson.pretty
  match out with
  | some path => access (files.write path text) (.notWritten path)
  | none => printLine text

def validate (files : Files m) (c : Command) (e : Engine) (inputs : List String)
    (o : DocumentOptions) (decode : Bool) : Session m Unit := do
  let a ← loadTypes files c e
  let (_, functions, r) ← compileRoot c e a
  let documents ← loadDocuments files inputs o
  let results := documents.map fun d => (d.source, checkDocument functions r decode d)
  results.forM fun (source, result) => print (verdict source result)
  let failed := results.countP fun (_, result) => !isValid result
  if 0 < failed then throw (.invalidDocuments failed documents.length)

def mock (files : Files m) (c : Command) (e : Engine) (count : Nat) (seed : Option Nat) :
    Session m Unit := do
  let o := { e.config.mock with seed := seed <|> e.config.mock.seed }
  let a ← loadTypes files c e
  let sampler ← orFail .notCompiled (Mock.Sampler.build a a.root o)
  let (result, r) := (e.build a a.root .jsonStringify).run .empty
  let stringify ← orFail .notCompiled result
  let values ← orFail .notCompiled ((sampler.sample count).run (Mock.generator o)).1
  values.forM fun v => do printLine (← orFail .halted (stringify.stringify r v))

def inspect (files : Files m) (c : Command) (e : Engine) : Session m Unit := do
  let a ← loadTypes files c e
  let (_, functions, r) ← compileRoot c e a
  printLine ("root " ++ functions.identity)
  r.sorted.forM fun f => print ("\n" ++ f.listing)

def carryOut (files : Files m) (freshSeed : Nat) (c : Command) : Session m Unit := do
  let e : Engine := { config := ← loadConfig files freshSeed c.source }
  match c.action with
  | .compile out => compile files c e out
  | .validate inputs o decode => validate files c e inputs o decode
  | .mock count seed => mock files c e count seed
  | .inspect => inspect files c e

/-- The outcome of the program. The seed is for draws that are given none. -/
def run (files : Files m) (freshSeed : Nat) (arguments : List String) : m Outcome := do
  match Command.ofArguments arguments with
  | .error .help => pure { code := 0, stdout := Command.usage }
  | .error fault => pure { code := 2, stderr := "error: " ++ fault.message ++ "\n\n" ++ Command.usage }
  | .ok c =>
    let (result, printed) ← (carryOut files freshSeed c).run {}
    match result with
    | .ok () => pure ⟨0, printed.stdout, printed.log⟩
    | .error failure =>
      pure ⟨1, printed.stdout, printed.log ++ "error: " ++ failure.message ++ "\n"⟩

end CommandLine

end Typeforge
