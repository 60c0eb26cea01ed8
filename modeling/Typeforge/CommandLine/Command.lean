/-
# `Typeforge.CommandLine.Command` — what the program is asked to do

A command works on one root of a type graph: it compiles the root's functions
into a snapshot, validates documents, prints mocks or prints listings.
`Command.ofArguments` reads it from the arguments of the program.
-/
import Typeforge.CommandLine.Options
import Typeforge.Documents
import Typeforge.Text.Integer

namespace Typeforge

namespace CommandLine

/-- The type that a command works on, and the settings of its engine. -/
structure TypeSource where
  /-- The file of the type graph. -/
  types : String
  root : String
  /-- The file of the configuration. -/
  config : Option String

inductive Action where
  /-- Compile, and write the snapshot to a file or print it. -/
  | compile (out : Option String)
  /-- Validate the documents of sources, which may be patterns. Documents may be decoded first. -/
  | validate (inputs : List String) (options : DocumentOptions) (decode : Bool)
  | mock (count : Nat) (seed : Option Nat)
  | inspect

structure Command where
  source : TypeSource
  action : Action
  /-- Whether the steps of the work are logged. -/
  verbose : Bool

namespace Command

/-! ## The options of each command -/

def anyText (_ : String) : Bool := true

def isPath (text : String) : Bool := !text.isEmpty

def isNumber (text : String) : Bool := (word64? text).isSome

/-- The options known everywhere. -/
def sharedForms : List OptionForm := [⟨"verbose", some 'v', .none⟩, ⟨"help", some 'h', .none⟩]

def sourceForms : List OptionForm :=
  [⟨"types", none, .one isPath⟩, ⟨"root", none, .one anyText⟩, ⟨"config", none, .one isPath⟩]

def compileForms : List OptionForm := [⟨"out", some 'o', .one isPath⟩]

def validateForms : List OptionForm :=
  [⟨"ndjson", none, .none⟩, ⟨"json-pointer", none, .one anyText⟩, ⟨"jq-expr", none, .one anyText⟩,
    ⟨"input", some 'i', .many⟩, ⟨"decode", none, .none⟩]

def mockForms : List OptionForm := [⟨"count", some 'n', .one isNumber⟩, ⟨"seed", none, .one isNumber⟩]

/-! ## Reading commands -/

def validateAction (g : Given) : Except UsageFault Action := do
  let _ ← g.required "input"
  let options : DocumentOptions :=
    { lines := g.has "ndjson", pointer := g.value? "json-pointer", query := g.value? "jq-expr" }
  pure (.validate (g.values "input") options (g.has "decode"))

def mockAction (g : Given) : Action :=
  .mock (((g.value? "count").bind word64?).getD 1) ((g.value? "seed").bind word64?)

/-- The commands: the options of each besides those of its source, and the action they ask for. -/
def table : List (String × List OptionForm × (Given → Except UsageFault Action)) :=
  [("compile", compileForms, fun g => .ok (.compile (g.value? "out"))),
    ("validate", validateForms, validateAction),
    ("mock", mockForms, fun g => .ok (mockAction g)),
    ("inspect", [], fun _ => .ok .inspect)]

def sourceOf (g : Given) : Except UsageFault TypeSource := do
  pure ⟨← g.required "types", ← g.required "root", g.value? "config"⟩

/-- No argument may be left over. -/
def noneLeft : List String → Except UsageFault Unit
  | [] | ["--"] => .ok ()
  | argument :: _ => .error (.unexpected argument)

/-- What asking for help on commands comes to: help, if the command is one. -/
def helpOn : List String → UsageFault
  | [] => .help
  | [name] => if name = "help" || table.any (·.1 == name) then .help else .unknownCommand name
  | _ :: name :: _ => .unknownCommand name

/-- The command that arguments name. -/
def ofArguments (arguments : List String) : Except UsageFault Command := do
  let (first, rest) ← readOptions sharedForms {} arguments
  match rest with
  | [] => throw .missingCommand
  | name :: rest =>
    if name = "help" then throw (helpOn rest)
    match table.find? fun c => c.1 == name with
    | none => throw (.unknownCommand name)
    | some (_, forms, action) =>
      let (given, left) ← readOptions (sourceForms ++ forms ++ sharedForms) {} rest
      noneLeft left
      pure ⟨← sourceOf given, ← action given, first.has "verbose" || given.has "verbose"⟩

/-! ## Help -/

def usage : String :=
  "Usage: typeforge [-v] <COMMAND>\n\n"
  ++ "Commands:\n"
  ++ "  compile   build all functions of a root type and write the snapshot\n"
  ++ "  validate  validate JSON documents against a root type\n"
  ++ "  mock      print mock values of a root type as JSON text\n"
  ++ "  inspect   print the compiled functions of a root type\n"
  ++ "  sweep     check on mocks that the compiled functions agree\n"
  ++ "  help      print this text\n\n"
  ++ "Options:\n"
  ++ "  --types PATH --root NAME [--config PATH]    every command\n"
  ++ "  [-o|--out PATH]                             compile\n"
  ++ "  -i|--input PATH... [--ndjson] [--json-pointer POINTER] [--jq-expr FILTER] [--decode]\n"
  ++ "                                              validate\n"
  ++ "  [-n|--count N] [--seed N]                   mock\n"
  ++ "  [--only PATTERN] [--draws N] [FILE...]      sweep\n"

end Command

end CommandLine

end Typeforge
