/-
# `Typeforge.CommandLine.Options` — options among arguments

An option is written `--name`, or `-n` where it has a short name; short names
may stand together after one dash.  A value is the next argument, unless that
begins with a dash, or is attached: `--name=value`, `-nvalue`, `-n=value`.
An option that takes many values takes all arguments up to the next dash, or
the one that is attached.  Only such an option may be given more than once.

Options are read up to the first argument that none of them takes, or up to
`--`.  The first of several faults is the one reported, and asking for help
counts as one.
-/

namespace Typeforge

namespace CommandLine

/-- How many values an option takes. -/
inductive Arity where
  | none
  /-- One value, and which texts it may be. -/
  | one (admits : String → Bool)
  | many

/-- An option that a command knows. -/
structure OptionForm where
  name : String
  short : Option Char
  arity : Arity

/-- Why arguments are not followed. -/
inductive UsageFault where
  /-- Help is asked for. -/
  | help
  | missingCommand
  | unknownCommand (name : String)
  | unknownOption (argument : String)
  | unexpected (argument : String)
  | missing (option : String)
  | repeated (option : String)
  | missingValue (option : String)
  | badValue (option value : String)
  | needlessValue (option : String)

def UsageFault.message : UsageFault → String
  | help => ""
  | missingCommand => "a command is missing"
  | unknownCommand name => "unrecognized command '" ++ name ++ "'"
  | unknownOption argument | unexpected argument => "unexpected argument '" ++ argument ++ "'"
  | missing option => "the option '--" ++ option ++ "' is required"
  | repeated option => "the option '--" ++ option ++ "' cannot be used multiple times"
  | missingValue option => "the option '--" ++ option ++ "' needs a value"
  | badValue option value => "invalid value '" ++ value ++ "' for '--" ++ option ++ "'"
  | needlessValue option => "the option '--" ++ option ++ "' takes no value"

/-- The options given, each with its values. -/
abbrev Given := List (String × List String)

namespace Given

def has (g : Given) (option : String) : Bool := g.any fun e => e.1 == option

/-- All values of an option. -/
def values (g : Given) (option : String) : List String :=
  (g.filter fun e => e.1 == option).flatMap (·.2)

def value? (g : Given) (option : String) : Option String := (g.values option).head?

/-- The value of an option that must be given. -/
def required (g : Given) (option : String) : Except UsageFault String :=
  match g.value? option with
  | some value => .ok value
  | none => .error (.missing option)

end Given

/-- The options read so far; the last one may still take values. -/
structure OptionReading where
  given : Given := []
  pending : Option (OptionForm × List String) := none

namespace OptionReading

/-- Enters an option with all its values. -/
def enter (r : OptionReading) (form : OptionForm) (values : List String) :
    Except UsageFault OptionReading :=
  let entered : OptionReading := { r with given := r.given ++ [(form.name, values)] }
  match form.arity with
  | .none =>
    if form.name = "help" then .error .help
    else if r.given.has form.name then .error (.repeated form.name)
    else .ok entered
  | .one admits =>
    if r.given.has form.name then .error (.repeated form.name)
    else match values with
      | [value] => if admits value then .ok entered else .error (.badValue form.name value)
      | _ => .error (.missingValue form.name)
  | .many => if values.isEmpty then .error (.missingValue form.name) else .ok entered

/-- Ends the option that is pending. -/
def settle (r : OptionReading) : Except UsageFault OptionReading :=
  match r.pending with
  | some (form, values) => { r with pending := none }.enter form values
  | none => .ok r

/-- Gives a value to the option that is pending, if there is one that takes it. -/
def take? (r : OptionReading) (value : String) : Option OptionReading :=
  match r.pending with
  | some (form, values) =>
    match form.arity, values with
    | .many, _ | .one _, [] => some { r with pending := some (form, values ++ [value]) }
    | _, _ => none
  | none => none

/-- Begins an option, with the value attached to it. -/
def begin (r : OptionReading) (form : OptionForm) (attached : Option String) :
    Except UsageFault OptionReading := do
  match form.arity, attached with
  | .none, none => (← r.settle).enter form []
  | .none, some _ => throw (.needlessValue form.name)
  | _, none => pure { (← r.settle) with pending := some (form, []) }
  | _, some value => (← r.settle).enter form [value]

end OptionReading

/-- Splits `name=value`. -/
def splitAttached (text : List Char) : String × Option String :=
  match text.dropWhile (· ≠ '=') with
  | _ :: value => (String.ofList (text.takeWhile (· ≠ '=')), some (String.ofList value))
  | [] => (String.ofList text, none)

/-- Reads an option by its name, the dashes taken off. -/
def readLong (forms : List OptionForm) (r : OptionReading) (text : List Char) :
    Except UsageFault OptionReading :=
  let (name, attached) := splitAttached text
  match forms.find? fun f => f.name == name with
  | some form => r.begin form attached
  | none => .error (.unknownOption ("--" ++ name))

/-- Reads options by their short names; what follows one that takes values is attached to it. -/
def readShort (forms : List OptionForm) (r : OptionReading) :
    List Char → Except UsageFault OptionReading
  | [] => .ok r
  | c :: rest =>
    match forms.find? fun f => f.short == some c with
    | none => .error (.unknownOption ("-" ++ String.ofList [c]))
    | some form =>
      match form.arity with
      | .none => do readShort forms (← r.begin form none) rest
      | _ =>
        match rest with
        | [] => r.begin form none
        | '=' :: value => r.begin form (some (String.ofList value))
        | value => r.begin form (some (String.ofList value))

/-- Reads options; returns those given and the arguments from the first one on that no option
takes. -/
def readOptions (forms : List OptionForm) (r : OptionReading) :
    List String → Except UsageFault (Given × List String)
  | [] => do pure ((← r.settle).given, [])
  | argument :: rest =>
    match argument.toList with
    | ['-', '-'] => do pure ((← r.settle).given, argument :: rest)
    | '-' :: '-' :: text => do readOptions forms (← readLong forms r text) rest
    | '-' :: c :: text => do readOptions forms (← readShort forms r (c :: text)) rest
    | _ =>
      match r.take? argument with
      | some r => readOptions forms r rest
      | none => do pure ((← r.settle).given, argument :: rest)

end CommandLine

end Typeforge
