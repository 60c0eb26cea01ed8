/-
# `Typeforge.Signature` — function signatures

A function is no data, but its arguments and its result are.  A signature has
the functions of each parameter and of the result, for callers that leave out
some leading parameters: arguments are counted from the first parameter that is
left in.

An argument list must have as many arguments as the last required parameter
asks for, and no more than there are parameters, unless the last one takes all
the rest.  An undefined argument for an optional parameter counts as left out.
-/
import Typeforge.Engine
import Typeforge.Mock.Arguments
import Typeforge.Mock.Sampler

namespace Typeforge

/-- A parameter of a signature. -/
structure Parameter where
  name : String
  /-- Counted from the first parameter left in. -/
  position : Nat
  optional : Bool
  /-- Takes all remaining arguments; the functions are those of one of them. -/
  rest : Bool
  functions : TypeFunctions

structure Signature where
  arena : Arena
  shape : FunctionShape
  /-- How many leading parameters are left out. -/
  skip : Nat
  params : List Parameter
  result : TypeFunctions
  /-- Draws results; of a promise, what it resolves to. -/
  resultSampler : Mock.Sampler
  returnsPromise : Bool
  options : MockOptions

/-- Why arguments cannot be carried over. -/
inductive ArgumentError where
  | count (min : Nat) (max : Option Nat) (found : Nat)
  | halted (h : Halt)

/-- The arity in a message. -/
def arityText (min : Nat) : Option Nat → String
  | some max => if max = min then s!"{min}" else s!"{min} to {max}"
  | none => s!"at least {min}"

/-- The message about a wrong number of arguments. -/
def argumentCountMessage (min : Nat) (max : Option Nat) (found : Nat) : String :=
  "expected " ++ arityText min max ++ s!" arguments, got {found}"

namespace Signature

/-! ## Building -/

/-- Builds the parameters at nodes, counted from `position`. -/
def buildParams (e : Engine) (a : Arena) : Nat → List NodeId → Registering (List Parameter)
  | _, [] => pure []
  | position, id :: others => do
    let n := a.node id
    match n.shape with
    | .parameter name child rest => do
      let functions ← e.buildAll a child
      let more ← buildParams e a (position + 1) others
      pure ({ name, position, optional := n.optional, rest, functions } :: more)
    | shape => throw (.unexpectedKind n.source shape.name "parameter")

/-- The node of what a function returns, or what the promise it returns resolves to. -/
def resultNode (a : Arena) (f : FunctionShape) : NodeId × Bool :=
  match (a.node f.result).shape with
  | .promise child => (child, true)
  | _ => (f.result, false)

/-- Builds the signature of an arena's root, some leading parameters left out. -/
def build (e : Engine) (a : Arena) (skip : Nat) : Registering Signature := do
  match a.rootNode.shape with
  | .function shape => do
    if shape.params.length < skip then throw (.skipTooLarge skip shape.params.length)
    let params ← buildParams e a 0 (shape.params.drop skip)
    let (result, returnsPromise) := resultNode a shape
    let functions ← e.buildAll a result
    match Mock.Sampler.buildResolved a result e.config.mock with
    | .error error => throw error
    | .ok resultSampler =>
      pure { arena := a, shape, skip, params, result := functions, resultSampler, returnsPromise,
             options := e.config.mock }
  | _ => throw (.notAFunction a.rootNode.identity)

/-! ## Arity -/

/-- How many arguments the last required parameter asks for. -/
def minArgsOf : List Parameter → Nat
  | [] => 0
  | p :: others =>
    match minArgsOf others with
    | 0 => if p.optional || p.rest then 0 else 1
    | n + 1 => n + 2

def minArgs (s : Signature) : Nat := minArgsOf s.params

/-- The greatest number of arguments; none when the last parameter takes all the rest. -/
def maxArgs (s : Signature) : Option Nat :=
  match s.params.getLast? with
  | some p => if p.rest then none else some s.params.length
  | none => some 0

/-- Fails for a wrong number of arguments. -/
def checkCount (s : Signature) (found : Nat) : Except ArgumentError Unit :=
  let tooMany := match s.maxArgs with
    | some max => decide (max < found)
    | none => false
  if found < s.minArgs || tooMany then .error (.count s.minArgs s.maxArgs found) else .ok ()

/-! ## Arguments -/

/-- The parameter that takes an argument. -/
def parameterAt (s : Signature) (i : Nat) : Option Parameter :=
  match s.params[i]? with
  | some p => some p
  | none => s.params.getLast?.filter (·.rest)

/-- The parameter whose functions an argument goes through; none for one that counts as left
out. -/
def bound (s : Signature) (i : Nat) (arg : Value) : Option Parameter :=
  (s.parameterAt i).filter fun p => !(p.optional && !p.rest && arg.isUndefined)

/-- The arguments that are not left out, with their places and parameters. -/
def bind (s : Signature) (args : List Value) :
    Except ArgumentError (List (Nat × Parameter × Value)) := do
  s.checkCount args.length
  pure (args.zipIdx.filterMap fun (arg, i) => (s.bound i arg).map fun p => (i, p, arg))

/-- Whether all arguments have the types of their parameters. -/
def paramsIsType (s : Signature) (r : Registry) (args : List Value) :
    Except ArgumentError Bool := do
  let bound ← s.bind args
  pure (bound.all fun (_, p, v) => p.functions.isType.isType r v)

/-- Where arguments fail the types of their parameters; a path starts with the place of the
argument. -/
def paramsTypeErrors (s : Signature) (r : Registry) (args : List Value) :
    Except ArgumentError (List ValidationError) := do
  let bound ← s.bind args
  pure (bound.flatMap fun (i, p, v) => p.functions.typeErrors.typeErrors r v [.index i])

/-- A run's answer, its failure being the arguments' failure. -/
def liftRun {α : Type} : Except Halt α → Except ArgumentError α
  | .ok a => .ok a
  | .error h => .error (.halted h)

/-- The document that carries an argument; null for one that is left out. -/
def encodeArgument (s : Signature) (r : Registry) (i : Nat) (arg : Value) : Except Halt Json :=
  match s.bound i arg with
  | some p => p.functions.jsonEncode.encode r arg
  | none => pure .null

/-- The documents that carry arguments. -/
def paramsEncode (s : Signature) (r : Registry) (args : List Value) :
    Except ArgumentError (List Json) := do
  s.checkCount args.length
  args.zipIdx.mapM fun (arg, i) => liftRun (s.encodeArgument r i arg)

/-- The argument that a document carries. -/
def decodeArgument (s : Signature) (r : Registry) (i : Nat) (j : Json) : Except Halt Value :=
  match s.parameterAt i with
  | some p =>
    match j with
    | .null =>
      if p.optional && !p.rest then pure .undefined else p.functions.jsonDecode.decode r .null
    | j => p.functions.jsonDecode.decode r j
  | none => pure (.ofJson j)

/-- The arguments that documents carry. -/
def paramsDecode (s : Signature) (r : Registry) (documents : List Json) :
    Except ArgumentError (List Value) := do
  s.checkCount documents.length
  documents.zipIdx.mapM fun (j, i) => liftRun (s.decodeArgument r i j)

/-- The JSON text of an argument list. -/
def paramsStringify (s : Signature) (r : Registry) (args : List Value) :
    Except ArgumentError String := do
  s.checkCount args.length
  let texts ← args.zipIdx.mapM fun (arg, i) =>
    match s.bound i arg with
    | some p => liftRun (p.functions.jsonStringify.stringify r arg)
    | none => pure "null"
  pure ("[" ++ ",".intercalate texts ++ "]")

/-- Draws an argument list. -/
def paramsMock (s : Signature) : Mock.Draw (List Value) :=
  Mock.drawArguments ⟨s.arena, s.options⟩ s.skip (s.shape.params.drop s.skip)

end Signature

end Typeforge
