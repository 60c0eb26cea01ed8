/-
# `Typeforge.Compile.Error` — why a type cannot be compiled

All of these are found when a type is loaded, a function is built or a mock is
drawn; a compiled function never raises one.  Paths are those of the value
the type describes, `$` for the value itself.
-/
import Typeforge.Graph.TypeId

namespace Typeforge

inductive CompileError where
  | never (activity path : String)
  | functionNotData (activity path : String)
  | promiseNotData (activity path : String)
  | conflictingIndexSignatures (path : String)
  | unresolvedIntersection (id : TypeId)
  | unregisteredClass (name : String)
  | danglingType (id : TypeId)
  | unexpectedKind (id : TypeId) (found expected : String)
  | maxDepth (limit : Nat) (path : String)
  | notAFunction (identity : String)
  | skipTooLarge (skip params : Nat)
  | unknownRoot (name : String)
  | uninhabited (path : String)
  | missingFunction (key : String)
deriving Repr, DecidableEq

namespace CompileError

/-- The name by which callers tell the errors apart. -/
def name : CompileError → String
  | .never .. => "Never"
  | .functionNotData .. => "FunctionNotData"
  | .promiseNotData .. => "PromiseNotData"
  | .conflictingIndexSignatures .. => "ConflictingIndexSignatures"
  | .unresolvedIntersection .. => "UnresolvedIntersection"
  | .unregisteredClass .. => "UnregisteredClass"
  | .danglingType .. => "DanglingType"
  | .unexpectedKind .. => "UnexpectedKind"
  | .maxDepth .. => "MaxDepth"
  | .notAFunction .. => "NotAFunction"
  | .skipTooLarge .. => "SkipTooLarge"
  | .unknownRoot .. => "UnknownRoot"
  | .uninhabited .. => "Uninhabited"
  | .missingFunction .. => "MissingFunction"

def message : CompileError → String
  | never activity path => "`never` cannot be compiled into " ++ activity ++ " (at " ++ path ++ ")"
  | functionNotData activity path =>
    "function type at " ++ path ++ " is not data and cannot be compiled into " ++ activity
  | promiseNotData activity path =>
    "promise type at " ++ path ++ " must be awaited before it can be compiled into " ++ activity
  | conflictingIndexSignatures path =>
    "object shape at " ++ path ++ " declares index signatures with different value types"
  | unresolvedIntersection id =>
    "intersection type " ++ id.text ++ " must be resolved before it reaches the engine"
  | unregisteredClass name => "class `" ++ name ++ "` is not registered for JSON decoding"
  | danglingType id => "type id " ++ id.text ++ " does not exist in the type graph"
  | unexpectedKind id found expected =>
    "type " ++ id.text ++ " has kind `" ++ found ++ "` where " ++ expected ++ " was expected"
  | maxDepth limit path => s!"maximum nesting depth {limit} exceeded at " ++ path
  | notAFunction identity => "type `" ++ identity ++ "` is not a function type"
  | skipTooLarge skip params => s!"cannot skip {skip} parameters of a function with {params}"
  | unknownRoot name => "no root named `" ++ name ++ "` in the type graph"
  | uninhabited path => "recursive type at " ++ path ++ " has no finite instance to mock"
  | missingFunction key => "no compiled function `" ++ key ++ "` is registered"

end CompileError

end Typeforge
