/-
# `Typeforge.Engine` — building functions into a registry

An engine has settings, the revivers of the classes it knows and the entries it
has compiled or restored by name.  What it builds goes into a registry, which
it may share with others; a build that fails leaves there what was built before.
-/
import Typeforge.Arena.Lower
import Typeforge.Compile.Entry
import Typeforge.Config
import Typeforge.Handle
import Typeforge.Snapshot

namespace Typeforge

structure Engine where
  config : EngineConfig := {}
  revivers : Revivers := []
  /-- Which identity each entry name stands for. -/
  entries : Members String := []

/-- Building: the registry outlives a failure. -/
abbrev Registering := ExceptT CompileError (StateM Registry)

namespace Engine

/-- Registers the reviver of a class, in the place of an earlier one. -/
def registerClass (e : Engine) (name : String) (reviver : Reviver) : Engine :=
  { e with revivers := Members.put name reviver e.revivers }

/-! ## Loading -/

/-- The arena of a type, once the whole graph is found to be in order. -/
def load (e : Engine) (g : TypeGraph) (root : TypeId) : Except CompileError Arena := do
  g.validate
  Arena.lower g root e.config.maxDepth

/-- The arena of a named root. -/
def loadNamed (e : Engine) (g : TypeGraph) (name : String) : Except CompileError Arena := do
  e.load g (← g.root name)

/-! ## Building -/

/-- What a build rests on when nothing else is built into its registry meanwhile. -/
def setting (e : Engine) (r : Registry) (a : Arena) : Setting where
  arena := a
  registered _ := r.contains
  revives name := Members.has name e.revivers
  shareNamed := e.config.shareNamedTypes
  maxDepth := e.config.maxDepth

/-- Builds the function of a node for a target. -/
def build (e : Engine) (a : Arena) (id : NodeId) (target : Target) : Registering Handle := do
  let r ← get
  match Compile.functions (e.setting r a) id target with
  | .ok functions => do
    set (r.defineAll functions)
    pure ⟨⟨(a.node id).identity, target⟩, e.revivers⟩
  | .error error => throw error

/-- Builds the functions of a node for all targets, in their order. -/
def buildAll (e : Engine) (a : Arena) (id : NodeId) : Registering TypeFunctions := do
  let isType ← e.build a id .isType
  let typeErrors ← e.build a id .typeErrors
  let jsonEncode ← e.build a id .jsonEncode
  let jsonDecode ← e.build a id .jsonDecode
  let jsonStringify ← e.build a id .jsonStringify
  pure { isType, typeErrors, jsonEncode, jsonDecode, jsonStringify }

/-- Builds all functions of the root, and enters them under a name. -/
def compileAll (e : Engine) (name : String) (a : Arena) : Registering (Engine × TypeFunctions) := do
  let functions ← e.buildAll a a.root
  pure ({ e with entries := Members.put name functions.identity e.entries }, functions)

/-! ## Storing -/

def snapshot (e : Engine) (r : Registry) : Snapshot := .ofRegistry r e.entries

/-- Takes up the entries of a snapshot, and registers its functions. -/
def restore (e : Engine) (s : Snapshot) : StateM Registry Engine := do
  modify fun r => r.defineAll s.functions
  pure { e with entries := Members.putAll e.entries s.entries }

/-- The functions of an identity, all of which must be registered. -/
def restoredById (e : Engine) (r : Registry) (identity : String) :
    Except CompileError TypeFunctions :=
  match (Target.all.map (FunctionKey.mk identity)).find? (fun key => !r.contains key) with
  | some key => .error (.missingFunction key.text)
  | none => .ok (.ofIdentity identity e.revivers)

/-- The functions of an entry. -/
def restored (e : Engine) (r : Registry) (name : String) : Except CompileError TypeFunctions :=
  match Members.get? name e.entries with
  | some identity => e.restoredById r identity
  | none => .error (.unknownRoot name)

end Engine

end Typeforge
