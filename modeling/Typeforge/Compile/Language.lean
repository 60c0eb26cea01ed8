/-
# `Typeforge.Compile.Language` — what the five targets share

Each target has a language of code, and one walk serves them all.  A visit
first asks whether the node needs no code of its own; then, unless the walk
has gone too deep, it compiles the node in place, or gives it a function and
calls that.  A function is defined once: one that is under construction, was
defined in this build or was registered before is only called.
-/
import Typeforge.Compile.Site

namespace Typeforge

/-- How far a build has come: the functions it has defined, and how often it has asked the
registry. -/
structure BuildState where
  defined : List Function := []
  questions : Nat := 0

/-- Compiling: it gathers the functions defined on the way, and may fail. -/
abbrev Build := StateT BuildState (Except CompileError)

/-- A language of code for one target. -/
structure Language (Code : Type) where
  target : Target
  /-- The code of a node that need not be visited at all. -/
  plain? : Node → Option Code
  /-- A call of the function of an identity, on a path. -/
  call : String → List PathSegment → Code
  toBody : Code → Body

/-- How a language compiles a node at a site. -/
abbrev Compiler (Code : Type) := Site → Node → Build Code

namespace Language

variable {Code : Type}

/-- The key of a node's function in the language. -/
def key (L : Language Code) (n : Node) : FunctionKey := ⟨n.identity, L.target⟩

/-- Whether a function is under construction or defined. The registry is asked only about one that
this build does not have. -/
def isDefined (s : Setting) (site : Site) (key : FunctionKey) : Build Bool := do
  let b ← get
  if site.defining.contains key || b.defined.any (·.key == key) then pure true
  else do
    set { b with questions := b.questions + 1 }
    pure (s.registered b.questions key)

/-- Adds a function to those defined. -/
def addFunction (f : Function) : Build Unit :=
  modify fun b => { b with defined := b.defined ++ [f] }

/-- Defines the function of a node, if that is still to be done. -/
def define (L : Language Code) (s : Setting) (compile : Compiler Code) (site : Site) (n : Node) :
    Build Unit := do
  unless ← isDefined s site (L.key n) do
    let code ← match L.plain? n with
      | some code => pure code
      | none => compile (site.enter (L.key n)) n
    addFunction (Function.ofBody n.identity (L.toBody code))

/-- Compiles a node the walk has come to. -/
def compileAt (L : Language Code) (s : Setting) (compile : Compiler Code) (site : Site) (n : Node) :
    Build Code :=
  if s.ownFunction n then do
    L.define s compile site n
    pure (L.call n.identity site.path)
  else compile site n

/-- Visits a node; without a compiler the walk has gone as deep as it may. -/
def visit (L : Language Code) (s : Setting) (compile : Option (Compiler Code)) (site : Site)
    (id : NodeId) : Build Code :=
  match L.plain? (s.arena.node id), compile with
  | some code, _ => pure code
  | none, some compile => L.compileAt s compile site (s.arena.node id)
  | none, none => throw (.maxDepth s.maxDepth site.text)

end Language

namespace Site

variable {Code : Type}

/-! ## Nodes that no language can say -/

def never (site : Site) (target : Target) : Build Code := throw (.never target.name site.text)

def functionNotData (site : Site) (target : Target) : Build Code :=
  throw (.functionNotData target.name site.text)

def promiseNotData (site : Site) (target : Target) : Build Code :=
  throw (.promiseNotData target.name site.text)

end Site

end Typeforge
