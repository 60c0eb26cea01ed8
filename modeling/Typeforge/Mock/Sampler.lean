/-
# `Typeforge.Mock.Sampler` — mocks of a type, drawn one after the other

A sampler is built only for a type all of whose parts are data, those that may
be left out included, and that has a minimal instance.  Draws of one sampler
share a generator, so that a seed determines the whole sequence.

A promise is drawn as what it settles to, after a delay.
-/
import Typeforge.Mock.Walk

namespace Typeforge

namespace Mock

/-! ## Types of data -/

/-- The step from a node to its child number `i`, for diagnostics. -/
def dataStep (a : Arena) (n : Node) (i : Nat) (child : NodeId) : List PathSegment :=
  match n.shape with
  | .property name _ => [.key name]
  | .array _ | .indexSignature _ _ | .rest _ => [.loop 0]
  | .tuple _ => if (a.node child).shape.isRest then [] else [.index i]
  | _ => []

/-- Takes nodes off a stack of pending ones, each pushing those of its children that were never
pushed, until one is no data. The first argument bounds the number of nodes. -/
def checkDataFrom (a : Arena) :
    Nat → List NodeId → List (NodeId × List PathSegment) → Except CompileError Unit
  | 0, _, _ => .ok ()
  | _ + 1, _, [] => .ok ()
  | bound + 1, seen, (id, path) :: stack =>
    let n := a.node id
    match n.shape with
    | .function _ => .error (.functionNotData "mock" (pathText path))
    | .promise _ => .error (.promiseNotData "mock" (pathText path))
    | _ =>
      let (seen, stack) := n.children.zipIdx.foldl
        (fun (seen, stack) (child, i) =>
          if seen.contains child then (seen, stack)
          else (child :: seen, (child, path ++ dataStep a n i child) :: stack))
        (seen, stack)
      checkDataFrom a bound seen stack

/-- Fails unless every node that can be reached is data. -/
def checkData (a : Arena) (id : NodeId) : Except CompileError Unit :=
  checkDataFrom a (a.size + 1) [id] [(id, [])]

/-! ## Samplers -/

/-- The generator that the options start from. -/
def generator (o : MockOptions) : Generator := ⟨UInt64.ofNat (o.seed.getD 0)⟩

/-- What draws the mocks of a type. -/
structure Sampler where
  context : Context
  root : NodeId

namespace Sampler

/-- The options of a minimal draw. -/
def probe (o : MockOptions) : MockOptions := { o with seed := some 0, maxDepth := 0 }

/-- The sampler of a node. A minimal draw shows in advance whether every required part has
instances and is data. -/
def build (a : Arena) (id : NodeId) (o : MockOptions) : Except CompileError Sampler := do
  checkData a id
  let _ ← ((draw ⟨a, probe o⟩ {} id).run (generator (probe o))).1
  pure ⟨⟨a, o⟩, id⟩

/-- The sampler of what a promise resolves to, or of a type that is no promise. -/
def buildResolved (a : Arena) (id : NodeId) (o : MockOptions) : Except CompileError Sampler :=
  match (a.node id).shape with
  | .promise child => build a child o
  | _ => build a id o

def identity (s : Sampler) : String := (s.context.arena.node s.root).identity

/-- The next mock. -/
def next (s : Sampler) : Draw Value := draw s.context {} s.root

/-- So many mocks. -/
def sample (s : Sampler) (count : Nat) : Draw (List Value) :=
  (List.replicate count ()).mapM fun _ => s.next

end Sampler

/-! ## Promises -/

/-- What a promise settles to. -/
inductive Outcome where
  | resolved (v : Value)
  | rejected (reason : Value)

structure Settled where
  delayMs : Nat
  outcome : Outcome

/-- The reason of a rejection. -/
def rejection : Value :=
  .object [("name", .string "Error"), ("message", .string "mock rejection")]

/-- The next promise: whether it is rejected is drawn first. -/
def Sampler.nextPromise (s : Sampler) : Draw Settled := do
  let f ← Random.fraction
  let delayMs := s.context.options.promiseDelayMs
  if f < s.context.options.promiseRejectProbability then pure ⟨delayMs, .rejected rejection⟩
  else do
    let v ← s.next
    pure ⟨delayMs, .resolved v⟩

end Mock

end Typeforge
