/-
# `Typeforge.Compile.Entry` — compiling the function of a node

An entry always gets a function of its own.  The walk below it may go one level
less deep than the setting allows: the entry is the first level.
-/
import Typeforge.Compile.Emits

namespace Typeforge

namespace Compile

/-- Defines the function of a node for a target. -/
def defineEntry (s : Setting) (n : Node) : Target → Build Unit
  | .isType => checks.define s (checkNode s.arena (checkAt s depth)) {} n
  | .typeErrors =>
    reports.define s (reportNode s.arena (checkAt s depth) (reportAt s depth)) {} n
  | .jsonEncode =>
    encoders.define s (encodeNode s.arena (checkAt s depth) (encodeAt s depth)) {} n
  | .jsonDecode => decoders.define s (decodeNode s (decodeAt s depth)) {} n
  | .jsonStringify =>
    emitters.define s (emitNode s.arena (checkAt s depth) (emitAt s depth)) {} n
where
  depth : Nat := s.maxDepth - 1

/-- Before decoding, every class that can be met must have a reviver, those inside functions
compiled earlier included. -/
def checkRevivers (s : Setting) (id : NodeId) : Except CompileError Unit :=
  match (s.arena.classNames id).find? (fun name => !s.revives name) with
  | some name => .error (.unregisteredClass name)
  | none => .ok ()

/-- The functions that the function of a node needs and that are not registered yet, its own
last; callees stand before their callers where there is no cycle. -/
def functions (s : Setting) (id : NodeId) (target : Target) :
    Except CompileError (List Function) := do
  if target = .jsonDecode then checkRevivers s id
  let (_, b) ← (defineEntry s (s.arena.node id) target).run {}
  pure b.defined

end Compile

end Typeforge
