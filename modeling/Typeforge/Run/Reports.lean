/-
# `Typeforge.Run.Reports` — running error reports

A run gathers errors in the order in which the statements find them.  The path
of an error starts with the caller's path; a loop step takes the key or index
that the loop with its number stands at.
-/
import Typeforge.Code.Path
import Typeforge.Run.Checks

namespace Typeforge

/-- Where a function's paths start, and where its loops stand, the outermost first. -/
structure Trail where
  base : List PathItem := []
  loops : List PathItem := []

namespace Trail

def item (t : Trail) : PathSegment → PathItem
  | .key name => .key name
  | .index i => .index i
  | .loop depth => t.loops.getD depth (.index 0)

/-- The path that the segments stand for. -/
def resolve (t : Trail) (path : List PathSegment) : List PathItem := t.base ++ path.map t.item

/-- Inside one more loop. -/
def inside (t : Trail) (step : PathItem) : Trail := { t with loops := t.loops ++ [step] }

end Trail

/-- What a report rests on. -/
structure Report.Context where
  check : Check → Value → Option Bool
  /-- Runs the report of an identity, its paths from the given one. -/
  call : String → List PathItem → Value → Except Halt (List ValidationError)

/-- The errors of all items, in order. -/
def gather {α : Type} (errors : α → Except Halt (List ValidationError)) :
    List α → Except Halt (List ValidationError)
  | [] => .ok []
  | x :: rest => do
    let first ← errors x
    let others ← gather errors rest
    pure (first ++ others)

/-- The elements of an array from an index on, each with its step. -/
def Value.stepsFrom (start : Nat) : Value → List (PathItem × Value)
  | array items => (items.zipIdx.drop start).map fun (v, i) => (.index i, v)
  | _ => []

/-- The members of an object that a filter covers, each with its step. -/
def Value.stepsCovered (covers : String → Bool) : Value → List (PathItem × Value)
  | object members => (members.filter fun m => covers m.1).map fun (k, v) => (.key k, v)
  | _ => []

namespace Report

mutual

/-- The errors that a statement finds in a value. -/
def run (x : Context) : Report → Trail → Value → Except Halt (List ValidationError)
  | expect check path expected after, trail, v =>
    match x.check check v with
    | none => .error .cutOff
    | some true => runAll x after trail v
    | some false => .ok [⟨trail.resolve path, expected⟩]
  | part access optional body, trail, v =>
    if optional && (access.read v).isUndefined then .ok []
    else runAll x body trail (access.read v)
  | each start body, trail, v =>
    gather (fun (step, w) => runAll x body (trail.inside step) w) (v.stepsFrom start)
  | eachKey filter skip body, trail, v =>
    gather (fun (step, w) => runAll x body (trail.inside step) w)
      (v.stepsCovered (filter.covers skip))
  | call identity path, trail, v => x.call identity (trail.resolve path) v

/-- The errors that statements find in a value, one statement after the other. -/
def runAll (x : Context) : List Report → Trail → Value → Except Halt (List ValidationError)
  | [], _, _ => .ok []
  | r :: rest, trail, v => do
    let first ← r.run x trail v
    let others ← runAll x rest trail v
    pure (first ++ others)

end

end Report

namespace Program

/-- Runs the report of an identity, calls nested at most as deep as the bound. -/
def reportCall (p : Program) :
    Nat → String → List PathItem → Value → Except Halt (List ValidationError)
  | 0, _, _, _ => .error .cutOff
  | steps + 1, identity, base, v =>
    match p.body? ⟨identity, .typeErrors⟩ with
    | some (.typeErrors body) => Report.runAll ⟨p.check, reportCall p steps⟩ body { base } v
    | _ => .error (.missing ⟨identity, .typeErrors⟩)

/-- Where a value fails the type of a function. -/
def typeErrors (p : Program) (identity : String) (v : Value) :
    Except Halt (List ValidationError) :=
  p.reportCall (p.steps v) identity [] v

end Program

end Typeforge
