/-
# `Typeforge.Run.Checks` — running tests

A test has no answer only if its calls are cut off.  Alternatives are tried in
order, and the first that settles the matter is the last that is tried.
-/
import Typeforge.Run.Program

namespace Typeforge

/-- What an access reads; what is not there is undefined. -/
def Access.read : Access → Value → Value
  | member name, v => v.member name
  | element i, v => v.element i

/-- Whether a value is a number that decimals can show. -/
def Value.isFiniteNumber : Value → Bool
  | number x => x.isFinite
  | _ => false

/-- Whether a value is an array of at most that length. -/
def Value.fits (n : Nat) (v : Value) : Bool :=
  match v.length? with
  | some length => decide (length ≤ n)
  | none => false

/-- Whether a test holds of all elements from an index on; nothing but an array has elements. -/
def Value.allFrom (test : Value → Option Bool) (start : Nat) : Value → Option Bool
  | array items => (items.drop start).allM test
  | _ => some false

/-- Whether a test holds of all members a filter covers; nothing but an object has members. -/
def Value.allCovered (test : Value → Option Bool) (covers : String → Bool) : Value → Option Bool
  | object members => (members.filter fun m => covers m.1).allM fun m => test m.2
  | _ => some false

namespace Check

mutual

/-- Runs a test on a value, calls by `call`. -/
def run (call : String → Value → Option Bool) : Check → Value → Option Bool
  | always, _ => some true
  | is kind, v => some (kind.holds v)
  | finiteNumber, v => some v.isFiniteNumber
  | equals literal, v => some (literal.accepts v)
  | anyOf literals, v => some (literals.any (·.accepts v))
  | maxLength n, v => some (v.fits n)
  | all checks, v => runAll call checks v
  | any checks, v => runAny call checks v
  | part access optional check, v =>
    if optional && (access.read v).isUndefined then some true
    else check.run call (access.read v)
  | each start check, v => v.allFrom (check.run call) start
  | eachKey filter skip check, v => v.allCovered (check.run call) (filter.covers skip)
  | .call identity, v => call identity v

def runAll (call : String → Value → Option Bool) : List Check → Value → Option Bool
  | [], _ => some true
  | c :: rest, v => do if ← c.run call v then runAll call rest v else some false

def runAny (call : String → Value → Option Bool) : List Check → Value → Option Bool
  | [], _ => some false
  | c :: rest, v => do if ← c.run call v then some true else runAny call rest v

end

end Check

namespace Program

/-- Runs the test of an identity, calls nested at most as deep as the bound. A function that is not
there holds of nothing. -/
def checkCall (p : Program) : Nat → String → Value → Option Bool
  | 0, _, _ => none
  | steps + 1, identity, v =>
    match p.body? ⟨identity, .isType⟩ with
    | some (.isType check) => check.run (checkCall p steps) v
    | _ => some false

/-- Runs a test on a value. -/
def check (p : Program) (c : Check) (v : Value) : Option Bool := c.run (p.checkCall (p.steps v)) v

/-- Whether a value has the type of a function. -/
def isType (p : Program) (identity : String) (v : Value) : Except Halt Bool :=
  match p.body? ⟨identity, .isType⟩ with
  | some (.isType check) =>
    match p.check check v with
    | some answer => .ok answer
    | none => .error .cutOff
  | _ => .error (.missing ⟨identity, .isType⟩)

theorem isType_of_check {p : Program} {identity : String} {c : Check} {v : Value} {answer : Bool}
    (hbody : p.body? ⟨identity, .isType⟩ = some (.isType c)) (h : p.check c v = some answer) :
    p.isType identity v = .ok answer := by
  simp only [isType, hbody, h]

end Program

end Typeforge
