/-
# `Typeforge.Run.Program` — what compiled code runs in

Code calls functions by identity and revives instances by class name.  A
program holds what these names stand for.  Running a function on a value calls
others on parts of the value; the number of calls inside one another is bounded
in advance, by the depth of the value and the number of functions, with room
for what the run itself adds to the value, and a run that exceeds the bound
ends without an answer.
-/
import Typeforge.Code.Basic
import Typeforge.Run.Error

namespace Typeforge

/-- What makes an instance of a class from its decoded members. -/
abbrev Reviver := Value → Value

/-- The revivers by the names of their classes. -/
abbrev Revivers := Members Reviver

/-- Functions and revivers that code can name. Of two functions with one key the first counts. -/
structure Program where
  functions : List Function
  revivers : Revivers

namespace Program

/-- The body of the function with a key. -/
def body? (p : Program) (key : FunctionKey) : Option Body :=
  (p.functions.find? (·.key == key)).map (·.body)

/-- How many calls a run may owe to the levels that tags and revivers add to its value. -/
def growth : Nat := 10000

/-- How many calls inside one another a run on a value may make. A run that comes back to a
function on the same value would not end, so every further round takes a part of the value, or of
what tags and revivers have made of it. -/
def steps (p : Program) (v : Value) : Nat := (v.depth + 2) * (p.functions.length + 1) + growth

end Program

/-- Why a run has no answer: it failed, or it was cut off. -/
inductive Halt where
  | failed (e : RunError)
  | cutOff

def Halt.message : Halt → String
  | .failed e => e.message
  | .cutOff => "the run does not end"

/-- The failure of a call to a function that is not there. -/
def Halt.missing (key : FunctionKey) : Halt := .failed (.missingFunction key.text)

end Typeforge
