/-
# `Typeforge.CommandLine.Outcome` — what a run of a program leaves behind
-/

namespace Typeforge

/-- The exit code of a program and what it printed. -/
structure Outcome where
  code : Nat
  stdout : String := ""
  stderr : String := ""
deriving Repr, DecidableEq

end Typeforge
