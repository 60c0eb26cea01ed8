/-
# `Typeforge.Compile.Site` — where a compiling walk stands

A build compiles one node of an arena, and walks over the nodes below it.  What
the whole build rests on is its `Setting`; where the walk stands is a `Site`:
the path from the value of the function under construction, the loops entered
on it, and the functions that are being defined around it.

Paths start anew in each function, and so do the numbers of loops.  Only
diagnostics show the whole path from the value the build is for.
-/
import Typeforge.Arena.Basic
import Typeforge.Code.Path
import Typeforge.Compile.Error

namespace Typeforge

/-- What a build rests on and does not change. -/
structure Setting where
  arena : Arena
  /-- The answers of the registry by the number of the question: whether it has a function. Others
  may register functions while a build runs, so that a later answer may differ. -/
  registered : Nat → FunctionKey → Bool
  /-- Whether a class has a reviver. -/
  revives : String → Bool
  /-- Whether shared types get functions of their own. -/
  shareNamed : Bool
  /-- How deep the walk may go. -/
  maxDepth : Nat

namespace Setting

/-- Whether a node below the entry is compiled into a function of its own, which is then called:
a circular one always, and a shared one if the setting says so. -/
def ownFunction (s : Setting) (n : Node) : Bool :=
  n.hasBody && (n.isCircular || s.shareNamed && n.isShared)

end Setting

/-- Where a walk stands. -/
structure Site where
  /-- The path to the value of the function under construction. -/
  outer : List PathSegment := []
  /-- The path from there. -/
  path : List PathSegment := []
  /-- The number of loops on that path. -/
  loops : Nat := 0
  /-- The functions under construction. -/
  defining : List FunctionKey := []

namespace Site

/-- One part deeper. -/
def part (site : Site) (access : Access) : Site :=
  { site with path := site.path ++ [access.segment] }

/-- Inside a loop over elements or keys. Loops are numbered from the outermost one of the function;
from the 256th on they share the last number. -/
def loop (site : Site) : Site :=
  { site with path := site.path ++ [.loop (min site.loops 255)], loops := site.loops + 1 }

/-- At the value of a function whose construction begins here. -/
def enter (site : Site) (key : FunctionKey) : Site :=
  { outer := site.outer ++ site.path, defining := key :: site.defining }

/-- The whole path, for diagnostics. -/
def text (site : Site) : String := pathText (site.outer ++ site.path)

end Site

end Typeforge
