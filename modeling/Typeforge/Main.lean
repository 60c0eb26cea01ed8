/-
# `Typeforge.Main` — the program on a real disk

Everything is decided by `CommandLine.run` and `Sweep.run`; this module gives
them the files of the disk and prints what they leave behind.
-/
import Typeforge.CommandLine.Run
import Typeforge.Sweep.Run

namespace Typeforge

namespace Disk

/-- What an action comes to, its failure as a text. -/
def attempt {α : Type} (action : IO α) : IO (Except String α) := do
  try pure (.ok (← action))
  catch e => pure (.error (toString e))

/-- The tree at an entry of a directory, so many levels deep. -/
def treeBelow : Nat → IO.FS.DirEntry → IO Tree
  | levels, entry => do
    if ← entry.path.isDir then
      match levels with
      | 0 => pure (.directory [])
      | levels + 1 =>
        let found ← entry.path.readDir
        let sorted := found.toList.mergeSort fun a b => decide (a.fileName ≤ b.fileName)
        pure (.directory (← sorted.mapM fun e => do pure (e.fileName, ← treeBelow levels e)))
    else pure .file

/-- How deep a tree is followed when all of it is asked for. -/
def deepest : Nat := 256

def tree (path : String) (levels : Option Nat) : IO (Option Tree) := do
  let entry : IO.FS.DirEntry := ⟨if path.startsWith "/" then "/" else ".", path⟩
  if ← entry.path.pathExists then
    match ← attempt (treeBelow (levels.getD deepest) entry) with
    | .ok t => pure (some t)
    | .error _ => pure none
  else pure none

/-- The directory that a path stands in. -/
def parent (path : String) : String := "/".intercalate (path.splitOn "/").dropLast

def write (path text : String) : IO Unit := do
  if parent path ≠ "" then IO.FS.createDirAll (parent path)
  IO.FS.writeFile path text

/-- Access to the files of the disk. -/
def files : Files IO where
  read path := attempt (IO.FS.readFile path)
  write path text := attempt (write path text)
  tree := tree

/-- A seed that differs from run to run. -/
def freshSeed : IO Nat := do
  let bytes ← IO.getRandomBytes 8
  pure (bytes.toList.foldl (fun n b => 256 * n + b.toNat) 0)

end Disk

def program : List String → IO Outcome
  | "sweep" :: rest => Sweep.run Disk.files rest
  | arguments => do CommandLine.run Disk.files (← Disk.freshSeed) arguments

end Typeforge

def main (arguments : List String) : IO UInt32 := do
  let o ← Typeforge.program arguments
  IO.print o.stdout
  IO.eprint o.stderr
  pure (UInt32.ofNat o.code)
