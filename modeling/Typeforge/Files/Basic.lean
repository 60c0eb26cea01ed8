/-
# `Typeforge.Files.Basic` — access to files

The commands read and write files, and list directories, through an interface,
so that they run on a real disk as well as on files held in memory.  A failure
is told by its text.
-/

namespace Typeforge

/-- A directory tree without the contents of its files; entries in the order of their names. -/
inductive Tree where
  | file
  | directory (entries : List (String × Tree))

namespace Tree

def isDirectory : Tree → Bool
  | directory _ => true
  | file => false

def entries : Tree → List (String × Tree)
  | directory entries => entries
  | file => []

/-- The entry of a name. -/
def entry? (name : String) (t : Tree) : Option Tree :=
  (t.entries.find? fun e => e.1 == name).map (·.2)

end Tree

/-- The files that a program can reach. -/
structure Files (m : Type → Type) where
  /-- The text of a file. -/
  read : String → m (Except String String)
  /-- Writes a file, and makes the directories that it stands in. -/
  write : String → String → m (Except String Unit)
  /-- What stands at a path, with the tree below it so many levels deep, or the whole of it. -/
  tree : String → Option Nat → m (Option Tree)

end Typeforge
