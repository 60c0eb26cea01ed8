/-
# `Typeforge.Files.Memory` — files held in memory

A current directory as a table of texts by path.  It answers as a disk would, so
that what the commands do can be shown without one.
-/
import Typeforge.Files.Basic
import Typeforge.Members

namespace Typeforge

/-- The files of a directory, each at its place: the names on the way from there. -/
abbrev Memory := List (List String × String)

namespace Memory

/-- Why there is no text at a path. -/
inductive Fault where
  | missing
  | notDirectory
  | isDirectory

def Fault.message : Fault → String
  | missing => "No such file or directory (os error 2)"
  | notDirectory => "Not a directory (os error 20)"
  | isDirectory => "Is a directory (os error 21)"

/-! ## Places -/

/-- Whether a place is a directory: files stand below it. -/
def hasDirectory (m : Memory) (place : List String) : Bool :=
  place.isEmpty || m.any fun f => place.isPrefixOf f.1 && place.length < f.1.length

/-- Whether a file stands where a directory would have to be. -/
def blocked (m : Memory) (place : List String) : Bool :=
  m.any fun f => f.1.isPrefixOf place && f.1.length < place.length

/-- The text of the file at a place. -/
def text? (m : Memory) (place : List String) : Option String :=
  (m.find? fun f => f.1 == place).map (·.2)

/-- Walks the parts of a path from a place on. Empty parts and dots stand for a directory itself,
two dots for the one above it; there is none above the current one. -/
def walk? (isDirectory : List String → Bool) : List String → List String → Option (List String)
  | place, [] => some place
  | place, part :: rest =>
    if part = "" ∨ part = "." then
      if isDirectory place then walk? isDirectory place rest else none
    else if part = ".." then
      if isDirectory place ∧ place ≠ [] then walk? isDirectory place.dropLast rest else none
    else walk? isDirectory (place ++ [part]) rest

/-- The place of a path; paths from the root have none. -/
def place? (isDirectory : List String → Bool) (path : String) : Option (List String) :=
  if path.startsWith "/" then none else walk? isDirectory [] (path.splitOn "/")

def ofList (files : List (String × String)) : Memory :=
  files.filterMap fun f => (place? (fun _ => true) f.1).map fun place => (place, f.2)

/-! ## Reading and writing -/

def read? (m : Memory) (path : String) : Except Fault String :=
  match place? m.hasDirectory path with
  | none => .error .missing
  | some place =>
    match m.text? place with
    | some text => .ok text
    | none => .error (if m.hasDirectory place then .isDirectory else .missing)

/-- Writes a file; directories that are missing on the way to it are made. -/
def write? (m : Memory) (path text : String) : Except Fault Memory :=
  match place? (fun _ => true) path with
  | none => .error .missing
  | some place =>
    if m.blocked place then .error .notDirectory
    else if m.hasDirectory place || path.endsWith "/" then .error .isDirectory
    else .ok ((place, text) :: m.filter fun f => f.1 != place)

/-! ## The tree -/

/-- Enters a tree under a name among entries in the order of their names. -/
def insertEntry (name : String) (t : Tree) : List (String × Tree) → List (String × Tree)
  | [] => [(name, t)]
  | (other, u) :: rest =>
    if name = other then (name, t) :: rest
    else if name < other then (name, t) :: (other, u) :: rest
    else (other, u) :: insertEntry name t rest

/-- Adds a file to the entries of a directory. -/
def insertFile : List String → List (String × Tree) → List (String × Tree)
  | [], entries => entries
  | [name], entries => insertEntry name .file entries
  | name :: rest, entries =>
    let below := match Members.get? name entries with
      | some t => t.entries
      | none => []
    insertEntry name (.directory (insertFile rest below)) entries

/-- The tree of all files. -/
def root (m : Memory) : Tree := .directory (m.foldl (fun entries f => insertFile f.1 entries) [])

/-- What stands at a path. -/
def tree? (m : Memory) (path : String) : Option Tree := do
  let place ← place? m.hasDirectory path
  place.foldlM (fun t name => t.entry? name) m.root

/-- Access to the files held in memory. -/
def files : Files (StateM Memory) where
  read path := do pure ((read? (← get) path).mapError Fault.message)
  write path text := do
    match write? (← get) path text with
    | .ok m => do
      set m
      pure (.ok ())
    | .error fault => pure (.error fault.message)
  tree path _ := do pure (tree? (← get) path)

end Memory

end Typeforge
