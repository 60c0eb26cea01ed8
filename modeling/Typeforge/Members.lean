/-
# `Typeforge.Members` — named entries in the order they were first made

An object, a table of roots, a table of revivers: each is a list of named
entries in which a name that is entered again keeps its first place and takes
its last value.
-/

namespace Typeforge

/-- Named entries, in order. -/
abbrev Members (α : Type) := List (String × α)

namespace Members

variable {α : Type}

/-- The entry of a name. -/
def get? (name : String) : Members α → Option α
  | [] => none
  | (k, a) :: rest => if k = name then some a else get? name rest

/-- Whether a name has an entry. -/
def has (name : String) (ms : Members α) : Bool := (get? name ms).isSome

/-- Enters a value under a name: in the place the name has, or at the end. -/
def put (name : String) (a : α) : Members α → Members α
  | [] => [(name, a)]
  | (k, b) :: rest => if k = name then (k, a) :: rest else (k, b) :: put name a rest

/-- Enters all entries of a list, one after the other. -/
def putAll (ms : Members α) (entries : List (String × α)) : Members α :=
  entries.foldl (fun acc e => put e.1 e.2 acc) ms

/-- The entries of a list, a repeated name in its first place with its last value. -/
def ofList (entries : List (String × α)) : Members α := putAll [] entries

/-- Replaces the entry of a name by a function of it, if there is one. -/
def update (name : String) (f : α → α) : Members α → Members α
  | [] => []
  | (k, a) :: rest => if k = name then (k, f a) :: rest else (k, a) :: update name f rest

end Members

end Typeforge
