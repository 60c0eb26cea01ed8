/-
# `Typeforge.Registry` — the functions compiled so far

A function is registered once and never changed or taken out, so that whoever
knows its key can count on it.  Engines may share a registry.
-/
import Typeforge.Code.Basic

namespace Typeforge

structure Registry where
  /-- The functions in the order registered. -/
  functions : List Function
  /-- A key has one function. -/
  distinct : (functions.map (·.key)).Nodup

namespace Registry

def empty : Registry := ⟨[], List.nodup_nil⟩

instance : Inhabited Registry := ⟨empty⟩

def keys (r : Registry) : List FunctionKey := r.functions.map (·.key)

def contains (r : Registry) (key : FunctionKey) : Bool := r.keys.contains key

/-- The function with a key. -/
def get? (r : Registry) (key : FunctionKey) : Option Function :=
  r.functions.find? (·.key == key)

def size (r : Registry) : Nat := r.functions.length

def isEmpty (r : Registry) : Bool := r.functions.isEmpty

theorem distinct_append {fs : List Function} {f : Function} (distinct : (fs.map (·.key)).Nodup)
    (fresh : f.key ∉ fs.map (·.key)) : ((fs ++ [f]).map (·.key)).Nodup := by
  rw [List.map_append, List.nodup_append]
  refine ⟨distinct, by simp, ?_⟩
  intro a ha b hb
  rw [List.map_singleton, List.mem_singleton] at hb
  intro hab
  exact fresh (hb ▸ hab ▸ ha)

/-- Registers a function, unless its key is taken. -/
def define (r : Registry) (f : Function) : Registry :=
  if h : f.key ∈ r.functions.map (·.key) then r
  else ⟨r.functions ++ [f], distinct_append r.distinct h⟩

/-- Registers functions one after the other. -/
def defineAll (r : Registry) (fs : List Function) : Registry := fs.foldl define r

/-- The order of keys: by identity, and for one identity in the order of the targets. -/
def keyLe (a b : FunctionKey) : Bool :=
  if a.identity = b.identity then decide (a.target.rank ≤ b.target.rank)
  else decide (a.identity < b.identity)

/-- The functions in the order of their keys. -/
def sorted (r : Registry) : List Function := r.functions.mergeSort fun f g => keyLe f.key g.key

end Registry

end Typeforge
