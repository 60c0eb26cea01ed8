/-
# `Typeforge.Proofs.Lowering.Naming` — what naming a node comes to

A node is named in one of three ways.  If a text is kept for it, that is its text; if
it stands on the stack, its text refers back to its place there; and otherwise its
children are named below it, one after the other, and its text is put together from
theirs.  The text is kept if it refers to no place of the stack.

So to show something of all names it is enough to look at these three ways, given for
the third that it holds of the children's names.  On the stack every node is met once,
so that the bound of the walk is never what ends it, and no such case is left over.
-/
import Typeforge.Proofs.Lowering.Cycles
import Typeforge.Proofs.Lowering.Reaching

namespace Typeforge

namespace Arena

variable {a : Arena} {id other : NodeId} {stack : List NodeId}
variable {kept kept' : Array (Option String)} {text : String}

/-! ## Texts that are kept -/

/-- The text that is kept for a node. -/
def keptText (kept : Array (Option String)) (id : NodeId) : Option String :=
  (kept[id.index]?).join

theorem keptText_set_self (hid : id.index < kept.size) :
    keptText (kept.setIfInBounds id.index (some text)) id = some text := by
  rw [keptText, Array.getElem?_setIfInBounds_self_of_lt hid]
  rfl

theorem keptText_set_ne (hother : other ≠ id) :
    keptText (kept.setIfInBounds id.index (some text)) other = keptText kept other := by
  have hindex : id.index ≠ other.index := fun h => hother (congrArg NodeId.mk h.symm)
  rw [keptText, Array.getElem?_setIfInBounds_ne hindex, keptText]

theorem keptText_nothing (size : Nat) (id : NodeId) :
    keptText (Array.replicate size none) id = none := by
  rw [keptText, Array.getElem?_replicate]
  split <;> rfl

/-! ## Places of the stack -/

/-- How many levels up a tree may refer, the lowest place of the stack that it refers to being
known. -/
def levelsTo (stack : List NodeId) : Option Nat → Nat
  | none => 0
  | some place => stack.length - place

theorem levelsTo_lowerPlace (stack : List NodeId) (p q : Option Nat) :
    levelsTo stack p ≤ levelsTo stack (lowerPlace p q) ∧
      levelsTo stack q ≤ levelsTo stack (lowerPlace p q) := by
  cases p <;> cases q <;> simp only [levelsTo, lowerPlace] <;> omega

theorem levelsTo_cons (id : NodeId) (stack : List NodeId) (lowest : Option Nat) :
    levelsTo (id :: stack) lowest ≤ levelsTo stack lowest + 1 := by
  cases lowest <;> simp only [levelsTo, List.length_cons] <;> omega

theorem levelsTo_nil (lowest : Option Nat) : levelsTo [] lowest = 0 := by
  cases lowest <;> simp only [levelsTo, List.length_nil, Nat.zero_sub]

theorem findIdx?_eq_none : stack.findIdx? (· == id) = none ↔ id ∉ stack := by
  rw [List.findIdx?_eq_none_iff]
  constructor
  · intro h hmem
    exact absurd (h id hmem) (by rw [beq_self_eq_true]; decide)
  · intro h other hmem
    exact beq_eq_false_iff_ne.mpr fun heq => h (heq ▸ hmem)

theorem getElem?_of_findIdx? {up : Nat} (h : stack.findIdx? (· == id) = some up) :
    stack[up]? = some id := by
  obtain ⟨hlt, heq, -⟩ := List.findIdx?_eq_some_iff_getElem.mp h
  rw [List.getElem?_eq_getElem hlt, eq_of_beq heq]

/-! ## The three ways -/

section Runs

variable (fuel : Nat)

theorem run_nameNode_of_kept (stack : List NodeId) (hkept : keptText kept id = some text) :
    (a.nameNode (fuel + 1) stack id).run kept = (⟨text, none⟩, kept) := by
  rw [keptText] at hkept
  simp only [nameNode, StateT.run_bind, StateT.run_get, pure_bind, hkept]
  rfl

theorem run_nameNode_of_mem (hkept : keptText kept id = none) {up : Nat}
    (hfind : stack.findIdx? (· == id) = some up) : (a.nameNode (fuel + 1) stack id).run kept =
      (⟨s!"${up + 1}", some (stack.length - (up + 1))⟩, kept) := by
  rw [keptText] at hkept
  simp only [nameNode, StateT.run_bind, StateT.run_get, pure_bind, hkept, hfind]
  rfl

/-- A node that is met for the first time is named after its children, and its text is kept if it
refers to no place of the stack. -/
theorem run_nameNode_of_new (hkept : keptText kept id = none) (hnew : id ∉ stack) :
    (a.nameNode (fuel + 1) stack id).run kept =
      let below := (nameAll (a.nameNode fuel (id :: stack)) (a.node id).children).run kept
      let text := (a.node id).describe below.1.1
      (⟨text, below.1.2⟩, if levelsTo stack below.1.2 = 0
        then below.2.setIfInBounds id.index (some text) else below.2) := by
  have hfind := findIdx?_eq_none.mpr hnew
  rw [keptText] at hkept
  simp only [nameNode, StateT.run_bind, StateT.run_get, pure_bind, hkept, hfind]
  obtain ⟨⟨texts, lowest⟩, kept'⟩ :=
    (nameAll (a.nameNode fuel (id :: stack)) (a.node id).children).run kept
  cases lowest with
  | none => rfl
  | some place =>
    by_cases h : place < stack.length
    · have hlevels : levelsTo stack (some place) ≠ 0 := Nat.sub_ne_zero_of_lt h
      dsimp only
      rw [if_neg hlevels]
      exact congrArg (StateT.run · kept') (if_pos (decide_eq_true h))
    · have hlevels : levelsTo stack (some place) = 0 := Nat.sub_eq_zero_of_le (Nat.le_of_not_lt h)
      dsimp only
      rw [if_pos hlevels]
      exact congrArg (StateT.run · kept') (if_neg (by rw [decide_eq_true_iff]; exact h))

end Runs

/-! ## The rule -/

/-- What naming a node may come to, given what is kept: what it is called, and what is kept then. -/
abbrev Outcome := Array (Option String) → NodeId → Named → Array (Option String) → Prop

/-- Nodes are named one after the other. -/
inductive NamesEach (names : Outcome) : Array (Option String) → List NodeId → List String →
    Option Nat → Array (Option String) → Prop where
  | nil (kept : Array (Option String)) : NamesEach names kept [] [] none kept
  | cons {before between after : Array (Option String)} {first : NodeId} {rest : List NodeId}
      {named : Named} {texts : List String} {lowest : Option Nat}
      (head : names before first named between)
      (tail : NamesEach names between rest texts lowest after) :
      NamesEach names before (first :: rest) (named.text :: texts)
        (lowerPlace named.lowest lowest) after

theorem namesEach_nameAll (names : Outcome) {name : NodeId → Naming Named} {size : Nat}
    {ids : List NodeId} (h : ∀ id ∈ ids, ∀ kept : Array (Option String), kept.size = size →
      names kept id ((name id).run kept).1 ((name id).run kept).2 ∧
        ((name id).run kept).2.size = size)
    (kept : Array (Option String)) (hsize : kept.size = size) :
    NamesEach names kept ids ((nameAll name ids).run kept).1.1 ((nameAll name ids).run kept).1.2
        ((nameAll name ids).run kept).2 ∧
      ((nameAll name ids).run kept).2.size = size := by
  induction ids generalizing kept with
  | nil => exact ⟨.nil kept, hsize⟩
  | cons id ids ih =>
    obtain ⟨hid, hids⟩ := List.forall_mem_cons.mp h
    obtain ⟨first, hsize'⟩ := hid kept hsize
    obtain ⟨rest, hsize''⟩ := ih hids _ hsize'
    exact ⟨.cons first rest, hsize''⟩

/-- **What holds of a node's name**, on every stack of nodes that all differ. -/
theorem nameNode_rule (closed : ∀ id, ∀ child ∈ (a.node id).children, child ∈ a.ids)
    (Spec : List NodeId → Outcome)
    (found : ∀ stack kept id text, keptText kept id = some text →
      Spec stack kept id ⟨text, none⟩ kept)
    (back : ∀ stack kept id up, keptText kept id = none → stack.findIdx? (· == id) = some up →
      Spec stack kept id ⟨s!"${up + 1}", some (stack.length - (up + 1))⟩ kept)
    (new : ∀ stack kept id texts lowest kept', keptText kept id = none → id ∉ stack →
      id.index < kept'.size →
      NamesEach (Spec (id :: stack)) kept (a.node id).children texts lowest kept' →
      Spec stack kept id ⟨(a.node id).describe texts, lowest⟩ (if levelsTo stack lowest = 0
        then kept'.setIfInBounds id.index (some ((a.node id).describe texts)) else kept'))
    {fuel : Nat} (hid : id ∈ a.ids) (nodup : stack.Nodup) (inside : stack ⊆ a.ids)
    (room : stack.length + fuel = a.size + 1) {kept : Array (Option String)}
    (hsize : kept.size = a.size) :
    Spec stack kept id ((a.nameNode fuel stack id).run kept).1
        ((a.nameNode fuel stack id).run kept).2 ∧
      ((a.nameNode fuel stack id).run kept).2.size = a.size := by
  induction fuel generalizing stack id kept with
  | zero =>
    have hle := (List.subperm_of_subset nodup inside).length_le
    rw [ids, List.length_map, List.length_range] at hle
    omega
  | succ fuel ih =>
    cases hkept : keptText kept id with
    | some text =>
      rw [run_nameNode_of_kept fuel stack hkept]
      exact ⟨found stack kept id text hkept, hsize⟩
    | none =>
      cases hfind : stack.findIdx? (· == id) with
      | some up =>
        rw [run_nameNode_of_mem fuel hkept hfind]
        exact ⟨back stack kept id up hkept hfind, hsize⟩
      | none =>
        have hnew : id ∉ stack := findIdx?_eq_none.mp hfind
        obtain ⟨each, hsize'⟩ := namesEach_nameAll (Spec (id :: stack))
          (fun child hchild kept hsize => ih (closed id child hchild)
            (List.nodup_cons.mpr ⟨hnew, nodup⟩) (List.cons_subset.mpr ⟨hid, inside⟩)
            (by rw [List.length_cons]; omega) hsize) kept hsize
        rw [run_nameNode_of_new fuel hkept hnew]
        have hbounds := hsize' ▸ mem_ids.mp hid
        refine ⟨new stack kept id _ _ _ hkept hnew hbounds each, ?_⟩
        dsimp only
        split
        · rw [Array.size_setIfInBounds]
          exact hsize'
        · exact hsize'

end Arena

end Typeforge
