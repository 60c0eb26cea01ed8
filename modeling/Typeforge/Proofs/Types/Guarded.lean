/-
# `Typeforge.Proofs.Types.Guarded` — types without endless unions

A union hands a value on to its members as it is.  A union that is reached from
itself through members alone would hand a value round for ever, and so does one
that is reached through its own parameter or promise.  A type is guarded if there
is no such way round: every cycle of references has an object, a class, an array
or a tuple on it, where a run goes on to the parts of a value.

A guarded type is shallow wherever it is looked at: only so many unions stand one
inside another.  The least such number is the rank of the type; it falls from a
union to its members, and is a matter of the unfolded type alone.  What cannot be
reached from a type does not matter to it: of a whole arena it is often asked that
it be guarded, but a type is as soon as all that is below it is.
-/
import Mathlib.Data.Finset.Card
import Typeforge.Proofs.Types.Orderly

namespace Typeforge

/-! ## Trees -/

namespace TypeTree

/-- The parts that a value comes to undivided. A property passes on a member of the object around
it, but where there is no object that is nothing of its own. -/
def passed (t : TypeTree) : List Nat :=
  match t.label with
  | some (.union members) => List.range members
  | some (.property _ _) => [0]
  | _ => []

/-- Less than so many unions and properties stand one inside another at the top of a tree. -/
inductive Shallow : Nat → TypeTree → Prop where
  | mk {n t} (h : ∀ i ∈ t.passed, Shallow n (t.part i)) : Shallow (n + 1) t

theorem Shallow.mono {n m : Nat} {t : TypeTree} (h : t.Shallow n) (hle : n ≤ m) : t.Shallow m := by
  induction h generalizing m with
  | mk _ ih =>
    obtain ⟨m, rfl⟩ : ∃ k, m = k + 1 := ⟨m - 1, by omega⟩
    exact .mk fun i hi => ih i hi (Nat.le_of_succ_le_succ hle)

/-- How many unions and properties stand one inside another at the top of a tree. -/
noncomputable def rank (t : TypeTree) : Nat := sInf {n | t.Shallow n}

theorem rank_le {t : TypeTree} {n : Nat} (h : t.Shallow n) : t.rank ≤ n := Nat.sInf_le h

theorem rank_part_lt {t : TypeTree} (h : ∃ n, t.Shallow n) {i : Nat} (hi : i ∈ t.passed) :
    (t.part i).rank < t.rank := by
  have hleast : t.Shallow t.rank := Nat.sInf_mem (s := {n | t.Shallow n}) h
  generalize t.rank = n at hleast
  cases hleast with
  | mk hparts => exact Nat.lt_succ_of_le (Nat.sInf_le (hparts i hi))

/-- A tree is shallow wherever it is looked at. -/
def Guarded (t : TypeTree) : Prop := ∀ place : List Nat, ∃ n, (place.foldl part t).Shallow n

theorem Guarded.shallow {t : TypeTree} (h : t.Guarded) : ∃ n, t.Shallow n := h []

theorem Guarded.part {t : TypeTree} (h : t.Guarded) (i : Nat) : (t.part i).Guarded :=
  fun place => h (i :: place)

theorem guarded_empty : Guarded .empty := fun place => by
  have hplace : place.foldl TypeTree.part .empty = .empty := by
    induction place with
    | nil => rfl
    | cons i place ih => exact ih
  rw [hplace]
  exact ⟨1, .mk fun i hi => absurd hi List.not_mem_nil⟩

end TypeTree

/-! ## Arenas -/

/-- Whether instances are taken apart here: their parts are smaller than they are. -/
def Shape.isContainer : Shape → Bool
  | .array _ | .object _ _ _ | .tuple _ => true
  | _ => false

namespace Arena

/-- An instance of a node comes to a child undivided. -/
def Passes (a : Arena) (child id : NodeId) : Prop :=
  child ∈ (a.node id).children ∧ (a.node id).shape.isContainer = false

/-- Every cycle of references passes through an object, a class, an array or a tuple. -/
def Guarded (a : Arena) : Prop := ∀ id, ¬ Relation.TransGen a.Passes id id

/-- Every cycle of references that can be reached from a node does. -/
def GuardedBelow (a : Arena) (id : NodeId) : Prop :=
  ∀ n, a.Reaches id n → ¬ Relation.TransGen a.Passes n n

/-- Whether numbers given to the nodes fall from each node to those that its instances come to
undivided. -/
def isRankedBy (a : Arena) (rank : NodeId → Nat) : Bool :=
  a.ids.all fun id => (a.node id).shape.isContainer ||
    (a.node id).children.all fun child => decide (rank child < rank id)

variable {a : Arena} {id child : NodeId}

theorem guarded_of_isRankedBy {rank : NodeId → Nat} (h : a.isRankedBy rank = true) : a.Guarded := by
  have falls {child id : NodeId} (hpass : a.Passes child id) : rank child < rank id := by
    obtain ⟨hchild, hshape⟩ := hpass
    have hid : id ∈ a.ids := by
      by_contra hid
      rw [node_eq_default hid] at hchild
      exact absurd hchild List.not_mem_nil
    have hfalls := List.all_eq_true.mp h id hid
    rw [hshape, Bool.false_or] at hfalls
    exact of_decide_eq_true (List.all_eq_true.mp hfalls child hchild)
  have along {child id : NodeId} (hpass : Relation.TransGen a.Passes child id) :
      rank child < rank id := by
    induction hpass with
    | single hpass => exact falls hpass
    | tail _ hpass ih => exact ih.trans (falls hpass)
  exact fun id hid => Nat.lt_irrefl _ (along hid)

/-- What passes instances on is a node of the arena. -/
theorem Passes.mem_ids (h : a.Passes child id) : id ∈ a.ids := by
  by_contra hid
  rw [Passes, node_eq_default hid] at h
  exact absurd h.1 List.not_mem_nil

theorem Guarded.below (guarded : a.Guarded) (id : NodeId) : a.GuardedBelow id :=
  fun n _ => guarded n

theorem GuardedBelow.mono (guarded : a.GuardedBelow id) (reaches : a.Reaches id child) :
    a.GuardedBelow child := fun n h => guarded n (reaches.trans h)

theorem Passes.guardedBelow (h : a.Passes child id) (guarded : a.GuardedBelow id) :
    a.GuardedBelow child := guarded.mono (.single h.1)

theorem isContainer_of_standsFor (h : (a.node id).standsFor? = some child) :
    (a.node id).shape.isContainer = false := by
  cases hshape : (a.node id).shape <;> simp only [Node.standsFor?, hshape, reduceCtorEq] at h <;> rfl

/-- The parts of an unfolded type that instances come to undivided are those of such children. -/
theorem exists_passes (hself : (a.node id).standsFor? = none) {i : Nat}
    (hi : i ∈ (a.unfolding id).passed) :
    ∃ child, a.Passes child id ∧ (a.unfolding id).part i = a.unfolding child := by
  rw [TypeTree.passed, label_unfolding hself, labelOf] at hi
  cases hshape : (a.node id).shape with
  | union members =>
    rw [hshape] at hi
    have hlt := List.mem_range.mp hi
    have hchild : (a.node id).children[i]? = some members[i] := by
      rw [Node.children, hshape, Shape.children, List.getElem?_eq_getElem hlt]
    exact ⟨members[i], ⟨List.mem_of_getElem? hchild, by rw [hshape]; rfl⟩,
      part_unfolding hself hchild⟩
  | property name child =>
    rw [hshape] at hi
    obtain rfl := List.mem_singleton.mp hi
    have hchild : (a.node id).children[0]? = some child := by
      rw [Node.children, hshape, Shape.children]
      rfl
    exact ⟨child, ⟨List.mem_of_getElem? hchild, by rw [hshape]; rfl⟩, part_unfolding hself hchild⟩
  | _ =>
    rw [hshape] at hi
    exact absurd hi List.not_mem_nil

open Classical in
/-- The nodes that instances of a node are passed on to. -/
noncomputable def beneath (a : Arena) (id : NodeId) : Finset NodeId :=
  a.ids.toFinset.filter fun c => Relation.TransGen a.Passes c id

theorem card_beneath_le (a : Arena) (id : NodeId) : (a.beneath id).card ≤ a.size := by
  classical
  refine (Finset.card_filter_le _ _).trans ((List.toFinset_card_le _).trans_eq ?_)
  rw [ids, List.length_map, List.length_range]

theorem GuardedBelow.card_beneath_lt (guarded : a.GuardedBelow child) (h : a.Passes child id)
    (hc : child ∈ a.ids) : (a.beneath child).card < (a.beneath id).card := by
  classical
  have hmem : child ∈ a.beneath id :=
    Finset.mem_filter.mpr ⟨List.mem_toFinset.mpr hc, .single h⟩
  refine Finset.card_lt_card (Finset.ssubset_iff_subset_ne.mpr ⟨fun c hmem => ?_, fun heq => ?_⟩)
  · obtain ⟨hids, hpasses⟩ := Finset.mem_filter.mp hmem
    exact Finset.mem_filter.mpr ⟨hids, hpasses.tail h⟩
  · rw [← heq] at hmem
    exact guarded child .refl (Finset.mem_filter.mp hmem).2

/-- Less unions and properties stand one inside another than the nodes that values are passed on
to, and two more: the node itself, and one that may not be there. -/
theorem GuardedBelow.shallow_beneath (guarded : a.GuardedBelow id) :
    (a.unfolding id).Shallow ((a.beneath id).card + 2) := by
  induction hcard : (a.beneath id).card using Nat.strong_induction_on generalizing id with
  | h card ih =>
    have each (child : NodeId) (hpass : a.Passes child id) :
        (a.unfolding child).Shallow (card + 1) := by
      by_cases hc : child ∈ a.ids
      · have below := hpass.guardedBelow guarded
        have hlt := hcard ▸ below.card_beneath_lt hpass hc
        exact (ih _ hlt below rfl).mono (Nat.succ_le_succ hlt)
      · have hself : (a.node child).standsFor? = none := by
          rw [node_eq_default hc]
          rfl
        refine .mk fun i hi => ?_
        obtain ⟨grandchild, hnone, -⟩ := exists_passes hself hi
        exact absurd hnone.mem_ids hc
    cases hself : (a.node id).standsFor? with
    | some child =>
      rw [unfolding_of_standsFor hself]
      have hpass : a.Passes child id :=
        ⟨mem_children_of_standsFor hself, isContainer_of_standsFor hself⟩
      exact (each child hpass).mono (Nat.le_succ _)
    | none =>
      refine .mk fun i hi => ?_
      obtain ⟨child, hpass, hpart⟩ := exists_passes hself hi
      rw [hpart]
      exact each child hpass

/-- The types of a guarded arena are shallow. -/
theorem Guarded.shallow (guarded : a.Guarded) (id : NodeId) :
    (a.unfolding id).Shallow (a.size + 2) :=
  (guarded.below id).shallow_beneath.mono (Nat.add_le_add_right (a.card_beneath_le id) 2)

/-! ## Unfoldings -/

/-- A type is guarded if all that can be reached is shallow. -/
theorem guarded_unfolding (shallow : ∀ n, a.Reaches id n → ∃ k, (a.unfolding n).Shallow k) :
    (a.unfolding id).Guarded := by
  intro place
  induction place generalizing id with
  | nil => exact shallow id .refl
  | cons i place ih =>
    by_cases hpart : (a.unfolding id).part i = .empty
    · rw [List.foldl_cons, hpart]
      exact TypeTree.guarded_empty place
    · obtain ⟨core, child, hcore, hchild, heq⟩ := exists_child_of_part hpart
      have reaches : a.Reaches id child :=
        (reaches_core hcore).tail (List.mem_of_getElem? hchild)
      rw [List.foldl_cons, heq]
      exact ih fun n h => shallow n (reaches.trans h)

/-- The type of a node below which all is guarded is guarded. -/
theorem GuardedBelow.unfolding (guarded : a.GuardedBelow id) : (a.unfolding id).Guarded :=
  guarded_unfolding fun _ h => ⟨_, (guarded.mono h).shallow_beneath⟩

/-- The children of a node have guarded types if it has. -/
theorem guarded_child (h : (a.unfolding id).Guarded) (hself : (a.node id).standsFor? = none)
    (hchild : child ∈ (a.node id).children) : (a.unfolding child).Guarded := by
  obtain ⟨i, hi⟩ := List.mem_iff_getElem?.mp hchild
  rw [← part_unfolding hself hi]
  exact h.part i

end Arena

end Typeforge
