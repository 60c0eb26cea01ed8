/-
# `Typeforge.Proofs.Types.Orderly` — types whose nodes stand where they belong

Lowering takes some nodes wherever they are met: a property may be an element of an array, and an
object may declare a name twice.  Much is known only of types without such nodes, and what they have
to keep to is said here, each time with a check that decides it.
-/
import Typeforge.Proofs.Lowering.Reaching
import Typeforge.Proofs.Lowering.Sweeps
import Typeforge.Proofs.Types.Needs

namespace Typeforge

namespace Arena

/-! ## Properties -/

/-- Types whose properties stand where they belong. -/
structure WellPlaced (a : Arena) : Prop where
  /-- The properties of an object have different names. -/
  distinct : ∀ id props index className, (a.node id).shape = .object props index className →
    (Compile.declaredNames (a.properties props)).Nodup
  /-- Properties stand in objects only. -/
  placed : ∀ id, ∀ child ∈ (a.node id).children, a.propertyName? child ≠ none →
    ∃ props index className, (a.node id).shape = .object props index className

/-- Whether the properties below one node stand where they belong. -/
def placesProperties (a : Arena) : Shape → Bool
  | .object props _ _ => decide (Compile.declaredNames (a.properties props)).Nodup
  | shape => shape.children.all fun child => (a.propertyName? child).isNone

def isWellPlaced (a : Arena) : Bool := a.ids.all fun id => a.placesProperties (a.node id).shape

variable {a : Arena}

theorem wellPlaced_of_isWellPlaced (h : a.isWellPlaced = true) : a.WellPlaced := by
  have hplaces := forall_node (P := fun n => a.placesProperties n.shape = true)
    (List.all_eq_true.mp h) rfl
  refine ⟨fun id props index className hshape => ?_, fun id child hchild hname => ?_⟩
  · have hid := hplaces id
    rw [hshape] at hid
    exact of_decide_eq_true hid
  · have hid := hplaces id
    cases hshape : (a.node id).shape with
    | object props index className => exact ⟨props, index, className, rfl⟩
    | _ =>
      rw [hshape] at hid
      rw [Node.children, hshape] at hchild
      exact absurd (Option.isNone_iff_eq_none.mp (List.all_eq_true.mp hid child hchild)) hname

/-- A node that stands for another refers to it. -/
theorem mem_children_of_standsFor {id child : NodeId} (h : (a.node id).standsFor? = some child) :
    child ∈ (a.node id).children := by
  cases hshape : (a.node id).shape <;>
    simp only [Node.standsFor?, hshape, reduceCtorEq, Option.some.injEq] at h
  all_goals
    subst h
    simp only [Node.children, hshape, Shape.children, List.mem_singleton]

/-- The core of a node can be reached from it. -/
theorem reaches_core {id core : NodeId} (h : a.core id = some core) : a.Reaches id core := by
  obtain ⟨k, hk⟩ := core_eq_some_iff.mp h
  clear h
  induction k generalizing id with
  | zero => cases hk
  | succ k ih =>
    cases hstands : (a.node id).standsFor? with
    | none =>
      rw [coreWithin_succ_of_none k hstands] at hk
      cases hk
      exact .refl
    | some child =>
      rw [coreWithin_succ_of_standsFor k hstands] at hk
      exact .head (mem_children_of_standsFor hstands) (ih hk)

/-- Only parts of objects are properties. -/
theorem WellPlaced.propertyName?_part (places : a.WellPlaced) {id child : NodeId} {shape : Shape}
    (hshape : (a.node id).shape = shape) (hchild : child ∈ shape.children)
    (object : ∀ props index className, shape ≠ .object props index className) :
    a.propertyName? child = none := by
  subst hshape
  by_contra hname
  obtain ⟨props, index, className, hshape⟩ := places.placed id child hchild hname
  exact object props index className hshape

/-- What stands behind a node that is no property is no property. -/
theorem WellPlaced.propertyName?_core (places : a.WellPlaced) {id core : NodeId}
    (h : a.propertyName? id = none) (hcore : a.core id = some core) :
    a.propertyName? core = none := by
  obtain ⟨k, hk⟩ := core_eq_some_iff.mp hcore
  induction k generalizing id with
  | zero => cases hk
  | succ k ih =>
    cases hstands : (a.node id).standsFor? with
    | none =>
      rw [coreWithin_succ_of_none _ hstands] at hk
      cases hk
      exact h
    | some child =>
      rw [coreWithin_succ_of_standsFor _ hstands] at hk
      refine ih ?_ (core_eq_some_iff.mpr ⟨k, hk⟩) hk
      refine places.propertyName?_part rfl (mem_children_of_standsFor hstands) fun _ _ _ hshape => ?_
      simp only [Node.standsFor?, hshape, reduceCtorEq] at hstands

/-- The child of a property is no property. -/
theorem WellPlaced.propertyName?_child (places : a.WellPlaced) {id child : NodeId} {name : String}
    (h : (a.node id).shape = .property name child) : a.propertyName? child = none :=
  places.propertyName?_part h List.mem_cons_self (by rintro _ _ _ ⟨⟩)

/-! ## Unions in optional positions -/

/-- Types of which JSON text can be written wherever they can be encoded. -/
structure Orderly (a : Arena) : Prop extends WellPlaced a where
  /-- No optional position of a tuple has a union that is tagged. -/
  slots : ∀ id tuple, (a.node id).shape = .tuple tuple → ∀ pos ∈ (a.splitTuple tuple).1,
    (a.node pos).optional = true → ∀ members, (a.unfolding pos).label = some (.union members) →
    ¬ (a.unfolding pos).Needs .encode
  /-- The members of a union are numbered in a machine word. -/
  counted : ∀ id members, (a.node id).shape = .union members → members.length ≤ Nat.pow 2 64

/-- Whether what stands at a node is a union. -/
def isUnion (a : Arena) (id : NodeId) : Bool :=
  match (a.unfolding id).label with
  | some (.union _) => true
  | _ => false

/-- Whether a shape keeps to the rules for unions. -/
def placesUnions (a : Arena) : Shape → Bool
  | .tuple tuple => (a.splitTuple tuple).1.all fun pos =>
      !((a.node pos).optional && a.isUnion pos && (a.node pos).needsEncode)
  | .union members => decide (members.length ≤ Nat.pow 2 64)
  | _ => true

def isOrderly (a : Arena) : Bool :=
  a.isWellPlaced && a.ids.all fun id => a.placesUnions (a.node id).shape

theorem orderly_of_isOrderly (marked : a.Marked) (h : a.isOrderly = true) : a.Orderly := by
  obtain ⟨hplaced, hunions⟩ := Bool.and_eq_true_iff.mp h
  have hplaces := forall_node (P := fun n => a.placesUnions n.shape = true)
    (List.all_eq_true.mp hunions) rfl
  refine ⟨wellPlaced_of_isWellPlaced hplaced, fun id tuple hshape pos hpos optional members hlabel
    needs => ?_, fun id members hshape => ?_⟩
  · have hid := hplaces id
    rw [hshape] at hid
    have hslot := List.all_eq_true.mp hid pos hpos
    have hneeds : (a.node pos).needsEncode = true := (marked pos .encode).mpr needs
    have hunion : a.isUnion pos = true := by rw [isUnion, hlabel]
    rw [optional, hunion, hneeds] at hslot
    cases hslot
  · have hid := hplaces id
    rw [hshape] at hid
    exact of_decide_eq_true hid

end Arena

end Typeforge
