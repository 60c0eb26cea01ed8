/-
# `Typeforge.Proofs.Halting.Reach` — what a run may still come to

Code of a guarded type, run on a value, comes to calls in two ways.  Through an
object, an array or a tuple it comes to parts of the value, which are smaller.
Through a union it comes to the members with the value as it is, and these have a
lower rank.  So a run goes down in the order in which sizes count first and ranks
second.

How large a value is, is left open: its levels will do as long as a run does not
change the value.

A property is the one exception.  Its type is asked of the whole object, but has a
part of the object to itself; it is no larger than its own part.
-/
import Typeforge.Proofs.Running.Judging
import Typeforge.Proofs.Types.Guarded
import Typeforge.Proofs.Types.Slots

namespace Typeforge

/-! ## Going down -/

namespace TypeTree

variable {α : Type} [Preorder α] {μ : Value → α} {m : α} {k : Nat} {t : TypeTree} {v : Value}

/-- What is smaller than a size, or no larger and of a type below a rank. -/
def Below (μ : Value → α) (m : α) (k : Nat) (t : TypeTree) (v : Value) : Prop :=
  μ v < m ∨ (μ v ≤ m ∧ t.rank < k)

/-- What is below what is below is below. -/
theorem Below.trans (h : t.Below μ m k v) {u : TypeTree} {w : Value}
    (hw : u.Below μ (μ v) t.rank w) : u.Below μ m k w := by
  rcases h with hv | ⟨hv, hrank⟩
  · rcases hw with hw | ⟨hw, -⟩
    · exact .inl (hw.trans hv)
    · exact .inl (lt_of_le_of_lt hw hv)
  · rcases hw with hw | ⟨hw, hlower⟩
    · exact .inl (lt_of_lt_of_le hw hv)
    · exact .inr ⟨hw.trans hv, hlower.trans hrank⟩

/-- What the code of a type may be run on: what is below, and for a property anything of which its
part is smaller. -/
inductive Reaches (μ : Value → α) (m : α) (k : Nat) (t : TypeTree) (v : Value) : Prop where
  | below (h : t.Below μ m k v)
  | property {name : String} {optional : Bool} (label : t.label = some (.property name optional))
      (part : μ (v.member name) < m)

theorem Reaches.smaller (h : μ v < m) : t.Reaches μ m k v := .below (.inl h)

theorem Reaches.lower (h : μ v ≤ m) (hrank : t.rank < k) : t.Reaches μ m k v :=
  .below (.inr ⟨h, hrank⟩)

end TypeTree

/-! ## Nodes -/

namespace Arena

/-- All types of an arena have a rank. -/
def Shallow (a : Arena) : Prop := ∀ id, ∃ n, (a.unfolding id).Shallow n

variable {a : Arena} {id : NodeId}

theorem Shallow.guarded (shallow : a.Shallow) (id : NodeId) : (a.unfolding id).Guarded :=
  guarded_unfolding fun n _ => shallow n

/-- The rank falls from a union to its members. -/
theorem rank_member_lt (shallow : ∃ n, (a.unfolding id).Shallow n) {members : List NodeId}
    (h : (a.node id).shape = .union members) {member : NodeId} (hmember : member ∈ members) :
    (a.unfolding member).rank < (a.unfolding id).rank := by
  have hself : (a.node id).standsFor? = none := by simp only [Node.standsFor?, h]
  obtain ⟨i, hi⟩ := List.mem_iff_getElem?.mp hmember
  have hpart := part_unfolding (a := a) (i := i) hself
    (by rw [Node.children, h, Shape.children]; exact hi)
  rw [← hpart]
  refine TypeTree.rank_part_lt shallow ?_
  rw [TypeTree.passed, label_unfolding hself, labelOf, h]
  exact List.mem_range.mpr (List.getElem?_eq_some_iff.mp hi).1

/-- The rank falls from a property to what it is of. -/
theorem rank_property_lt (shallow : ∃ n, (a.unfolding id).Shallow n) {name : String}
    {child : NodeId} (h : (a.node id).shape = .property name child) :
    (a.unfolding child).rank < (a.unfolding id).rank := by
  have hself : (a.node id).standsFor? = none := by simp only [Node.standsFor?, h]
  rw [← (label_of_property h).2]
  refine TypeTree.rank_part_lt shallow ?_
  rw [TypeTree.passed, label_unfolding hself, labelOf, h]
  exact List.mem_singleton_self 0

theorem Shallow.member_lt (shallow : a.Shallow) {members : List NodeId}
    (h : (a.node id).shape = .union members) {member : NodeId} (hmember : member ∈ members) :
    (a.unfolding member).rank < (a.unfolding id).rank :=
  rank_member_lt (shallow id) h hmember

theorem Shallow.property_lt (shallow : a.Shallow) {name : String} {child : NodeId}
    (h : (a.node id).shape = .property name child) :
    (a.unfolding child).rank < (a.unfolding id).rank :=
  rank_property_lt (shallow id) h

/-- A property of an object has the label of one. -/
theorem label_of_mem_properties {props : List NodeId} {p : Property} (hp : p ∈ a.properties props) :
    (a.unfolding p.id).label = some (.property p.name p.optional) := by
  obtain ⟨-, hoptional, child, hshape⟩ := shape_of_mem_properties hp
  rw [hoptional]
  exact (label_of_property hshape).1

/-- What stands for itself and has the label of a property is one. -/
theorem shape_of_label_property {name : String} {optional : Bool}
    (hself : (a.node id).standsFor? = none)
    (h : (a.unfolding id).label = some (.property name optional)) :
    ∃ child, (a.node id).shape = .property name child := by
  rw [label_unfolding hself, labelOf] at h
  cases hshape : (a.node id).shape <;> rw [hshape] at h <;> cases h
  exact ⟨_, rfl⟩

theorem label_of_hasBody (own : (a.node id).hasBody = true) (name : String) (optional : Bool) :
    (a.unfolding id).label ≠ some (.property name optional) := by
  intro h
  obtain ⟨child, hshape⟩ := shape_of_label_property (Node.standsFor?_of_hasBody own) h
  rw [Node.hasBody, hshape] at own
  cases own

end Arena

/-! ## Room for calls -/

namespace Arena

/-- The identities of types up to a rank. -/
def RankedUpTo (a : Arena) (k : Nat) (name : String) : Prop :=
  ∃ id, (a.node id).identity = name ∧ (a.unfolding id).rank ≤ k

/-- How many calls inside one another a run of a type may need on a value of a size. -/
noncomputable def room (a : Arena) (names : List String) (t : TypeTree) (m : Nat) : Nat :=
  callRoom m names (a.RankedUpTo t.rank)

variable {a : Arena} {names : List String} {id callee : NodeId} {μ : Value → Nat} {v w : Value}
  {m n : Nat}

/-- A call needs less room than a caller that room is made for. -/
theorem room_lt (faithful : a.Faithful) (hname : (a.node id).identity ∈ names)
    (hbelow : (a.unfolding callee).Below μ m (a.unfolding id).rank w) :
    a.room names (a.unfolding callee) (μ w) < a.room names (a.unfolding id) m := by
  rcases hbelow with hw | ⟨hw, hrank⟩
  · exact callRoom_lt_of_lt hw
  · rcases Nat.lt_or_eq_of_le hw with hw | hw
    · exact callRoom_lt_of_lt hw
    · have lower (name : String) (h : a.RankedUpTo (a.unfolding callee).rank name) :
          a.RankedUpTo (a.unfolding id).rank name := by
        obtain ⟨node, hnode, hle⟩ := h
        exact ⟨node, hnode, hle.trans hrank.le⟩
      rw [hw]
      refine callRoom_lt lower hname ⟨id, rfl, le_rfl⟩ ?_
      rintro ⟨node, hnode, hle⟩
      rw [faithful node id hnode] at hle
      exact absurd hle (Nat.not_le_of_lt hrank)

theorem room_pos (hname : (a.node id).identity ∈ names) : 0 < a.room names (a.unfolding id) m := by
  classical
  refine Nat.lt_of_lt_of_le ?_ (Nat.le_add_left _ _)
  exact List.countP_pos_iff.mpr ⟨_, hname, decide_eq_true ⟨id, rfl, le_rfl⟩⟩

/-- A program makes room for whatever is no larger than the value it is run on. -/
theorem room_le_steps (p : Program) {t : TypeTree} (h : m ≤ v.levels) :
    a.room p.names t m ≤ p.steps v := by
  rcases Nat.lt_or_eq_of_le h with hlt | rfl
  · exact ((callRoom_lt_of_lt (Q := a.RankedUpTo t.rank) hlt).trans
      (Value.room_lt_steps p.length_names.le)).le
  · exact (Value.room_lt_steps (v := v) (P := a.RankedUpTo t.rank) p.length_names.le).le

/-! ## A bound from the arena -/

/-- The identities of an arena's nodes. -/
def nodeNames (a : Arena) : List String := a.ids.map fun id => (a.node id).identity

theorem length_nodeNames (a : Arena) : a.nodeNames.length = a.size := by
  rw [nodeNames, ids, List.length_map, List.length_map, List.length_range]

/-- How many calls inside one another a run makes at most on a value of a size. -/
def callBound (a : Arena) (m : Nat) : Nat := (m + 1) * (a.size + 1)

theorem callBound_mono (a : Arena) (h : m ≤ n) : a.callBound m ≤ a.callBound n :=
  Nat.mul_le_mul_right _ (Nat.succ_le_succ h)

theorem callBound_pos : 0 < a.callBound m := Nat.mul_pos (Nat.succ_pos _) (Nat.succ_pos _)

theorem mem_nodeNames (own : (a.node id).hasBody = true) : (a.node id).identity ∈ a.nodeNames := by
  refine List.mem_map_of_mem ?_
  by_contra hid
  rw [node_eq_default hid] at own
  cases own

theorem room_lt_callBound {t : TypeTree} (h : m ≤ n) : a.room a.nodeNames t m < a.callBound n := by
  have hroom : a.room a.nodeNames t m < (m + 1) * (a.nodeNames.length + 1) := callRoom_lt_mul
  rw [length_nodeNames] at hroom
  exact hroom.trans_le (Nat.mul_le_mul_right _ (Nat.succ_le_succ h))

end Arena

end Typeforge
