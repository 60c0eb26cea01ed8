/-
# `Typeforge.Proofs.Types.Needs` — what JSON does not carry as it is

Whether a type needs encoding or decoding is a fact about its unfolding: some
part of it, however deep, has a codec or cannot be data at all, is a class
that must be revived or a tuple whose absent elements must be restored; and a
union is tagged both ways as soon as a part of it needs one of the two.

An arena is marked when the flags of its nodes say just that.
-/
import Typeforge.Arena.JsonNeeds
import Typeforge.Proofs.Types.Unfolding

namespace Typeforge

/-- The two ways through JSON. -/
inductive Way where
  | encode
  | decode
deriving DecidableEq

/-- Whether a node is marked as needing code on a way. -/
def Node.needs (n : Node) : Way → Bool
  | .encode => n.needsEncode
  | .decode => n.needsDecode

/-- Whether JSON carries no instance of an atom as it is. -/
def Atom.needsCode (x : Atom) : Bool := x.codec?.isSome || x.isNever

theorem Atom.codec?_canonical (x : Atom) : x.canonical.codec? = x.codec? := by
  cases x with
  | literal l => cases l <;> rfl
  | _ => rfl

theorem Atom.isNever_canonical (x : Atom) : x.canonical.isNever = x.isNever := by
  cases x <;> rfl

theorem Atom.needsCode_canonical (x : Atom) : x.canonical.needsCode = x.needsCode := by
  rw [needsCode, needsCode, codec?_canonical, isNever_canonical]

namespace TypeTree

/-- The tree of a type whose references lead nowhere. -/
def empty : TypeTree := fun _ => none

/-- Whether a type needs code on a way through JSON. -/
inductive Needs : Way → TypeTree → Prop where
  | atom {w t x} (h : t.label = some (.atom x)) (hx : x.needsCode = true) : Needs w t
  | promise {w t} (h : t.label = some .promise) : Needs w t
  | function {w t} (h : t.label = some .function) : Needs w t
  | absent {t slots rest slot} (h : t.label = some (.tuple slots rest)) (mem : slot ∈ slots)
      (habsent : slot.absent = true) : Needs .decode t
  | class {t props index name} (h : t.label = some (.object props index (some name))) :
      Needs .decode t
  | part {w t} (i : Nat) (h : Needs w (t.part i)) : Needs w t
  | union {w w' t members} (h : t.label = some (.union members)) (i : Nat)
      (needs : Needs w' (t.part i)) : Needs w t

theorem Needs.ne_empty {w : Way} {t : TypeTree} (h : t.Needs w) : t ≠ empty := by
  induction h with
  | atom h | promise h | function h | absent h | «class» h | union h =>
    rintro rfl
    cases h
  | part i _ ih =>
    rintro rfl
    exact ih rfl

/-- A union that needs code one way needs it both ways. -/
theorem Needs.of_union {w w' : Way} {t : TypeTree} {members : Nat}
    (h : t.label = some (.union members)) (needs : t.Needs w) : t.Needs w' := by
  cases needs with
  | part i hi => exact .union h i hi
  | union h' i hi => exact .union h i hi
  | atom h' | promise h' | function h' | absent h' | «class» h' =>
    rw [h] at h'
    cases h'

end TypeTree

namespace Arena

/-! ## Arenas of one structure -/

/-- Arenas whose nodes differ in their facts only. -/
structure Alike (a b : Arena) : Prop where
  size : a.size = b.size
  shape : ∀ id, (a.node id).shape = (b.node id).shape
  optional : ∀ id, (a.node id).optional = (b.node id).optional

namespace Alike

variable {a b c : Arena}

theorem refl (a : Arena) : a.Alike a := ⟨rfl, fun _ => rfl, fun _ => rfl⟩

theorem symm (h : a.Alike b) : b.Alike a :=
  ⟨h.size.symm, fun id => (h.shape id).symm, fun id => (h.optional id).symm⟩

theorem trans (h : a.Alike b) (h' : b.Alike c) : a.Alike c :=
  ⟨h.size.trans h'.size, fun id => (h.shape id).trans (h'.shape id),
    fun id => (h.optional id).trans (h'.optional id)⟩

theorem children (h : a.Alike b) (id : NodeId) : (a.node id).children = (b.node id).children :=
  congrArg Shape.children (h.shape id)

theorem acceptsNullFrom (h : a.Alike b) (fuel : Nat) (id : NodeId) (seen : List NodeId) :
    a.acceptsNullFrom fuel id seen = b.acceptsNullFrom fuel id seen := by
  induction fuel generalizing id seen with
  | zero => rfl
  | succ fuel ih =>
    have hfun : a.acceptsNullFrom fuel = b.acceptsNullFrom fuel := by
      funext id seen
      exact ih id seen
    simp only [Arena.acceptsNullFrom, h.shape id, hfun]

theorem nullMeansAbsent (h : a.Alike b) (id : NodeId) :
    a.nullMeansAbsent id = b.nullMeansAbsent id := by
  rw [Arena.nullMeansAbsent, Arena.nullMeansAbsent, acceptsNull, acceptsNull, h.acceptsNullFrom,
    h.optional, h.size]

theorem core (h : a.Alike b) (id : NodeId) : a.core id = b.core id := by
  have hstands (id : NodeId) : (a.node id).standsFor? = (b.node id).standsFor? := by
    simp only [Node.standsFor?, h.shape id]
  have hwithin (fuel : Nat) : ∀ id, a.coreWithin fuel id = b.coreWithin fuel id := by
    induction fuel with
    | zero => exact fun _ => rfl
    | succ fuel ih =>
      intro id
      simp only [coreWithin, hstands, ih]
  rw [Arena.core, Arena.core, h.size, hwithin]

theorem labelOf (h : a.Alike b) (id : NodeId) :
    a.labelOf (a.node id) = b.labelOf (b.node id) := by
  have hname : a.propertyName? = b.propertyName? := by
    funext id
    simp only [propertyName?, h.shape id]
  have hindex : a.indexFilter = b.indexFilter := by
    funext index
    simp only [indexFilter, h.shape]
  have hslot : a.slot = b.slot := by
    funext id
    rw [slot, slot, h.optional, h.nullMeansAbsent]
  have hsplit : a.splitTuple = b.splitTuple := by
    funext members
    simp only [splitTuple, h.shape]
  simp only [Arena.labelOf, h.shape id, h.optional id, hname, hindex, hslot, hsplit]

/-- Arenas of one structure have the same unfoldings. -/
theorem unfolding (h : a.Alike b) (id : NodeId) : a.unfolding id = b.unfolding id := by
  funext place
  change a.labelAlong place id = b.labelAlong place id
  induction place generalizing id with
  | nil =>
    rw [labelAlong, labelAlong, h.core]
    cases b.core id with
    | none => rfl
    | some core => exact h.labelOf core
  | cons i place ih =>
    rw [labelAlong, labelAlong, h.core]
    cases b.core id with
    | none => rfl
    | some core =>
      rw [Option.bind_some, Option.bind_some, h.children]
      cases (b.node core).children[i]? with
      | none => rfl
      | some child => exact ih child

end Alike

/-! ## Unfoldings, node by node -/

variable {a : Arena}

theorem unfolding_eq_empty {id : NodeId} (h : a.core id = none) : a.unfolding id = .empty := by
  funext place
  cases place <;> simp only [unfolding, labelAlong, h, Option.bind_none, TypeTree.empty]

theorem part_eq_empty {id : NodeId} {i : Nat} (h : (a.node id).standsFor? = none)
    (hi : (a.node id).children[i]? = none) : (a.unfolding id).part i = .empty := by
  funext place
  simp only [TypeTree.part, unfolding, labelAlong, core_of_none h, hi, Option.bind_some,
    Option.bind_none, TypeTree.empty]

theorem standsFor_of_core {id core : NodeId} (h : a.core id = some core) :
    (a.node core).standsFor? = none := by
  have hwithin (fuel : Nat) : ∀ id, a.coreWithin fuel id = some core →
      (a.node core).standsFor? = none := by
    induction fuel with
    | zero => exact fun _ h => nomatch h
    | succ fuel ih =>
      intro id h
      cases hchild : (a.node id).standsFor? with
      | none =>
        rw [coreWithin_succ_of_none _ hchild] at h
        cases h
        exact hchild
      | some child => exact ih child (by rwa [coreWithin_succ_of_standsFor _ hchild] at h)
  exact hwithin _ id h

theorem unfolding_core {id core : NodeId} (h : a.core id = some core) :
    a.unfolding id = a.unfolding core :=
  unfolding_eq_of_core (by rw [h, core_of_none (standsFor_of_core h)])

/-- A label is seen at the core of a node. -/
theorem exists_core_of_label {id : NodeId} {l : Label} (h : (a.unfolding id).label = some l) :
    ∃ core, a.core id = some core ∧ a.labelOf (a.node core) = some l := by
  cases hcore : a.core id with
  | none =>
    rw [unfolding_eq_empty hcore] at h
    cases h
  | some core =>
    rw [unfolding_core hcore, label_unfolding (standsFor_of_core hcore)] at h
    exact ⟨core, rfl, h⟩

/-- A part of a type is the type of a child of the node's core. -/
theorem exists_child_of_part {id : NodeId} {i : Nat} (h : (a.unfolding id).part i ≠ .empty) :
    ∃ core child, a.core id = some core ∧ (a.node core).children[i]? = some child ∧
      (a.unfolding id).part i = a.unfolding child := by
  cases hcore : a.core id with
  | none =>
    rw [unfolding_eq_empty hcore] at h
    exact absurd rfl h
  | some core =>
    have hself := standsFor_of_core hcore
    rw [unfolding_core hcore] at h ⊢
    cases hchild : (a.node core).children[i]? with
    | none => exact absurd (part_eq_empty hself hchild) h
    | some child => exact ⟨core, child, rfl, hchild, part_unfolding hself hchild⟩

section Labels

variable {n : Node}

theorem shape_of_atom {y : Atom} (h : a.labelOf n = some (.atom y)) :
    ∃ x, n.shape = .atom x ∧ x.canonical = y := by
  cases hshape : n.shape <;> simp only [labelOf, hshape, Option.some.injEq, Label.atom.injEq,
    reduceCtorEq] at h
  exact ⟨_, rfl, h⟩

theorem shape_of_array (h : a.labelOf n = some .array) : ∃ item, n.shape = .array item := by
  cases hshape : n.shape <;> simp only [labelOf, hshape, Option.some.injEq, reduceCtorEq] at h
  exact ⟨_, rfl⟩

theorem shape_of_property {name : String} {optional : Bool}
    (h : a.labelOf n = some (.property name optional)) :
    ∃ child, n.shape = .property name child ∧ n.optional = optional := by
  cases hshape : n.shape <;> simp only [labelOf, hshape, Option.some.injEq, Label.property.injEq,
    reduceCtorEq] at h
  obtain ⟨rfl, hoptional⟩ := h
  exact ⟨_, rfl, hoptional⟩

theorem shape_of_promise (h : a.labelOf n = some .promise) : ∃ id, n.shape = .promise id := by
  cases hshape : n.shape <;> simp only [labelOf, hshape, Option.some.injEq, reduceCtorEq] at h
  exact ⟨_, rfl⟩

theorem shape_of_function (h : a.labelOf n = some .function) : ∃ f, n.shape = .function f := by
  cases hshape : n.shape <;> simp only [labelOf, hshape, Option.some.injEq, reduceCtorEq] at h
  exact ⟨_, rfl⟩

theorem shape_of_object {props : List (Option String)} {index : Option KeyFilter}
    {className : Option String} (h : a.labelOf n = some (.object props index className)) :
    ∃ ids id, n.shape = .object ids id className ∧ ids.map a.propertyName? = props ∧
      (a.indexFilter id).map (·.2) = index := by
  cases hshape : n.shape <;> simp only [labelOf, hshape, Option.some.injEq, Label.object.injEq,
    reduceCtorEq] at h
  obtain ⟨hprops, hindex, rfl⟩ := h
  exact ⟨_, _, rfl, hprops, hindex⟩

theorem shape_of_tuple {slots : List Slot} {rest : Bool}
    (h : a.labelOf n = some (.tuple slots rest)) :
    ∃ members, n.shape = .tuple members ∧ (a.splitTuple members).1.map a.slot = slots ∧
      (a.splitTuple members).2.isSome = rest := by
  cases hshape : n.shape <;> simp only [labelOf, hshape, Option.some.injEq, Label.tuple.injEq,
    reduceCtorEq] at h
  exact ⟨_, rfl, h.1, h.2⟩

theorem shape_of_union {members : Nat} (h : a.labelOf n = some (.union members)) :
    ∃ ids, n.shape = .union ids ∧ ids.length = members := by
  cases hshape : n.shape <;> simp only [labelOf, hshape, Option.some.injEq, Label.union.injEq,
    reduceCtorEq] at h
  exact ⟨_, rfl, h⟩

end Labels

/-! ## Marks -/

/-- The flags of nodes say what their types need. -/
def Marked (a : Arena) : Prop :=
  ∀ id w, (a.node id).needs w = true ↔ (a.unfolding id).Needs w

/-- What a node needs as far as its children are known. -/
def need (a : Arena) (n : Node) : Way → Bool
  | .encode => (a.jsonNeeds n).1
  | .decode => (a.jsonNeeds n).2

/-- Why a node needs code on a way. -/
inductive Reason (a : Arena) (n : Node) : Way → Prop where
  | atom {w x} (h : n.shape = .atom x) (hx : x.needsCode = true) : Reason a n w
  | promise {w id} (h : n.shape = .promise id) : Reason a n w
  | function {w f} (h : n.shape = .function f) : Reason a n w
  | absent {members id} (h : n.shape = .tuple members) (mem : id ∈ members)
      (habsent : a.nullMeansAbsent id = true) : Reason a n .decode
  | class {props index name} (h : n.shape = .object props index (some name)) : Reason a n .decode
  | child {w id} (mem : id ∈ n.children) (h : (a.node id).needs w = true) : Reason a n w
  | union {w w' members id} (h : n.shape = .union members) (mem : id ∈ members)
      (needs : (a.node id).needs w' = true) : Reason a n w

theorem need_iff {n : Node} {w : Way} : a.need n w = true ↔ a.Reason n w := by
  have hchild (w : Way) : (n.children.any fun c => (a.node c).needs w) = true ↔
      ∃ id ∈ n.children, (a.node id).needs w = true := List.any_eq_true
  have hencode := hchild .encode
  have hdecode := hchild .decode
  simp only [Node.needs] at hencode hdecode
  constructor
  · intro h
    cases hshape : n.shape with
    | atom x =>
      refine .atom hshape ?_
      cases w <;> simpa only [need, jsonNeeds, hshape, Atom.needsCode] using h
    | promise id => exact .promise hshape
    | function f => exact .function hshape
    | tuple members =>
      cases w with
      | encode =>
        obtain ⟨id, hid, hneeds⟩ := hencode.mp (by simpa only [need, jsonNeeds, hshape] using h)
        exact .child hid hneeds
      | decode =>
        have h : (n.children.any fun c => (a.node c).needsDecode) = true ∨
            members.any a.nullMeansAbsent = true := by
          simpa only [need, jsonNeeds, hshape, Bool.or_eq_true] using h
        rcases h with h | h
        · obtain ⟨id, hid, hneeds⟩ := hdecode.mp h
          exact .child hid hneeds
        · obtain ⟨id, hid, habsent⟩ := List.any_eq_true.mp h
          exact .absent hshape hid habsent
    | object props index className =>
      cases w with
      | encode =>
        obtain ⟨id, hid, hneeds⟩ := hencode.mp (by simpa only [need, jsonNeeds, hshape] using h)
        exact .child hid hneeds
      | decode =>
        have h : (n.children.any fun c => (a.node c).needsDecode) = true ∨
            className.isSome = true := by
          simpa only [need, jsonNeeds, hshape, Bool.or_eq_true] using h
        rcases h with h | h
        · obtain ⟨id, hid, hneeds⟩ := hdecode.mp h
          exact .child hid hneeds
        · obtain ⟨name, rfl⟩ := Option.isSome_iff_exists.mp h
          exact .class hshape
    | union members =>
      have hmembers : n.children = members := by rw [Node.children, hshape, Shape.children]
      have h : (n.children.any fun c => (a.node c).needsEncode) = true ∨
          (n.children.any fun c => (a.node c).needsDecode) = true := by
        cases w <;> simpa only [need, jsonNeeds, hshape, Bool.or_eq_true] using h
      rcases h with h | h
      · obtain ⟨id, hid, hneeds⟩ := hencode.mp h
        have hneeds : (a.node id).needs .encode = true := hneeds
        exact .union hshape (hmembers ▸ hid) hneeds
      · obtain ⟨id, hid, hneeds⟩ := hdecode.mp h
        have hneeds : (a.node id).needs .decode = true := hneeds
        exact .union hshape (hmembers ▸ hid) hneeds
    | array _ | property _ _ | tupleMember _ | indexSignature _ _ | rest _ | parameter _ _ _ =>
      cases w with
      | encode =>
        obtain ⟨id, hid, hneeds⟩ := hencode.mp (by simpa only [need, jsonNeeds, hshape] using h)
        exact .child hid hneeds
      | decode =>
        obtain ⟨id, hid, hneeds⟩ := hdecode.mp (by simpa only [need, jsonNeeds, hshape] using h)
        exact .child hid hneeds
  · intro h
    cases h with
    | atom h hx => cases w <;> simpa only [need, jsonNeeds, h, Atom.needsCode] using hx
    | promise h | function h => cases w <;> simp only [need, jsonNeeds, h]
    | absent h mem habsent =>
      simp only [need, jsonNeeds, h, Bool.or_eq_true]
      exact .inr (List.any_eq_true.mpr ⟨_, mem, habsent⟩)
    | «class» h => simp only [need, jsonNeeds, h, Option.isSome_some, Bool.or_true]
    | @union _ w' members id h mem needs =>
      have hid : id ∈ n.children := by rwa [Node.children, h, Shape.children]
      have hany : (n.children.any fun c => (a.node c).needsEncode) = true ∨
          (n.children.any fun c => (a.node c).needsDecode) = true := by
        cases w' with
        | encode => exact .inl (hencode.mpr ⟨id, hid, needs⟩)
        | decode => exact .inr (hdecode.mpr ⟨id, hid, needs⟩)
      cases w <;> simpa only [need, jsonNeeds, h, Bool.or_eq_true] using hany
    | child mem hneeds =>
      cases w with
      | encode =>
        have h := hencode.mpr ⟨_, mem, hneeds⟩
        cases hshape : n.shape <;>
          simp only [need, jsonNeeds, hshape, h, Bool.true_or]
        simp only [Node.children, hshape, Shape.children, List.not_mem_nil] at mem
      | decode =>
        have h := hdecode.mpr ⟨_, mem, hneeds⟩
        cases hshape : n.shape <;>
          simp only [need, jsonNeeds, hshape, h, Bool.true_or, Bool.or_true]
        simp only [Node.children, hshape, Shape.children, List.not_mem_nil] at mem

end Arena

end Typeforge
