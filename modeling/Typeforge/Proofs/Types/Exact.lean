/-
# `Typeforge.Proofs.Types.Exact` — exact instances, and types that JSON can carry

A test is lenient: it accepts members that an object does not declare, and an
element left out that is there as undefined.  A value that is to come back from
JSON as it was has to be an instance in a stricter sense, at all depths: only
what the type declares, plain data where the type says nothing, and in a union
an exact instance of the very member that the encoder will choose, which is the
first one that accepts the value.

The types are to keep to some rules as well.  Lowering takes nodes that stand for
others wherever it meets them; here they stand in tuples, objects and functions
only.  Then null in an optional position of a tuple is an instance of the
position's type exactly when `Arena.acceptsNull` says so.
-/
import Typeforge.Proofs.Documents.Carried
import Typeforge.Proofs.Types.Deciding
import Typeforge.Proofs.Types.Orderly
import Typeforge.Proofs.Unions

namespace Typeforge

/-! ## Atoms -/

namespace Atom

/-- Whether an atom says nothing of what is inside its instances. -/
def isUntyped : Atom → Bool
  | any | unknown | object => true
  | _ => false

/-- Whether JSON keeps an instance: where the atom says nothing it is plain data, and where a codec
carries it, it is what the codec carries. -/
def keeps (x : Atom) (v : Value) : Bool :=
  (!x.isUntyped || v.isData) && x.codec?.all (·.carries v)

/-- Whether an atom has only such literals as JSON has, or as codecs carry. -/
def isPortable : Atom → Bool
  | literal l => l.codec?.isSome || l.toValue.isData
  | enumeration members => members.all fun m => m.2.toValue.isData
  | _ => true

theorem isUntyped_canonical (x : Atom) : x.canonical.isUntyped = x.isUntyped := by
  cases x <;> rfl

theorem keeps_canonical (x : Atom) (v : Value) : x.canonical.keeps v = x.keeps v := by
  rw [keeps, keeps, isUntyped_canonical, codec?_canonical]

end Atom

theorem Literal.isData_of_accepts {l : Literal} {v : Value} (h : l.accepts v = true)
    (data : l.toValue.isData = true) : v.isData = true := by
  cases l <;> cases v <;> first | cases h | rfl | cases data | skip
  rename_i x y
  rcases Binary.eq_or_zeros_of_beq h with ⟨rfl, -⟩ | ⟨-, b, r, hy⟩
  · exact data
  · exact (Binary.isFinite_eq y).mpr ⟨b, 0, r, hy⟩

namespace Atom

/-- An instance that no codec carries is plain data. -/
theorem isData_of_keeps {x : Atom} {v : Value} (portable : x.isPortable = true)
    (holds : x.holds v = true) (keeps : x.keeps v = true) (uncarried : x.codec? = none) :
    v.isData = true := by
  cases hopen : x.isUntyped with
  | true =>
    rw [Atom.keeps, hopen, Bool.not_true, Bool.false_or] at keeps
    exact (Bool.and_eq_true_iff.mp keeps).1
  | false =>
    cases x with
    | literal l =>
      refine l.isData_of_accepts holds ?_
      rw [isPortable, show l.codec? = none from uncarried] at portable
      exact portable
    | enumeration members =>
      obtain ⟨m, hm, haccepts⟩ := List.any_eq_true.mp holds
      exact m.2.isData_of_accepts haccepts (List.all_eq_true.mp portable m hm)
    | any | unknown | object => cases hopen
    | never => exact nomatch holds
    | void | undefined | symbol | bigint | regexp | date => cases uncarried
    | string | number | boolean | null => cases v <;> first | exact holds | exact nomatch holds

end Atom

/-! ## Exact instances -/

namespace TypeTree

/-- The first of some types that a value is an instance of, the types followed down to a depth. -/
def firstOf (n : Nat) (v : Value) : List TypeTree → Option TypeTree
  | [] => none
  | u :: rest =>
    match u.judge n v with
    | some true => some u
    | some false => firstOf n v rest
    | none => none

/-- What an object has for a member of a name: whether it is optional, and its type. -/
def memberType (t : TypeTree) (props : List (Option String)) (index : Option KeyFilter)
    (name : String) : Option (Bool × TypeTree) :=
  match (t.properties props).find? (·.name = name) with
  | some p => some (p.optional, p.tree.part 0)
  | none =>
    match index with
    | some filter => if filter.accepts name then some (false, t.part props.length) else none
    | none => none

/-- What a tuple has for an element: whether it is optional, and its type. -/
def elementType (t : TypeTree) (slots : List Slot) (rest : Bool) (i : Nat) :
    Option (Bool × TypeTree) :=
  match slots[i]? with
  | some slot => some (slot.optional, t.part i)
  | none => if rest then some (false, t.part slots.length) else none

/-- Whether what a type has for a part of a value keeps the part: it is no undefined that is not to
be there, and an exact instance. -/
def keptBy (f : TypeTree → Value → Bool) (declared : Option (Bool × TypeTree)) (v : Value) : Bool :=
  declared.any fun (optional, u) => !(optional && v.isUndefined) && f u v

/-- Whether the parts of a value are exact instances, and all of them declared; a union looks for
its first member. -/
def exactParts (f : TypeTree → Value → Bool) (first : List TypeTree → Option TypeTree)
    (t : TypeTree) (v : Value) : Bool :=
  match t.label, v with
  | some (.atom x), _ => x.keeps v
  | some .array, .array items => items.all (f (t.part 0))
  | some (.object props index _), .object members =>
    members.all fun m => keptBy f (t.memberType props index m.1) m.2
  | some (.tuple slots rest), .array items =>
    items.zipIdx.all fun x => keptBy f (t.elementType slots rest x.2) x.1
  | some (.union members), _ => (first ((List.range members).map t.part)).any (f · v)
  | _, _ => false

/-- Whether a value is an exact instance of a type, the type followed down to a depth. -/
def exactly : Nat → TypeTree → Value → Bool
  | 0, _, _ => false
  | n + 1, t, v => t.judge (n + 1) v == some true && t.exactParts (exactly n) (firstOf n v) v

/-- A value that is an instance of a type, at all depths, by nothing but what the type declares. -/
def Exact (t : TypeTree) (v : Value) : Prop := ∃ n, t.exactly n v = true

variable {t : TypeTree} {v : Value}

theorem judge_of_exactly {n : Nat} (h : t.exactly n v = true) : t.judge n v = some true := by
  cases n with
  | zero => cases h
  | succ n => exact eq_of_beq (Bool.and_eq_true_iff.mp h).1

theorem firstOf_mono {n : Nat} {us : List TypeTree} {u : TypeTree}
    (h : firstOf n v us = some u) : firstOf (n + 1) v us = some u := by
  induction us with
  | nil => cases h
  | cons w rest ih =>
    rw [firstOf] at h ⊢
    cases hw : w.judge n v with
    | none =>
      rw [hw] at h
      cases h
    | some b =>
      rw [hw] at h
      rw [judge_succ n w v b hw]
      cases b with
      | true => exact h
      | false => exact ih h

theorem keptBy_mono {f g : TypeTree → Value → Bool} {declared : Option (Bool × TypeTree)}
    (h : ∀ u v, f u v = true → g u v = true) (kept : keptBy f declared v = true) :
    keptBy g declared v = true := by
  cases declared with
  | none => exact kept
  | some x =>
    obtain ⟨hpresent, hexact⟩ := Bool.and_eq_true_iff.mp kept
    exact Bool.and_eq_true_iff.mpr ⟨hpresent, h _ _ hexact⟩

theorem exactParts_mono {f g : TypeTree → Value → Bool}
    {first first' : List TypeTree → Option TypeTree} (h : ∀ u v, f u v = true → g u v = true)
    (hfirst : ∀ us u, first us = some u → first' us = some u)
    (exact : t.exactParts f first v = true) : t.exactParts g first' v = true := by
  unfold exactParts at exact ⊢
  split at exact
  · exact exact
  · rw [List.all_eq_true] at exact ⊢
    exact fun w hw => h _ w (exact w hw)
  · rw [List.all_eq_true] at exact ⊢
    exact fun m hm => keptBy_mono h (exact m hm)
  · rw [List.all_eq_true] at exact ⊢
    exact fun x hx => keptBy_mono h (exact x hx)
  · obtain ⟨u, hu, hexact⟩ := (Option.any_eq_true ..).mp exact
    exact (Option.any_eq_true ..).mpr ⟨u, hfirst _ u hu, h u _ hexact⟩
  · cases exact

theorem exactly_succ (n : Nat) (t : TypeTree) (v : Value) (h : t.exactly n v = true) :
    t.exactly (n + 1) v = true := by
  induction n generalizing t v with
  | zero => cases h
  | succ n ih =>
    obtain ⟨hjudge, hparts⟩ := Bool.and_eq_true_iff.mp h
    refine Bool.and_eq_true_iff.mpr ⟨?_, exactParts_mono ih (fun _ _ => firstOf_mono) hparts⟩
    rw [judge_succ (n + 1) t v true (eq_of_beq hjudge)]
    exact beq_self_eq_true _

theorem exactly_mono {n m : Nat} (hle : n ≤ m) (h : t.exactly n v = true) :
    t.exactly m v = true := by
  induction hle with
  | refl => exact h
  | step _ ih => exact exactly_succ _ _ _ ih

theorem needs_of_memberType {w : Way} {props : List (Option String)} {index : Option KeyFilter}
    {k : String} {optional : Bool} {u : TypeTree}
    (h : t.memberType props index k = some (optional, u)) (needs : u.Needs w) : t.Needs w := by
  unfold TypeTree.memberType at h
  split at h
  · rename_i p hp
    cases h
    obtain ⟨x, hx, hprop⟩ := List.mem_filterMap.mp (List.mem_of_find?_eq_some hp)
    obtain ⟨name, -, rfl⟩ := Option.map_eq_some_iff.mp hprop
    exact .part x.2 (.part 0 needs)
  · split at h
    · split at h
      · cases h
        exact .part _ needs
      · cases h
    · cases h

theorem needs_of_elementType {w : Way} {slots : List Slot} {rest : Bool} {i : Nat}
    {optional : Bool} {u : TypeTree} (h : t.elementType slots rest i = some (optional, u))
    (needs : u.Needs w) : t.Needs w := by
  unfold TypeTree.elementType at h
  split at h
  · cases h
    exact .part i needs
  · split at h
    · cases h
      exact .part _ needs
    · cases h

end TypeTree

/-! ## Exact instances of a node's type -/

namespace Arena

open TypeTree

variable {a : Arena} {id : NodeId} {n : Nat} {v : Value}

theorem exactParts_of_exactly (h : (a.unfolding id).exactly (n + 1) v = true) :
    (a.unfolding id).exactParts (exactly n) (firstOf n v) v = true :=
  (Bool.and_eq_true_iff.mp h).2

theorem keeps_of_exactly {x : Atom} (hshape : (a.node id).shape = .atom x)
    (h : (a.unfolding id).exactly n v = true) : x.holds v = true ∧ x.keeps v = true := by
  have hself : (a.node id).standsFor? = none := by simp only [Node.standsFor?, hshape]
  have judges := judges_of_judge (judge_of_exactly h)
  refine ⟨(judges.of_guarded (facet_atom hshape)).1, ?_⟩
  cases n with
  | zero => cases h
  | succ n =>
    have hparts := exactParts_of_exactly h
    simp only [exactParts, label_unfolding hself, labelOf, hshape] at hparts
    rwa [Atom.keeps_canonical] at hparts

theorem items_of_exactly {item : NodeId} (hshape : (a.node id).shape = .array item)
    (h : (a.unfolding id).exactly (n + 1) v = true) :
    ∃ items, v = .array items ∧ ∀ w ∈ items, (a.unfolding item).exactly n w = true := by
  obtain ⟨hlabel, hpart⟩ := label_of_array hshape
  have hparts := exactParts_of_exactly h
  cases v <;> simp only [exactParts, hlabel, Bool.false_eq_true, hpart] at hparts
  exact ⟨_, rfl, List.all_eq_true.mp hparts⟩

/-- What an object type has for a member, by its nodes. -/
theorem memberType_unfolding {props : List NodeId} {index : Option NodeId}
    {className : Option String} (hshape : (a.node id).shape = .object props index className)
    (k : String) :
    (a.unfolding id).memberType (props.map a.propertyName?) ((a.indexFilter index).map (·.2)) k =
      match (a.properties props).find? (·.name = k) with
      | some p => some (p.optional, (a.unfolding p.id).part 0)
      | none =>
        match a.indexFilter index with
        | some (value, filter) => if filter.accepts k then some (false, a.unfolding value) else none
        | none => none := by
  have hself : (a.node id).standsFor? = none := by simp only [Node.standsFor?, hshape]
  have hpartsOf := partsOf_unfolding hself
  simp only [Node.children, hshape, Shape.children] at hpartsOf
  rw [memberType.eq_def, hpartsOf.append_left.properties, List.find?_map]
  simp only [Function.comp_def]
  cases (a.properties props).find? (·.name = k) with
  | some p => rfl
  | none =>
    cases hindex : a.indexFilter index with
    | none => rfl
    | some x =>
      obtain rfl := eq_some_of_indexFilter hindex
      have hpart : (a.unfolding id).part (props.map a.propertyName?).length = a.unfolding x.1 := by
        rw [List.length_map]
        exact hpartsOf.append_singleton
      simp only [Option.map_none, Option.map_some, hpart]

/-- What an object type has for its member is the type of a node that is no property. -/
theorem exists_memberType (places : a.WellPlaced) {props : List NodeId} {index : Option NodeId}
    {className : Option String} (hshape : (a.node id).shape = .object props index className)
    {k : String} {optional : Bool} {u : TypeTree}
    (h : (a.unfolding id).memberType (props.map a.propertyName?) ((a.indexFilter index).map (·.2)) k
      = some (optional, u)) :
    ∃ child, u = a.unfolding child ∧ a.propertyName? child = none := by
  rw [memberType_unfolding hshape] at h
  cases hfound : (a.properties props).find? (·.name = k) with
  | some p =>
    obtain ⟨-, -, child, hchild⟩ := shape_of_mem_properties (List.mem_of_find?_eq_some hfound)
    simp only [hfound, Option.some.injEq, Prod.mk.injEq, (label_of_property hchild).2] at h
    exact ⟨child, h.2.symm, places.propertyName?_child hchild⟩
  | none =>
    cases hindex : a.indexFilter index with
    | none => simp only [hfound, hindex, reduceCtorEq] at h
    | some x =>
      obtain ⟨value, filter⟩ := x
      simp only [hfound, hindex, Option.ite_none_right_eq_some, Option.some.injEq,
        Prod.mk.injEq] at h
      obtain ⟨child, hchild⟩ := shape_of_indexFilter hindex
      exact ⟨value, h.2.2.symm, by rw [propertyName?, hchild]⟩

theorem members_of_exactly {props : List NodeId} {index : Option NodeId}
    {className : Option String} (hshape : (a.node id).shape = .object props index className)
    (h : (a.unfolding id).exactly (n + 1) v = true) :
    ∃ members, v = .object members ∧ ∀ m ∈ members, ∃ optional u,
      (a.unfolding id).memberType (props.map a.propertyName?) ((a.indexFilter index).map (·.2)) m.1 =
        some (optional, u) ∧ (optional && m.2.isUndefined) = false ∧ u.exactly n m.2 = true := by
  have hself : (a.node id).standsFor? = none := by simp only [Node.standsFor?, hshape]
  have hparts := exactParts_of_exactly h
  cases v <;> simp only [exactParts, label_unfolding hself, labelOf, hshape, Bool.false_eq_true]
    at hparts
  rename_i members
  refine ⟨members, rfl, fun m hm => ?_⟩
  obtain ⟨⟨optional, u⟩, hdeclared, hkept⟩ :=
    (Option.any_eq_true ..).mp (List.all_eq_true.mp hparts m hm)
  obtain ⟨present, exact⟩ := Bool.and_eq_true_iff.mp hkept
  exact ⟨optional, u, hdeclared, Bool.not_eq_true' .. |>.mp present, exact⟩

/-- What a tuple type has for an element, by its nodes. -/
theorem elementType_unfolding {tuple : List NodeId} (hshape : (a.node id).shape = .tuple tuple)
    (i : Nat) :
    (a.unfolding id).elementType ((a.splitTuple tuple).1.map a.slot) (a.splitTuple tuple).2.isSome i =
      match (a.splitTuple tuple).1[i]? with
      | some pos => some ((a.node pos).optional, a.unfolding pos)
      | none => (a.splitTuple tuple).2.map fun last => (false, a.unfolding last) := by
  have hself : (a.node id).standsFor? = none := by simp only [Node.standsFor?, hshape]
  have hpartsOf := partsOf_unfolding hself
  simp only [Node.children, hshape, Shape.children] at hpartsOf
  rw [← splitTuple_append (a := a) tuple] at hpartsOf
  rw [elementType, List.getElem?_map, List.length_map]
  cases hpos : (a.splitTuple tuple).1[i]? with
  | some pos => simp only [Option.map_some, hpartsOf.append_left i pos hpos, slot]
  | none =>
    cases hrest : (a.splitTuple tuple).2 with
    | none => rfl
    | some last =>
      rw [hrest] at hpartsOf
      simp only [Option.map_none, Option.map_some, Option.isSome_some, if_true,
        hpartsOf.append_singleton]

/-- What a tuple type has for an element is the type of a node of the tuple. -/
theorem exists_elementType {tuple : List NodeId} (hshape : (a.node id).shape = .tuple tuple)
    {i : Nat} {optional : Bool} {u : TypeTree}
    (h : (a.unfolding id).elementType ((a.splitTuple tuple).1.map a.slot)
      (a.splitTuple tuple).2.isSome i = some (optional, u)) :
    ∃ pos ∈ tuple, u = a.unfolding pos := by
  have hsplit := splitTuple_append (a := a) tuple
  rw [elementType_unfolding hshape] at h
  cases hpos : (a.splitTuple tuple).1[i]? with
  | some pos =>
    simp only [hpos, Option.some.injEq, Prod.mk.injEq] at h
    exact ⟨pos, hsplit ▸ List.mem_append_left _ (List.mem_of_getElem? hpos), h.2.symm⟩
  | none =>
    simp only [hpos, Option.map_eq_some_iff, Prod.mk.injEq] at h
    obtain ⟨last, hlast, -, rfl⟩ := h
    rw [hlast] at hsplit
    exact ⟨last, hsplit ▸ List.mem_append_right _ List.mem_cons_self, rfl⟩

theorem elements_of_exactly {tuple : List NodeId} (hshape : (a.node id).shape = .tuple tuple)
    (h : (a.unfolding id).exactly (n + 1) v = true) :
    ∃ items, v = .array items ∧ ∀ i w, items[i]? = some w → ∃ optional u,
      (a.unfolding id).elementType ((a.splitTuple tuple).1.map a.slot) (a.splitTuple tuple).2.isSome i
        = some (optional, u) ∧ (optional && w.isUndefined) = false ∧ u.exactly n w = true := by
  have hself : (a.node id).standsFor? = none := by simp only [Node.standsFor?, hshape]
  have hparts := exactParts_of_exactly h
  cases v <;> simp only [exactParts, label_unfolding hself, labelOf, hshape, Bool.false_eq_true]
    at hparts
  rename_i items
  refine ⟨items, rfl, fun i w hw => ?_⟩
  obtain ⟨⟨optional, u⟩, helement, hkept⟩ := (Option.any_eq_true ..).mp
    (List.all_eq_true.mp hparts (w, i) (List.mem_zipIdx_iff_getElem?.mpr hw))
  obtain ⟨present, exact⟩ := Bool.and_eq_true_iff.mp hkept
  exact ⟨optional, u, helement, Bool.not_eq_true' .. |>.mp present, exact⟩

theorem firstOf_eq_some {ids : List NodeId} {u : TypeTree}
    (h : firstOf n v (ids.map a.unfolding) = some u) :
    ∃ front m back, ids = front ++ m :: back ∧ a.unfolding m = u ∧
      ∀ f ∈ front, (a.unfolding f).judge n v = some false := by
  induction ids with
  | nil => cases h
  | cons m rest ih =>
    rw [List.map_cons, firstOf] at h
    cases hm : (a.unfolding m).judge n v with
    | none =>
      rw [hm] at h
      cases h
    | some b =>
      rw [hm] at h
      cases b with
      | true => exact ⟨[], m, rest, rfl, Option.some.inj h, fun _ hf => absurd hf List.not_mem_nil⟩
      | false =>
        obtain ⟨front, m', back, rfl, hu, hfront⟩ := ih h
        exact ⟨m :: front, m', back, rfl, hu, List.forall_mem_cons.mpr ⟨hm, hfront⟩⟩

theorem member_of_exactly {members : List NodeId} (hshape : (a.node id).shape = .union members)
    (h : (a.unfolding id).exactly (n + 1) v = true) :
    ∃ front m back, members = front ++ m :: back ∧ (a.unfolding m).exactly n v = true ∧
      ∀ f ∈ front, (a.unfolding f).judge n v = some false := by
  obtain ⟨hlabel, hmembers⟩ := label_of_union hshape
  have hparts := exactParts_of_exactly h
  simp only [exactParts, hlabel, hmembers] at hparts
  obtain ⟨u, hu, hexact⟩ := (Option.any_eq_true ..).mp hparts
  obtain ⟨front, m, back, hmembers, rfl, hfront⟩ := firstOf_eq_some hu
  exact ⟨front, m, back, hmembers, hexact, hfront⟩

end Arena

end Typeforge
