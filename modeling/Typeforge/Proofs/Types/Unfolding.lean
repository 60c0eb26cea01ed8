/-
# `Typeforge.Proofs.Types.Unfolding` — the unfolded types of an arena's nodes

Some nodes only give a place to another type: a member of a tuple, its rest,
the index signature of an object, a parameter.  As types they stand for that
other type, and the unfolding passes through them.  A chain of such nodes that
leads back to itself stands for nothing.

Main facts: a node that stands for another has its unfolding; at any other
node the unfolding shows the label of the node, and its parts are the
unfoldings of the children.
-/
import Mathlib.Combinatorics.Pigeonhole
import Typeforge.Compile.Checks
import Typeforge.Proofs.Types.Tree

namespace Typeforge

/-! ## Nodes that stand for others -/

/-- The node that a node stands for, if it only gives a place to it. -/
def Node.standsFor? (n : Node) : Option NodeId :=
  match n.shape with
  | .tupleMember child | .indexSignature _ child | .rest child | .parameter _ child _ => some child
  | _ => none

namespace Arena

variable (a : Arena)

/-- The node at the end of a chain of nodes that stand for one another; none when the chain is
longer than the bound. -/
def coreWithin : Nat → NodeId → Option NodeId
  | 0, _ => none
  | fuel + 1, id =>
    match (a.node id).standsFor? with
    | some child => coreWithin fuel child
    | none => some id

/-- The node at the end of the chain of nodes that begins with a node. -/
def core (id : NodeId) : Option NodeId := a.coreWithin (a.size + 1) id

/-- The next node of a chain; the last one stays. -/
def chainStep (id : NodeId) : NodeId := ((a.node id).standsFor?).getD id

variable {a}

theorem coreWithin_succ_of_standsFor {id child : NodeId} (k : Nat)
    (h : (a.node id).standsFor? = some child) :
    a.coreWithin (k + 1) id = a.coreWithin k child := by
  simp only [coreWithin, h]

theorem coreWithin_succ_of_none {id : NodeId} (k : Nat) (h : (a.node id).standsFor? = none) :
    a.coreWithin (k + 1) id = some id := by
  simp only [coreWithin, h]

/-- A node that stands for another is a node of the arena. -/
theorem index_lt_size {id : NodeId} (h : (a.node id).standsFor? ≠ none) : id.index < a.size := by
  by_contra hlt
  apply h
  have : a.node id = default := by
    simp only [Arena.node, Array.getD_eq_getD_getElem?]
    rw [Array.getElem?_eq_none (Nat.le_of_not_lt hlt)]
    rfl
  rw [this]
  rfl

/-- Along a chain, the bound is used up node by node. -/
theorem coreWithin_add {i : Nat} (k : Nat) {id : NodeId}
    (h : ∀ j < i, (a.node (a.chainStep^[j] id)).standsFor? ≠ none) :
    a.coreWithin (i + k) id = a.coreWithin k (a.chainStep^[i] id) := by
  induction i generalizing id with
  | zero => rw [Nat.zero_add, Function.iterate_zero, id_eq]
  | succ i ih =>
    obtain ⟨child, hchild⟩ := Option.ne_none_iff_exists'.mp (h 0 (Nat.succ_pos i))
    rw [Function.iterate_zero, id_eq] at hchild
    have hstep : a.chainStep id = child := by simp only [chainStep, hchild, Option.getD_some]
    rw [Nat.add_right_comm, coreWithin_succ_of_standsFor _ hchild, Function.iterate_succ_apply,
      hstep]
    refine ih fun j hj => ?_
    have := h (j + 1) (Nat.succ_lt_succ hj)
    rwa [Function.iterate_succ_apply, hstep] at this

/-- A larger bound finds the same node. -/
theorem coreWithin_mono {k m : Nat} {id d : NodeId} (h : a.coreWithin k id = some d)
    (hkm : k ≤ m) : a.coreWithin m id = some d := by
  induction k generalizing m id with
  | zero => cases h
  | succ k ih =>
    obtain ⟨m, rfl⟩ : ∃ m', m = m' + 1 := ⟨m - 1, by omega⟩
    cases hchild : (a.node id).standsFor? with
    | none => rwa [coreWithin_succ_of_none _ hchild] at h ⊢
    | some child =>
      rw [coreWithin_succ_of_standsFor _ hchild] at h ⊢
      exact ih h (Nat.le_of_succ_le_succ hkm)

/-- Within the least bound that is enough, all nodes before the last stand for others. -/
theorem standsFor_of_minimal {k : Nat} {id : NodeId}
    (minimal : ∀ j < k, a.coreWithin j id = none) :
    ∀ j, j + 1 < k → (a.node (a.chainStep^[j] id)).standsFor? ≠ none := by
  intro j
  induction j using Nat.strong_induction_on with
  | _ j ih =>
    intro hj hnone
    have hend := coreWithin_add 1 fun i hi => ih i hi (by omega)
    rw [coreWithin_succ_of_none 0 hnone, minimal (j + 1) hj] at hend
    cases hend

/-- The least bound that is enough is no larger than the arena: a longer chain would come back to
one of its nodes, and could be cut short there. -/
theorem minimal_le_size {k : Nat} {id d : NodeId} (h : a.coreWithin k id = some d)
    (minimal : ∀ j < k, a.coreWithin j id = none) : k ≤ a.size + 1 := by
  by_contra hk
  have chain := standsFor_of_minimal minimal
  obtain ⟨i, hi, j, hj, hne, heq⟩ := Finset.exists_ne_map_eq_of_card_lt_of_maps_to
    (s := Finset.range (a.size + 1)) (t := Finset.range a.size)
    (f := fun j => (a.chainStep^[j] id).index) (by simp) (by
      intro j hj
      have hj := Finset.mem_range.mp (Finset.mem_coe.mp hj)
      exact Finset.mem_coe.mpr (Finset.mem_range.mpr (index_lt_size (chain j (by omega)))))
  rw [Finset.mem_range] at hi hj
  have hsame : a.chainStep^[i] id = a.chainStep^[j] id := congrArg NodeId.mk heq
  wlog hij : i < j generalizing i j
  · exact this j hj i hi hne.symm heq.symm hsame.symm (by omega)
  have hlong := coreWithin_add (k - j) fun m (hm : m < j) => chain m (by omega)
  have hshort := coreWithin_add (k - j) fun m (hm : m < i) => chain m (by omega)
  rw [hsame, ← hlong, Nat.add_sub_cancel' (by omega), h, minimal _ (by omega)] at hshort
  cases hshort

/-- The bound of the core is enough for every chain that ends. -/
theorem core_eq_some_iff {id d : NodeId} :
    a.core id = some d ↔ ∃ k, a.coreWithin k id = some d := by
  refine ⟨fun h => ⟨_, h⟩, fun ⟨k, hk⟩ => ?_⟩
  classical
  have hex : ∃ k, a.coreWithin k id = some d := ⟨k, hk⟩
  refine coreWithin_mono (Nat.find_spec hex) (minimal_le_size (Nat.find_spec hex) ?_)
  intro j hj
  by_contra hne
  obtain ⟨e, he⟩ := Option.ne_none_iff_exists'.mp hne
  have hde := coreWithin_mono he (Nat.le_of_lt hj)
  rw [Nat.find_spec hex] at hde
  cases hde
  exact Nat.find_min hex hj he

/-- A node that stands for another has its core. -/
theorem core_of_standsFor {id child : NodeId} (h : (a.node id).standsFor? = some child) :
    a.core id = a.core child := by
  refine Option.ext fun d => ?_
  rw [core_eq_some_iff, core_eq_some_iff]
  constructor
  · rintro ⟨k, hk⟩
    refine ⟨k, ?_⟩
    have := coreWithin_mono hk (Nat.le_succ k)
    rwa [coreWithin_succ_of_standsFor _ h] at this
  · rintro ⟨k, hk⟩
    exact ⟨k + 1, by rwa [coreWithin_succ_of_standsFor _ h]⟩

/-- Any other node is its own core. -/
theorem core_of_none {id : NodeId} (h : (a.node id).standsFor? = none) : a.core id = some id :=
  coreWithin_succ_of_none _ h

/-! ## Labels and unfoldings -/

variable (a)

/-- The name of a property node. -/
def propertyName? (id : NodeId) : Option String :=
  match (a.node id).shape with
  | .property name _ => some name
  | _ => none

theorem propertyName?_of_standsFor {a : Arena} {id child : NodeId}
    (h : (a.node id).standsFor? = some child) : a.propertyName? id = none := by
  unfold propertyName?
  split
  · rename_i hshape
    simp only [Node.standsFor?, hshape, reduceCtorEq] at h
  · rfl

def slot (id : NodeId) : Slot := ⟨(a.node id).optional, a.nullMeansAbsent id⟩

/-- What stands at a node; one that stands for another has no label of its own. -/
def labelOf (n : Node) : Option Label :=
  match n.shape with
  | .atom x => some (.atom x.canonical)
  | .array _ => some .array
  | .property name _ => some (.property name n.optional)
  | .tupleMember _ | .indexSignature _ _ | .rest _ | .parameter _ _ _ => none
  | .promise _ => some .promise
  | .object props index className =>
    some (.object (props.map a.propertyName?) ((a.indexFilter index).map (·.2)) className)
  | .tuple members =>
    some (.tuple ((a.splitTuple members).1.map a.slot) (a.splitTuple members).2.isSome)
  | .union members => some (.union members.length)
  | .function _ => some .function

/-- The label at a place below a node. -/
def labelAlong : List Nat → NodeId → Option Label
  | [], id => (a.core id).bind fun core => a.labelOf (a.node core)
  | i :: place, id =>
    (a.core id).bind fun core => (a.node core).children[i]?.bind (labelAlong place)

/-- The unfolded type of a node. -/
def unfolding (id : NodeId) : TypeTree := fun place => a.labelAlong place id

/-- Nodes with one identity have one unfolded type. -/
def Faithful : Prop :=
  ∀ m n : NodeId, (a.node m).identity = (a.node n).identity → a.unfolding m = a.unfolding n

/-- Nodes with one identity have one unfolded type, in whichever of some arenas they are. -/
def FaithfulAmong (arenas : Set Arena) : Prop :=
  ∀ a ∈ arenas, ∀ b ∈ arenas, ∀ m n : NodeId, (a.node m).identity = (b.node n).identity →
    a.unfolding m = b.unfolding n

variable {a}

theorem FaithfulAmong.faithful {arenas : Set Arena} (h : FaithfulAmong arenas) (ha : a ∈ arenas) :
    a.Faithful := h a ha a ha

/-- An arena alone. -/
theorem Faithful.among (h : a.Faithful) : FaithfulAmong {a} := by
  rintro _ rfl _ rfl
  exact h

theorem unfolding_eq_of_core {m n : NodeId} (h : a.core m = a.core n) :
    a.unfolding m = a.unfolding n := by
  funext place
  cases place <;> simp only [unfolding, labelAlong, h]

theorem unfolding_of_standsFor {id child : NodeId} (h : (a.node id).standsFor? = some child) :
    a.unfolding id = a.unfolding child :=
  unfolding_eq_of_core (core_of_standsFor h)

theorem label_unfolding {id : NodeId} (h : (a.node id).standsFor? = none) :
    (a.unfolding id).label = a.labelOf (a.node id) := by
  simp only [TypeTree.label, unfolding, labelAlong, core_of_none h, Option.bind_some]

theorem part_unfolding {id child : NodeId} {i : Nat} (h : (a.node id).standsFor? = none)
    (hi : (a.node id).children[i]? = some child) :
    (a.unfolding id).part i = a.unfolding child := by
  funext place
  simp only [TypeTree.part, unfolding, labelAlong, core_of_none h, hi, Option.bind_some]

/-! ## What the unfolding of a node asks -/

section Facets

variable {t : TypeTree} {ids : List NodeId}

/-- The parts of a tree are the unfoldings of nodes. -/
def PartsOf (a : Arena) (t : TypeTree) (ids : List NodeId) : Prop :=
  ∀ i id, ids[i]? = some id → t.part i = a.unfolding id

theorem partsOf_unfolding {id : NodeId} (h : (a.node id).standsFor? = none) :
    a.PartsOf (a.unfolding id) (a.node id).children := fun _ _ hi => part_unfolding h hi

theorem PartsOf.append_left {others : List NodeId} (h : a.PartsOf t (ids ++ others)) :
    a.PartsOf t ids := by
  intro i id hi
  refine h i id ?_
  rwa [List.getElem?_append_left (List.getElem?_eq_some_iff.mp hi).1]

theorem PartsOf.append_singleton {last : NodeId} (h : a.PartsOf t (ids ++ [last])) :
    t.part ids.length = a.unfolding last := h _ _ (List.getElem?_concat_length ..)

theorem PartsOf.mem_zipIdx (h : a.PartsOf t ids) {id : NodeId} {i : Nat}
    (hmem : (id, i) ∈ ids.zipIdx) : t.part i = a.unfolding id :=
  h i id (List.mem_zipIdx_iff_getElem?.mp hmem)

theorem PartsOf.map_range (h : a.PartsOf t ids) :
    (List.range ids.length).map t.part = ids.map a.unfolding := by
  refine List.ext_getElem (by simp) fun i hi hi' => ?_
  rw [List.getElem_map, List.getElem_map, List.getElem_range]
  exact h i _ (List.getElem?_eq_getElem _)

theorem label_of_array {id item : NodeId} (h : (a.node id).shape = .array item) :
    (a.unfolding id).label = some .array ∧ (a.unfolding id).part 0 = a.unfolding item := by
  have hself : (a.node id).standsFor? = none := by simp only [Node.standsFor?, h]
  refine ⟨?_, part_unfolding hself (by simp only [Node.children, h, Shape.children]; rfl)⟩
  rw [label_unfolding hself, labelOf, h]

theorem label_of_property {id child : NodeId} {name : String}
    (h : (a.node id).shape = .property name child) :
    (a.unfolding id).label = some (.property name (a.node id).optional) ∧
      (a.unfolding id).part 0 = a.unfolding child := by
  have hself : (a.node id).standsFor? = none := by simp only [Node.standsFor?, h]
  refine ⟨?_, part_unfolding hself (by simp only [Node.children, h, Shape.children]; rfl)⟩
  rw [label_unfolding hself, labelOf, h]

theorem label_of_union {id : NodeId} {members : List NodeId}
    (h : (a.node id).shape = .union members) :
    (a.unfolding id).label = some (.union members.length) ∧
      (List.range members.length).map (a.unfolding id).part = members.map a.unfolding := by
  have hself : (a.node id).standsFor? = none := by simp only [Node.standsFor?, h]
  have hparts := partsOf_unfolding hself
  simp only [Node.children, h, Shape.children] at hparts
  refine ⟨?_, hparts.map_range⟩
  rw [label_unfolding hself, labelOf, h]

theorem properties_eq (ids : List NodeId) :
    a.properties ids = ids.filterMap fun id =>
      (a.propertyName? id).map fun name => ⟨id, name, (a.node id).optional⟩ := by
  unfold properties propertyName?
  congr 1
  funext id
  cases (a.node id).shape <;> rfl

theorem propertyNames_map (ids : List NodeId) :
    TypeTree.propertyNames (ids.map a.propertyName?) = Compile.declaredNames (a.properties ids) := by
  rw [properties_eq, Compile.declaredNames, TypeTree.propertyNames, List.filterMap_map,
    List.map_filterMap]
  congr 1
  funext id
  cases h : a.propertyName? id <;> simp [h]

theorem isOptional_unfolding {id : NodeId} {name : String} (h : a.propertyName? id = some name) :
    (a.unfolding id).isOptional = (a.node id).optional := by
  unfold propertyName? at h
  split at h
  · rename_i child hshape
    have hself : (a.node id).standsFor? = none := by simp only [Node.standsFor?, hshape]
    simp only [TypeTree.isOptional, label_unfolding hself, labelOf, hshape]
  · cases h

/-- The properties of an unfolded object are those of its node. -/
theorem PartsOf.properties (h : a.PartsOf t ids) :
    t.properties (ids.map a.propertyName?) =
      (a.properties ids).map fun p => ⟨p.name, p.optional, a.unfolding p.id⟩ := by
  have hparts : ∀ x ∈ ids.zipIdx,
      ((a.propertyName? x.1).map fun name =>
        (⟨name, (t.part x.2).isOptional, t.part x.2⟩ : TypeTree.Property)) =
      (a.propertyName? x.1).map fun name => ⟨name, (a.node x.1).optional, a.unfolding x.1⟩ := by
    intro x hx
    cases hname : a.propertyName? x.1 with
    | none => rfl
    | some name => rw [Option.map_some, Option.map_some, h.mem_zipIdx hx, isOptional_unfolding hname]
  calc t.properties (ids.map a.propertyName?)
    _ = ids.zipIdx.filterMap fun x => (a.propertyName? x.1).map fun name =>
          ⟨name, (t.part x.2).isOptional, t.part x.2⟩ := by
        rw [TypeTree.properties, List.zipIdx_map, List.filterMap_map]
        rfl
    _ = ids.zipIdx.filterMap fun x => (a.propertyName? x.1).map fun name =>
          ⟨name, (a.node x.1).optional, a.unfolding x.1⟩ := List.filterMap_congr hparts
    _ = (ids.zipIdx.map Prod.fst).filterMap fun id => (a.propertyName? id).map fun name =>
          ⟨name, (a.node id).optional, a.unfolding id⟩ := by
        rw [List.filterMap_map]
        rfl
    _ = (a.properties ids).map fun p => ⟨p.name, p.optional, a.unfolding p.id⟩ := by
        rw [List.zipIdx_map_fst, properties_eq, List.map_filterMap]
        congr 1
        funext id
        cases a.propertyName? id <;> rfl

/-- The fixed positions of an unfolded tuple are those of its node. -/
theorem PartsOf.positions (h : a.PartsOf t ids) :
    t.positions (ids.map a.slot) =
      ids.zipIdx.map fun x => ⟨a.slot x.1, x.2, a.unfolding x.1⟩ := by
  rw [TypeTree.positions, List.zipIdx_map, List.map_map]
  refine List.map_congr_left fun x hx => ?_
  simp only [Function.comp_apply, Prod.map_fst, Prod.map_snd, id_eq, h.mem_zipIdx hx]

theorem splitTuple_append (members : List NodeId) :
    (a.splitTuple members).1 ++ (a.splitTuple members).2.toList = members := by
  unfold splitTuple
  split
  · rename_i last hlast
    split
    · exact List.dropLast_append_getLast? last hlast
    · exact List.append_nil members
  · exact List.append_nil members

theorem eq_some_of_indexFilter {index : Option NodeId} {x : NodeId × KeyFilter}
    (h : a.indexFilter index = some x) : index = some x.1 := by
  obtain ⟨id, rfl, hid⟩ := Option.bind_eq_some_iff.mp h
  split at hid
  · cases hid
    rfl
  · cases hid

theorem shape_of_indexFilter {index : Option NodeId} {id : NodeId} {filter : KeyFilter}
    (h : a.indexFilter index = some (id, filter)) :
    ∃ child, (a.node id).shape = .indexSignature filter child := by
  obtain ⟨id, rfl, hid⟩ := Option.bind_eq_some_iff.mp h
  split at hid
  · rename_i child hshape
    cases hid
    exact ⟨child, hshape⟩
  · cases hid

variable {id : NodeId} {v : Value}

theorem facet_atom {x : Atom} (h : (a.node id).shape = .atom x) :
    (a.unfolding id).facet v = .guarded (x.holds v) x.expected [] := by
  have hself : (a.node id).standsFor? = none := by simp only [Node.standsFor?, h]
  simp only [TypeTree.facet, label_unfolding hself, labelOf, h, x.holds_canonical,
    x.expected_canonical]

theorem facet_array {item : NodeId} (h : (a.node id).shape = .array item) :
    (a.unfolding id).facet v =
      .guarded (Kind.array.holds v) "array" ((a.unfolding item).each (v.stepsFrom 0)) := by
  obtain ⟨hlabel, hpart⟩ := label_of_array h
  simp only [TypeTree.facet, hlabel, hpart]

theorem facet_property {name : String} {child : NodeId}
    (h : (a.node id).shape = .property name child) :
    (a.unfolding id).facet v =
      .all ((a.unfolding child).reached (.key name) (a.node id).optional (v.member name)) := by
  obtain ⟨hlabel, hpart⟩ := label_of_property h
  simp only [TypeTree.facet, hlabel, hpart]

theorem facet_union {members : List NodeId} (h : (a.node id).shape = .union members) :
    (a.unfolding id).facet v = .oneOf (members.map a.unfolding) := by
  obtain ⟨hlabel, hparts⟩ := label_of_union h
  simp only [TypeTree.facet, hlabel, hparts]

/-- The demands of an object's members on the object. -/
def objectDemands (a : Arena) (props : List NodeId) (index : Option NodeId) (v : Value) :
    List Demand :=
  (a.properties props).map (fun p => ⟨[], a.unfolding p.id, v⟩) ++
    match a.indexFilter index with
    | some (id, filter) => (a.unfolding id).each
        (v.stepsCovered (filter.covers (Compile.declaredNames (a.properties props))))
    | none => []

theorem facet_object {props : List NodeId} {index : Option NodeId} {className : Option String}
    (h : (a.node id).shape = .object props index className) :
    (a.unfolding id).facet v = .guarded (Kind.object.holds v) (className.getD "object")
      (a.objectDemands props index v) := by
  have hself : (a.node id).standsFor? = none := by simp only [Node.standsFor?, h]
  have hparts := partsOf_unfolding hself
  simp only [Node.children, h, Shape.children] at hparts
  simp only [TypeTree.facet, label_unfolding hself, labelOf, h, objectDemands,
    TypeTree.declaredDemands, hparts.append_left.properties, List.map_map]
  cases hindex : a.indexFilter index with
  | none => rfl
  | some x =>
    obtain rfl := eq_some_of_indexFilter hindex
    have hpart : (a.unfolding id).part (props.map a.propertyName?).length = a.unfolding x.1 := by
      rw [List.length_map]
      exact hparts.append_singleton
    simp only [TypeTree.indexDemands, Option.map_some, hpart, propertyNames_map]
    rfl

/-- The demands of a tuple's members. -/
def tupleDemands (a : Arena) (members : List NodeId) (v : Value) : List Demand :=
  ((a.splitTuple members).1.zipIdx.flatMap fun x =>
      (a.unfolding x.1).reached (.index x.2) (a.node x.1).optional (v.element x.2)) ++
    match (a.splitTuple members).2 with
    | some id => (a.unfolding id).each (v.stepsFrom (a.splitTuple members).1.length)
    | none => []

theorem facet_tuple {members : List NodeId} (h : (a.node id).shape = .tuple members) :
    (a.unfolding id).facet v = .guarded
      (Kind.array.holds v &&
        ((a.splitTuple members).2.isSome || v.fits (a.splitTuple members).1.length))
      "tuple" (a.tupleDemands members v) := by
  have hself : (a.node id).standsFor? = none := by simp only [Node.standsFor?, h]
  have hparts := partsOf_unfolding hself
  simp only [Node.children, h, Shape.children] at hparts
  rw [← splitTuple_append (a := a) members] at hparts
  simp only [TypeTree.facet, label_unfolding hself, labelOf, h, tupleDemands,
    TypeTree.slotDemands, hparts.append_left.positions, List.flatMap_map, TypeTree.tupleFits,
    List.length_map]
  cases hrest : (a.splitTuple members).2 with
  | none => rfl
  | some last =>
    rw [hrest] at hparts
    simp only [TypeTree.restDemands, List.length_map, hparts.append_singleton, Option.isSome_some,
      if_true]
    rfl

end Facets

end Arena

end Typeforge
