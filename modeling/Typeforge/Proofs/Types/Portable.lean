/-
# `Typeforge.Proofs.Types.Portable` — types that JSON can carry

Lowering takes a node wherever it meets it, and most of what is lowered makes no
sense as a type of values: an index signature may be an element, a parameter a
position of a tuple.  Types that JSON is to carry keep to the places where such
nodes belong.

One consequence is needed by the decoder, which takes a null in an optional
position of a tuple for an element left out, unless null is an instance of the
position's type.  `Arena.acceptsNull` looks for null along positions and members of
unions only, and never twice at a node; with nothing else in the way it finds null
wherever null is an instance.
-/
import Typeforge.Proofs.Types.Exact

namespace Typeforge

theorem Atom.acceptsNull_of_holds {x : Atom} (h : x.holds .null = true) :
    x.acceptsNull = true := by
  cases x with
  | null | any | unknown => rfl
  | enumeration members =>
    obtain ⟨m, -, hm⟩ := List.any_eq_true.mp h
    cases hl : m.2 <;> rw [hl] at hm <;> cases hm
  | literal l => cases l <;> cases h
  | _ => cases h

/-! ## Where nodes belong -/

/-- Whether a node of some shape belongs below a node of another. -/
def Shape.mayHold (parent child : Shape) : Bool :=
  match child, parent with
  | .property _ _, .object _ _ _ | .indexSignature _ _, .object _ _ _ => true
  | .tupleMember _, .tuple _ | .rest _, .tuple _ => true
  | .parameter _ _ _, .function _ => true
  | .property _ _, _ | .indexSignature _ _, _ | .tupleMember _, _ | .rest _, _
  | .parameter _ _ _, _ => false
  | _, _ => true

namespace Arena

/-- What it takes for the instances of types to be carried through JSON. -/
structure Carriable (a : Arena) : Prop extends WellPlaced a where
  /-- The members of a union are numbered by whole numbers that doubles tell apart. -/
  counted : ∀ id members, (a.node id).shape = .union members → members.length ≤ 2 ^ 53
  /-- Literals are such as JSON has, or as codecs carry. -/
  literals : ∀ id x, (a.node id).shape = .atom x → x.isPortable = true
  /-- Null is found where it is an instance: in an optional position of a tuple. -/
  nulls : ∀ id tuple, (a.node id).shape = .tuple tuple → ∀ pos ∈ tuple,
    (a.node pos).optional = true → ∀ n, (a.unfolding pos).judge n .null = some true →
    a.acceptsNull pos = true

/-- Types that JSON can carry. -/
structure Portable (a : Arena) : Prop extends WellPlaced a where
  /-- Nodes stand where they belong. -/
  held : ∀ id, ∀ child ∈ (a.node id).children,
    (a.node id).shape.mayHold (a.node child).shape = true
  /-- Of the nodes below a tuple, only tuple members are optional. -/
  slots : ∀ id tuple, (a.node id).shape = .tuple tuple → ∀ pos ∈ tuple,
    (a.node pos).optional = true → ∃ child, (a.node pos).shape = .tupleMember child
  /-- The members of a union are numbered by whole numbers that doubles tell apart. -/
  counted : ∀ id members, (a.node id).shape = .union members → members.length ≤ 2 ^ 53
  /-- Literals are such as JSON has, or as codecs carry. -/
  literals : ∀ id x, (a.node id).shape = .atom x → x.isPortable = true

/-- Whether a shape keeps to the rules for portable types. -/
def placesParts (a : Arena) (shape : Shape) : Bool :=
  (shape.children.all fun child => shape.mayHold (a.node child).shape) &&
    match shape with
    | .tuple tuple => tuple.all fun pos => !(a.node pos).optional ||
        match (a.node pos).shape with
        | .tupleMember _ => true
        | _ => false
    | .union members => decide (members.length ≤ 2 ^ 53)
    | .atom x => x.isPortable
    | _ => true

def isPortable (a : Arena) : Bool :=
  a.isWellPlaced && a.ids.all fun id => a.placesParts (a.node id).shape

variable {a : Arena}

theorem portable_of_isPortable (h : a.isPortable = true) : a.Portable := by
  obtain ⟨hplaced, hparts⟩ := Bool.and_eq_true_iff.mp h
  have hplaces := forall_node (P := fun n => a.placesParts n.shape = true)
    (List.all_eq_true.mp hparts) rfl
  refine ⟨wellPlaced_of_isWellPlaced hplaced, fun id child hchild => ?_,
    fun id tuple hshape pos hpos hoptional => ?_, fun id members hshape => ?_,
    fun id x hshape => ?_⟩
  · exact List.all_eq_true.mp (Bool.and_eq_true_iff.mp (hplaces id)).1 child hchild
  all_goals
    have hid := (Bool.and_eq_true_iff.mp (hplaces id)).2
    rw [hshape] at hid
  · have hpos := List.all_eq_true.mp hid pos hpos
    rw [hoptional, Bool.not_true, Bool.false_or] at hpos
    split at hpos
    · exact ⟨_, ‹_›⟩
    · cases hpos
  · exact of_decide_eq_true hid
  · exact hid

/-- Whether a node is a type by itself, neither a property nor a node that stands for another. -/
def IsType (a : Arena) (id : NodeId) : Prop :=
  (a.node id).standsFor? = none ∧ a.propertyName? id = none

/-- Only objects, tuples and functions have parts that are no types by themselves. -/
theorem Portable.isType (portable : a.Portable) {id child : NodeId}
    (hchild : child ∈ (a.node id).children)
    (object : ∀ props index className, (a.node id).shape ≠ .object props index className)
    (tuple : ∀ members, (a.node id).shape ≠ .tuple members)
    (function : ∀ f, (a.node id).shape ≠ .function f) : a.IsType child := by
  have hheld := portable.held id child hchild
  unfold IsType Node.standsFor? propertyName?
  cases hshape : (a.node child).shape <;> rw [hshape] at hheld <;> try exact ⟨rfl, rfl⟩
  all_goals
    exfalso
    cases hparent : (a.node id).shape <;> rw [hparent] at hheld <;>
      first
      | exact object _ _ _ hparent
      | exact tuple _ hparent
      | exact function _ hparent
      | cases hheld

/-! ## Null -/

/-- Nothing is left to find at a node, once null was looked for at some others. -/
def Searched (a : Arena) (seen : List NodeId) (id : NodeId) : Prop :=
  match (a.node id).shape with
  | .atom x => x.acceptsNull = false
  | .tupleMember child => child ∈ seen
  | .union members => ∀ m ∈ members, m ∈ seen
  | _ => True

theorem Searched.mono {seen more : List NodeId} (h : seen ⊆ more) {id : NodeId}
    (searched : a.Searched seen id) : a.Searched more id := by
  unfold Searched at searched ⊢
  split at searched
  · exact searched
  · exact h searched
  · exact fun m hm => h (searched m hm)
  · trivial

/-- What a search leaves behind that has not found null: the nodes seen before and those it started
from, and all that are new are searched. -/
structure Unfound (a : Arena) (before starts after : List NodeId) : Prop where
  seen : before ⊆ after
  starts : starts ⊆ after
  searched : ∀ id ∈ after, id ∉ before → a.Searched after id

theorem Unfound.trans {seen between after starts others : List NodeId}
    (h : a.Unfound seen starts between) (h' : a.Unfound between others after) :
    a.Unfound seen (starts ++ others) after := by
  refine ⟨List.Subset.trans h.seen h'.seen, List.append_subset.mpr ⟨List.Subset.trans h.starts h'.seen, h'.starts⟩, ?_⟩
  intro id hid hseen
  by_cases hbetween : id ∈ between
  · exact (h.searched id hbetween hseen).mono h'.seen
  · exact h'.searched id hid hbetween

/-- A search from one node that has gone on to others. -/
theorem Unfound.step {id : NodeId} {seen starts after : List NodeId}
    (h : a.Unfound (id :: seen) starts after) (hid : a.Searched after id) :
    a.Unfound seen [id] after := by
  obtain ⟨hself, hseen⟩ := List.cons_subset.mp h.seen
  refine ⟨hseen, List.cons_subset.mpr ⟨hself, List.nil_subset _⟩, fun x hx hnew => ?_⟩
  by_cases hx' : x = id
  · exact hx' ▸ hid
  · exact h.searched x hx (List.not_mem_cons_of_ne_of_not_mem hx' hnew)

theorem unfound_anyWith {f : NodeId → List NodeId → Bool × List NodeId} {members : List NodeId}
    {seen : List NodeId}
    (h : ∀ m more, seen ⊆ more → (f m more).1 = false → a.Unfound more [m] (f m more).2)
    (unfound : (anyWith f members seen).1 = false) :
    a.Unfound seen members (anyWith f members seen).2 := by
  induction members generalizing seen with
  | nil => exact ⟨List.Subset.refl seen, List.nil_subset _, fun _ hid hnew => absurd hid hnew⟩
  | cons m rest ih =>
    have hm := h m seen (List.Subset.refl seen)
    rcases hresult : f m seen with ⟨found, more⟩
    rw [hresult] at hm
    cases found with
    | true =>
      simp only [anyWith, hresult, Bool.true_eq_false] at unfound
    | false =>
      simp only [anyWith, hresult] at unfound ⊢
      have hfirst := hm rfl
      exact hfirst.trans (ih (fun m' more' hmore => h m' more' (List.Subset.trans hfirst.seen hmore)) unfound)

/-- The nodes on the way to one that is searched: they are different nodes of the arena, and the
bound is large enough to go on from the last of them. -/
structure OnWay (a : Arena) (fuel : Nat) (way : List NodeId) : Prop where
  distinct : way.Nodup
  inside : way ⊆ a.ids
  length : way.length + fuel = a.size + 1

theorem OnWay.pos {way : List NodeId} (h : a.OnWay 0 way) : False := by
  have hlength := (List.Nodup.subperm h.distinct h.inside).length_le
  have := h.length
  simp only [ids, List.length_map, List.length_range] at hlength
  omega

theorem OnWay.cons {fuel : Nat} {way : List NodeId} {id : NodeId} (h : a.OnWay (fuel + 1) way)
    (new : id ∉ way) (inside : id ∈ a.ids) : a.OnWay fuel (id :: way) := by
  refine ⟨List.nodup_cons.mpr ⟨new, h.distinct⟩, List.cons_subset.mpr ⟨inside, h.inside⟩, ?_⟩
  have := h.length
  rw [List.length_cons]
  omega

theorem unfound_acceptsNullFrom {fuel : Nat} {id : NodeId} {seen way : List NodeId}
    (onWay : a.OnWay fuel way) (onSeen : way ⊆ seen)
    (unfound : (a.acceptsNullFrom fuel id seen).1 = false) :
    a.Unfound seen [id] (a.acceptsNullFrom fuel id seen).2 := by
  induction fuel generalizing id seen way with
  | zero => exact onWay.pos.elim
  | succ fuel ih =>
    unfold acceptsNullFrom at unfound ⊢
    by_cases hseen : id ∈ seen
    · rw [if_pos (List.contains_iff_mem.mpr hseen)]
      exact ⟨List.Subset.refl seen, List.cons_subset.mpr ⟨hseen, List.nil_subset _⟩,
        fun _ hid hnew => absurd hid hnew⟩
    rw [if_neg (mt List.contains_iff_mem.mp hseen)] at unfound ⊢
    have idle : a.Unfound (id :: seen) [] (id :: seen) :=
      ⟨List.Subset.refl _, List.nil_subset _, fun _ hid hnew => absurd hid hnew⟩
    have goOn (h : ∀ x, (a.node id).shape ≠ .atom x) : a.OnWay fuel (id :: way) := by
      refine onWay.cons (fun hway => hseen (onSeen hway)) ?_
      by_contra hid
      rw [node_eq_default hid] at h
      exact h _ rfl
    cases hshape : (a.node id).shape with
    | atom x =>
      rw [hshape] at unfound
      exact idle.step (by rw [Searched, hshape]; exact unfound)
    | tupleMember child =>
      rw [hshape] at unfound
      have hchild := ih (goOn fun x => by rw [hshape]; rintro ⟨⟩)
        (List.cons_subset_cons id onSeen) unfound
      exact hchild.step (by
        rw [Searched, hshape]
        exact hchild.starts List.mem_cons_self)
    | union members =>
      rw [hshape] at unfound
      have hmembers := unfound_anyWith (fun m more hmore => ih
        (goOn fun x => by rw [hshape]; rintro ⟨⟩)
        (List.Subset.trans (List.cons_subset_cons id onSeen) hmore)) unfound
      exact hmembers.step (by
        rw [Searched, hshape]
        exact fun m hm => hmembers.starts hm)
    | _ => exact idle.step (by rw [Searched, hshape]; trivial)

/-- Of the types, only atoms and unions may have null as an instance. -/
theorem IsType.facet_null {id : NodeId} (isType : a.IsType id) :
    (∃ x, (a.node id).shape = .atom x) ∨ (∃ members, (a.node id).shape = .union members) ∨
      (a.unfolding id).facet .null = .silent ∨
      ∃ expected, (a.unfolding id).facet .null = .misfit expected := by
  cases hshape : (a.node id).shape with
  | atom x => exact .inl ⟨x, rfl⟩
  | union members => exact .inr (.inl ⟨members, rfl⟩)
  | array item => exact .inr (.inr (.inr ⟨_, facet_array hshape⟩))
  | object props index className => exact .inr (.inr (.inr ⟨_, facet_object hshape⟩))
  | tuple members => exact .inr (.inr (.inr ⟨_, facet_tuple hshape⟩))
  | promise child | function f =>
    refine .inr (.inr (.inl ?_))
    simp only [TypeTree.facet, label_unfolding isType.1, labelOf, hshape]
  | property name child =>
    simp only [IsType, propertyName?, hshape, reduceCtorEq, and_false] at isType
  | tupleMember child | indexSignature filter child | rest child | parameter name child rest =>
    simp only [IsType, Node.standsFor?, hshape, reduceCtorEq, false_and] at isType

section Types

variable {P : NodeId → Prop} (types : ∀ id, P id → a.IsType id)
  (members : ∀ id ms, P id → (a.node id).shape = .union ms → ∀ m ∈ ms, P m)

include types members

/-- Where all nodes are searched, none of the types among them has null as an instance. -/
theorem not_judges_null {seen : List NodeId} (searched : ∀ id ∈ seen, a.Searched seen id)
    {id : NodeId} (hid : id ∈ seen) (hP : P id) : ¬ Judges (a.unfolding id) .null true := by
  intro h
  generalize ht : a.unfolding id = t at h
  generalize hv : Value.null = v at h
  generalize hb : true = b at h
  induction h generalizing id with
  | misfit | fails | noMember => cases hb
  | holds h _ _ =>
    subst ht hv
    have hsearched := searched id hid
    rcases (types id hP).facet_null with ⟨x, hshape⟩ | ⟨ms, hshape⟩ | hsilent | ⟨_, hmisfit⟩
    · simp only [Searched, hshape] at hsearched
      rw [facet_atom hshape] at h
      cases hx : x.holds .null with
      | true =>
        rw [Atom.acceptsNull_of_holds hx] at hsearched
        cases hsearched
      | false =>
        rw [hx] at h
        cases h
    · cases (facet_union hshape).symm.trans h
    · cases hsilent.symm.trans h
    · cases hmisfit.symm.trans h
  | member h mem _ ih =>
    subst ht hv
    have hsearched := searched id hid
    rcases (types id hP).facet_null with ⟨x, hshape⟩ | ⟨ms, hshape⟩ | hsilent | ⟨_, hmisfit⟩
    · rw [facet_atom hshape] at h
      cases hx : x.holds .null <;> rw [hx] at h <;> cases h
    · simp only [Searched, hshape] at hsearched
      rw [facet_union hshape] at h
      obtain rfl := Facet.oneOf.inj h
      obtain ⟨m, hm, rfl⟩ := List.mem_map.mp mem
      exact ih (hsearched m hm) (members id ms hP hshape m hm) rfl rfl rfl
    · cases hsilent.symm.trans h
    · cases hmisfit.symm.trans h

/-- **Null is found where it is an instance** of the type of a tuple member. -/
theorem acceptsNull_of_judges {pos child : NodeId} (hchild : (a.node pos).shape = .tupleMember child)
    (hP : P child) (h : Judges (a.unfolding pos) .null true) : a.acceptsNull pos = true := by
  by_contra hnull
  have onWay : a.OnWay (a.size + 1) [] :=
    ⟨List.nodup_nil, List.nil_subset _, Nat.zero_add _⟩
  have unfound := unfound_acceptsNullFrom onWay (List.nil_subset []) (Bool.eq_false_iff.mpr hnull)
  have searched := fun x hx => unfound.searched x hx List.not_mem_nil
  have hseen := searched pos (unfound.starts List.mem_cons_self)
  rw [Searched, hchild] at hseen
  have hstands : (a.node pos).standsFor? = some child := by simp only [Node.standsFor?, hchild]
  rw [unfolding_of_standsFor hstands] at h
  exact not_judges_null types members searched hseen hP h

end Types

/-- Null is found where it is an instance: in an optional position of a tuple. -/
theorem Portable.acceptsNull (portable : a.Portable) {id pos : NodeId} {tuple : List NodeId}
    (hshape : (a.node id).shape = .tuple tuple) (hpos : pos ∈ tuple)
    (optional : (a.node pos).optional = true) {n : Nat}
    (hjudge : (a.unfolding pos).judge n .null = some true) : a.acceptsNull pos = true := by
  obtain ⟨child, hchild⟩ := portable.slots id tuple hshape pos hpos optional
  refine acceptsNull_of_judges (P := a.IsType) (fun _ isType => isType)
    (fun parent members _ h m hm => ?_) hchild ?_ (TypeTree.judges_of_judge hjudge)
  · have hmem : m ∈ (a.node parent).children := by rwa [Node.children, h]
    refine portable.isType hmem ?_ ?_ ?_
    all_goals
      intros
      rw [h]
      rintro ⟨⟩
  · have hmem : child ∈ (a.node pos).children := by
      rw [Node.children, hchild]
      exact List.mem_cons_self
    refine portable.isType hmem ?_ ?_ ?_
    all_goals
      intros
      rw [hchild]
      rintro ⟨⟩

/-- What is portable can be carried. -/
theorem Portable.carriable (portable : a.Portable) : a.Carriable where
  toWellPlaced := portable.toWellPlaced
  counted := portable.counted
  literals := portable.literals
  nulls _ _ hshape _ hpos optional _ hjudge := portable.acceptsNull hshape hpos optional hjudge

/-! ## Tuples without optional positions -/

/-- Types that JSON can carry because no element of a tuple may be left out. -/
structure Gapless (a : Arena) : Prop extends WellPlaced a where
  /-- No position of a tuple is optional. -/
  slots : ∀ id tuple, (a.node id).shape = .tuple tuple → ∀ pos ∈ tuple,
    (a.node pos).optional = false
  /-- The members of a union are numbered by whole numbers that doubles tell apart. -/
  counted : ∀ id members, (a.node id).shape = .union members → members.length ≤ 2 ^ 53
  /-- Literals are such as JSON has, or as codecs carry. -/
  literals : ∀ id x, (a.node id).shape = .atom x → x.isPortable = true

/-- Whether a shape keeps to the rules for types without optional positions. -/
def placesRequired (a : Arena) : Shape → Bool
  | .tuple tuple => tuple.all fun pos => !(a.node pos).optional
  | .union members => decide (members.length ≤ 2 ^ 53)
  | .atom x => x.isPortable
  | _ => true

def isGapless (a : Arena) : Bool :=
  a.isWellPlaced && a.ids.all fun id => a.placesRequired (a.node id).shape

theorem gapless_of_isGapless (h : a.isGapless = true) : a.Gapless := by
  obtain ⟨hplaced, hparts⟩ := Bool.and_eq_true_iff.mp h
  have hplaces := forall_node (P := fun n => a.placesRequired n.shape = true)
    (List.all_eq_true.mp hparts) rfl
  refine ⟨wellPlaced_of_isWellPlaced hplaced, fun id tuple hshape pos hpos => ?_,
    fun id members hshape => ?_, fun id x hshape => ?_⟩
  all_goals
    have hid := hplaces id
    rw [hshape] at hid
  · exact Bool.not_eq_true' .. |>.mp (List.all_eq_true.mp hid pos hpos)
  · exact of_decide_eq_true hid
  · exact hid

theorem Gapless.carriable (gapless : a.Gapless) : a.Carriable where
  toWellPlaced := gapless.toWellPlaced
  counted := gapless.counted
  literals := gapless.literals
  nulls id tuple hshape pos hpos optional := by
    rw [gapless.slots id tuple hshape pos hpos] at optional
    cases optional

theorem Gapless.orderly (gapless : a.Gapless) : a.Orderly where
  toWellPlaced := gapless.toWellPlaced
  counted id members hshape := (gapless.counted id members hshape).trans (by decide)
  slots id tuple hshape pos hpos optional := by
    have hpos : pos ∈ tuple := splitTuple_append (a := a) tuple ▸ List.mem_append_left _ hpos
    rw [gapless.slots id tuple hshape pos hpos] at optional
    cases optional

end Arena

end Typeforge
