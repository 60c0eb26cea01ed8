/-
# `Typeforge.Proofs.Mocks.Conforming` — mocks are instances

Mocks are drawn from the arena itself, tests are compiled code.  What is drawn
for a node is an instance of the node's unfolded type (`Mock.meets_draw`), by
induction on how deep the draw goes: a part that is left out is optional, what an
index signature adds takes the name of no declared property, left out or not, and a
union asks for one member only.  A test judges as the unfolded type does, whatever it
was built with, so that no test rejects a mock; that is `Handle.isType_of_mock`.

It asks of the arena

  * `Faithful`: tests are found by their identities, so that with one identity for
    two types a mock of one would be put to the test of the other;
  * `Mockable`: an optional position of a tuple that is left out ends the tuple, so that
    what is required must not come after it; a parameter for all remaining arguments
    is drawn as a list of them; and a literal NaN is not equal to itself.  That parts
    of objects and tuples stand in no other place, and that no name is declared twice,
    is `WellPlaced`, which the unfolding of every type here rests on;
  * `IsType`, of the node: a property or an element of a tuple by itself is no type
    that anything is an instance of.

That a test does not reject is not yet that it accepts: the test of a union that is its
own first member calls itself on every mock, and never answers
(`OwnMember.never_accepted`).  So acceptance is stated for tests that come to an end, and
for all tests of guarded types, since those do.
-/
import Typeforge.Proofs.Halting
import Typeforge.Proofs.Lowering.Places
import Typeforge.Proofs.Lowering.Reaching
import Typeforge.Proofs.Mocks.Drawing
import Typeforge.Proofs.Types.Portable

namespace Typeforge

/-! ## Types that mocks are drawn from -/

/-- A node that another is drawn for is a property, or stands for the other. -/
theorem Node.standsFor_of_behind? (n : Node) {child : NodeId} (h : n.shape.behind? = some child) :
    (∃ name, n.shape = .property name child) ∨ n.standsFor? = some child := by
  unfold Shape.behind? at h
  unfold standsFor?
  split at h <;> cases h <;> rename_i hshape <;> rw [hshape]
  · exact .inl ⟨_, rfl⟩
  all_goals exact .inr rfl

namespace Arena

/-- Types whose mocks are instances. -/
structure Mockable (a : Arena) : Prop extends WellPlaced a where
  /-- Parameters stand in functions only. -/
  parameters : ∀ id, ∀ child ∈ (a.node id).children, (a.node child).shape.isParameter = true →
    ∃ f, (a.node id).shape = .function f
  /-- No required position of a tuple follows an optional one. -/
  ordered : ∀ id members, (a.node id).shape = .tuple members →
    (a.splitTuple members).1.Pairwise fun p q =>
      (a.node p).optional = true → (a.node q).optional = true
  /-- No literal is NaN. -/
  literals : ∀ id at', (a.node id).shape = .atom at' → at'.namesNaN = false

/-- Whether a node keeps to the rules for mocks. -/
structure MockableAt (a : Arena) (id : NodeId) : Prop where
  distinct : ∀ props index className, (a.node id).shape = .object props index className →
    (Compile.declaredNames (a.properties props)).Nodup
  placed : ∀ child ∈ (a.node id).children, a.propertyName? child ≠ none →
    ∃ props index className, (a.node id).shape = .object props index className
  parameters : ∀ child ∈ (a.node id).children, (a.node child).shape.isParameter = true →
    ∃ f, (a.node id).shape = .function f
  ordered : ∀ members, (a.node id).shape = .tuple members →
    (a.splitTuple members).1.Pairwise fun p q =>
      (a.node p).optional = true → (a.node q).optional = true
  literals : ∀ at', (a.node id).shape = .atom at' → at'.namesNaN = false

theorem Mockable.mockableAt {a : Arena} (mockable : a.Mockable) (id : NodeId) : a.MockableAt id where
  distinct := mockable.distinct id
  placed := mockable.placed id
  parameters := mockable.parameters id
  ordered := mockable.ordered id
  literals := mockable.literals id

/-- Whether a shape keeps to the rules for mocks. -/
def allowsMocks (a : Arena) : Shape → Bool
  | .function _ => true
  | .atom at' => !at'.namesNaN
  | shape => shape.children.all (fun child => !(a.node child).shape.isParameter) &&
    match shape with
    | .tuple members => decide ((a.splitTuple members).1.Pairwise fun p q =>
        (a.node p).optional = true → (a.node q).optional = true)
    | _ => true

def isMockable (a : Arena) : Bool :=
  a.isWellPlaced && a.ids.all fun id => a.allowsMocks (a.node id).shape

variable {a : Arena} {id : NodeId} {v : Value}

theorem mockable_of_isMockable (h : a.isMockable = true) : a.Mockable := by
  obtain ⟨hplaced, hshapes⟩ := Bool.and_eq_true_iff.mp h
  have hallows := forall_node (P := fun n => a.allowsMocks n.shape = true)
    (List.all_eq_true.mp hshapes) rfl
  refine ⟨wellPlaced_of_isWellPlaced hplaced, fun id child hchild hparameter => ?_,
    fun id members hshape => ?_, fun id at' hshape => ?_⟩
  · have hid := hallows id
    rw [Node.children] at hchild
    cases hshape : (a.node id).shape with
    | function f => exact ⟨f, rfl⟩
    | atom at' =>
      rw [hshape] at hchild
      exact absurd hchild List.not_mem_nil
    | _ =>
      rw [hshape] at hid hchild
      have hall := List.all_eq_true.mp (Bool.and_eq_true_iff.mp hid).1 child hchild
      rw [hparameter] at hall
      cases hall
  all_goals
    have hid := hallows id
    rw [hshape] at hid
  · exact of_decide_eq_true (Bool.and_eq_true_iff.mp hid).2
  · exact Bool.not_eq_true' _ |>.mp hid

/-! ## Instances, node by node -/

/-- Whether a value is an instance of what a node stands for; what stands at a property is the type
of its members. -/
def Conforms (a : Arena) (id : NodeId) (v : Value) : Prop :=
  match (a.node id).shape with
  | .property _ child => Judges (a.unfolding child) v true
  | _ => Judges (a.unfolding id) v true

theorem conforms_property {name : String} {child : NodeId}
    (h : (a.node id).shape = .property name child) :
    a.Conforms id v ↔ Judges (a.unfolding child) v true := by
  simp only [Conforms, h]

theorem conforms_iff (h : a.propertyName? id = none) :
    a.Conforms id v ↔ Judges (a.unfolding id) v true := by
  unfold propertyName? at h
  unfold Conforms
  split <;> rename_i hshape
  · rw [hshape] at h
    cases h
  · rfl

/-- What holds of all demands of a type holds of it. -/
theorem judges_of_guarded {t : TypeTree} {fits : Bool} {expected : String}
    {demands : List Demand} (h : t.facet v = .guarded fits expected demands) (hfits : fits = true)
    (all : ∀ d ∈ demands, Judges d.tree d.value true) : Judges t v true := by
  rw [hfits] at h
  exact .holds h all

theorem judges_each {t : TypeTree} {parts : List (PathItem × Value)}
    (h : ∀ x ∈ parts, Judges t x.2 true) : ∀ d ∈ t.each parts, Judges d.tree d.value true := by
  intro d hd
  obtain ⟨x, hx, rfl⟩ := Check.mem_each.mp hd
  exact h x hx

theorem judges_reached {t : TypeTree} {step : PathItem} {optional : Bool}
    (h : Judges t v true ∨ (optional = true ∧ v.isUndefined = true)) :
    ∀ d ∈ t.reached step optional v, Judges d.tree d.value true := by
  intro d hd
  rw [TypeTree.reached] at hd
  split at hd
  · exact absurd hd List.not_mem_nil
  · rename_i hskip
    obtain rfl := List.mem_singleton.mp hd
    refine h.resolve_right fun hleft => hskip ?_
    rw [hleft.1, hleft.2]
    rfl

namespace MockableAt

variable {x : Mock.Context}

/-- Only parts of objects are properties. -/
theorem propertyName?_part (mockable : a.MockableAt id) {child : NodeId} {shape : Shape}
    (hshape : (a.node id).shape = shape) (hchild : child ∈ shape.children)
    (object : ∀ props index className, shape ≠ .object props index className) :
    a.propertyName? child = none := by
  subst hshape
  by_contra hname
  obtain ⟨props, index, className, hshape⟩ := mockable.placed child hchild hname
  exact object props index className hshape

/-- An instance of the node behind another is an instance of that. -/
theorem conforms_behind (mockable : a.MockableAt id) {child : NodeId}
    (h : (a.node id).shape.behind? = some child) (drawn : a.Conforms child v) :
    a.Conforms id v := by
  have hchild : child ∈ (a.node id).shape.children := by
    rw [Shape.children_of_behind? h]
    exact List.mem_singleton_self child
  have hbehind : a.propertyName? child = none := by
    refine mockable.propertyName?_part rfl hchild fun props index className hshape => ?_
    rw [hshape] at h
    cases h
  have hdrawn := (conforms_iff hbehind).mp drawn
  rcases (a.node id).standsFor_of_behind? h with ⟨name, hshape⟩ | hstands
  · exact (conforms_property hshape).mpr hdrawn
  · refine (conforms_iff (propertyName?_of_standsFor hstands)).mpr ?_
    rwa [unfolding_of_standsFor hstands]

/-- The properties of an object of which each is an instance or left out. -/
theorem judges_declared_of {props : List NodeId} {p : Property} (hp : p ∈ a.properties props)
    {members : List (String × Value)}
    (h : (p.optional = true ∧ Members.get? p.name members = none) ∨
      ∃ v, Members.get? p.name members = some v ∧ a.Conforms p.id v) :
    Judges (a.unfolding p.id) (.object members) true := by
  obtain ⟨-, hoptional, child, hshape⟩ := shape_of_mem_properties hp
  refine .holds (facet_property hshape) (judges_reached ?_)
  rw [← hoptional, Value.member]
  rcases h with ⟨hskip, hnone⟩ | ⟨v, hsome, hv⟩
  · rw [hnone]
    exact .inr ⟨hskip, rfl⟩
  · rw [hsome]
    exact .inl ((conforms_property hshape).mp hv)

theorem conforms_object {props : List NodeId} {index : Option NodeId} {className : Option String}
    (hshape : (a.node id).shape = .object props index className)
    {members : List (String × Value)}
    (declared : ∀ p ∈ a.properties props,
      (p.optional = true ∧ Members.get? p.name members = none) ∨
        ∃ v, Members.get? p.name members = some v ∧ a.Conforms p.id v)
    (others : ∀ m ∈ members, m.1 ∈ (a.properties props).map (·.name) ∨
      ∃ id filter, a.indexFilter index = some (id, filter) ∧ a.Conforms id m.2) :
    Judges (a.unfolding id) (.object members) true := by
  refine judges_of_guarded (facet_object hshape) rfl fun d hd => ?_
  rw [objectDemands] at hd
  rcases List.mem_append.mp hd with hd | hd
  · obtain ⟨p, hp, rfl⟩ := List.mem_map.mp hd
    exact judges_declared_of hp (declared p hp)
  · cases hindex : a.indexFilter index with
    | none =>
      rw [hindex] at hd
      exact absurd hd List.not_mem_nil
    | some found =>
      obtain ⟨value, filter⟩ := found
      rw [hindex] at hd
      refine judges_each (fun step hstep => ?_) d hd
      obtain ⟨m, hm, rfl⟩ := List.mem_map.mp hstep
      obtain ⟨hm, hcovers⟩ := List.mem_filter.mp hm
      have hundeclared : m.1 ∉ (a.properties props).map (·.name) := fun hmem => by
        rw [KeyFilter.covers, Bool.and_eq_true, Compile.declaredNames,
          List.contains_iff_mem.mpr hmem] at hcovers
        cases hcovers.2
      obtain ⟨other, filter', hother, hv⟩ := (others m hm).resolve_left hundeclared
      rw [hindex] at hother
      cases hother
      have hvalue : a.propertyName? value = none := by
        obtain ⟨item, hitem⟩ := shape_of_indexFilter hindex
        simp only [propertyName?, hitem]
      exact (conforms_iff hvalue).mp hv

theorem conforms_tuple {members : List NodeId} (mockable : a.MockableAt id)
    (hshape : (a.node id).shape = .tuple members) {items : List Value}
    (fixed : ∀ (i : Nat) v, items[i]? = some v →
      (∃ pos, (a.splitTuple members).1[i]? = some pos ∧ a.Conforms pos v) ∨
        (a.splitTuple members).1.length ≤ i ∧
          ∃ last, (a.splitTuple members).2 = some last ∧ a.Conforms last v)
    (left : items.length < (a.splitTuple members).1.length →
      ∃ pos, (a.splitTuple members).1[items.length]? = some pos ∧ (a.node pos).optional = true) :
    Judges (a.unfolding id) (.array items) true := by
  have hpart {pos : NodeId} (hpos : pos ∈ members) : a.propertyName? pos = none :=
    mockable.propertyName?_part hshape hpos (by rintro _ _ _ ⟨⟩)
  have hsplit := splitTuple_append (a := a) members
  have hfixed {pos : NodeId} (hpos : pos ∈ (a.splitTuple members).1) :
      a.propertyName? pos = none := hpart (hsplit ▸ List.mem_append_left _ hpos)
  have hlast {last : NodeId} (h : (a.splitTuple members).2 = some last) :
      a.propertyName? last = none :=
    hpart (hsplit ▸ List.mem_append_right _ (Option.mem_toList.mpr h))
  refine judges_of_guarded (facet_tuple hshape) ?_ fun d hd => ?_
  · -- an element beyond the fixed positions stands for the rest
    refine Bool.and_eq_true_iff.mpr ⟨rfl, Bool.or_eq_true_iff.mpr ?_⟩
    by_cases hlt : (a.splitTuple members).1.length < items.length
    · rcases fixed _ _ (List.getElem?_eq_getElem hlt) with ⟨pos, hpos, -⟩ | ⟨-, last, hrest, -⟩
      · rw [List.getElem?_eq_none (le_refl _)] at hpos
        cases hpos
      · exact .inl (Option.isSome_iff_exists.mpr ⟨last, hrest⟩)
    · exact .inr (decide_eq_true (not_lt.mp hlt))
  · rw [tupleDemands] at hd
    rcases List.mem_append.mp hd with hd | hd
    · obtain ⟨⟨pos, i⟩, hpos, hd⟩ := List.mem_flatMap.mp hd
      have hpos : (a.splitTuple members).1[i]? = some pos := List.mem_zipIdx_iff_getElem?.mp hpos
      refine judges_reached ?_ d hd
      dsimp only [Value.element]
      cases hi : items[i]? with
      | some v =>
        refine .inl ?_
        rcases fixed i v hi with ⟨pos', hpos', hv⟩ | ⟨hle, -⟩
        · obtain rfl : pos = pos' := Option.some.inj (hpos.symm.trans hpos')
          exact (conforms_iff (hfixed (List.mem_of_getElem? hpos))).mp hv
        · rw [List.getElem?_eq_none hle] at hpos
          cases hpos
      | none =>
        -- all positions from the first that is left out on are optional
        refine .inr ⟨?_, rfl⟩
        obtain ⟨hlt, hpos⟩ := List.getElem?_eq_some_iff.mp hpos
        have hle : items.length ≤ i := List.getElem?_eq_none_iff.mp hi
        obtain ⟨first, hfirst, hoptional⟩ := left (lt_of_le_of_lt hle hlt)
        obtain ⟨hlt', hfirst⟩ := List.getElem?_eq_some_iff.mp hfirst
        rcases eq_or_lt_of_le hle with heq | hlt''
        · subst heq
          rwa [← hpos, hfirst]
        · have hordered := List.pairwise_iff_getElem.mp (mockable.ordered _ hshape) _ _ hlt' hlt
            hlt''
          rw [hfirst, hpos] at hordered
          exact hordered hoptional
    · cases hrest : (a.splitTuple members).2 with
      | none =>
        rw [hrest] at hd
        exact absurd hd List.not_mem_nil
      | some last =>
        rw [hrest] at hd
        refine judges_each (fun step hstep => ?_) d hd
        have hmem := List.mem_map_of_mem (f := Prod.snd) hstep
        rw [Value.stepsFrom_values] at hmem
        obtain ⟨k, hk⟩ := List.mem_iff_getElem?.mp hmem
        rw [List.getElem?_drop] at hk
        rcases fixed _ _ hk with ⟨pos, hpos, -⟩ | ⟨-, other, hother, hv⟩
        · rw [List.getElem?_eq_none (Nat.le_add_right _ k)] at hpos
          cases hpos
        · cases hrest.symm.trans hother
          exact (conforms_iff (hlast hrest)).mp hv

/-- **What is put together from instances of the children is an instance.** -/
theorem conforms_of_built (mockable : a.MockableAt id) (hx : x.arena = a)
    (hid : (a.node id).shape.isParameter = false) (built : x.Built a.Conforms (a.node id) v) :
    a.Conforms id v := by
  subst hx
  cases built with
  | atom hshape holds =>
    refine (conforms_iff (by simp only [propertyName?, hshape])).mpr ?_
    refine judges_of_guarded (facet_atom hshape) (holds (mockable.literals _ hshape)) ?_
    exact fun d hd => absurd hd List.not_mem_nil
  | array h all =>
    rename_i item items
    have hshape : (x.arena.node id).shape = .array item := by
      refine (Shape.eq_of_repeated? h).resolve_right ?_
      rintro ⟨name, hshape⟩
      rw [hshape] at hid
      cases hid
    have hitem : x.arena.propertyName? item = none :=
      mockable.propertyName?_part hshape List.mem_cons_self (by rintro _ _ _ ⟨⟩)
    refine (conforms_iff (by simp only [propertyName?, hshape])).mpr ?_
    refine judges_of_guarded (facet_array hshape) rfl (judges_each fun step hstep => ?_)
    have hmem : step.2 ∈ items := by
      have := List.mem_map_of_mem (f := Prod.snd) hstep
      rwa [Value.stepsFrom_values, List.drop_zero] at this
    exact (conforms_iff hitem).mp (all _ hmem)
  | behind h drawn => exact mockable.conforms_behind h drawn
  | object hshape declared others =>
    refine (conforms_iff (by simp only [propertyName?, hshape])).mpr ?_
    exact conforms_object hshape (declared (mockable.distinct _ _ _ hshape)) others
  | tuple hshape fixed left =>
    refine (conforms_iff (by simp only [propertyName?, hshape])).mpr ?_
    exact mockable.conforms_tuple hshape fixed left
  | union hshape mem drawn =>
    rename_i members member
    have hmember : x.arena.propertyName? member = none :=
      mockable.propertyName?_part hshape mem (by rintro _ _ _ ⟨⟩)
    refine (conforms_iff (by simp only [propertyName?, hshape])).mpr ?_
    exact .member (facet_union hshape) (List.mem_map_of_mem mem) ((conforms_iff hmember).mp drawn)

end MockableAt

end Arena

/-! ## Draws -/

namespace Mock

variable {a : Arena}

/-- A draw comes to children of the node only. -/
theorem Context.Draws.mem_children {x : Context} {minimal : Bool} {n : Node} {id : NodeId}
    (h : x.Draws minimal n id) : id ∈ n.children := by
  cases h with
  | repeated h free =>
    rw [Node.children]
    rcases Shape.eq_of_repeated? h with h | ⟨name, h⟩ <;> rw [h] <;> exact List.mem_singleton_self _
  | behind h =>
    rw [Node.children, Shape.children_of_behind? h]
    exact List.mem_singleton_self _
  | property h mem free =>
    rw [Node.children, h]
    exact List.mem_append_left _ (Arena.shape_of_mem_properties mem).1
  | index h found free =>
    rw [Node.children, h, Arena.eq_some_of_indexFilter found]
    exact List.mem_append_right _ (List.mem_singleton_self _)
  | position h mem free =>
    rename_i members
    have hsplit := Arena.splitTuple_append (a := x.arena) members
    rw [Node.children, h]
    exact hsplit ▸ List.mem_append_left _ mem
  | rest h last free =>
    rename_i members
    have hsplit := Arena.splitTuple_append (a := x.arena) members
    rw [Node.children, h]
    exact hsplit ▸ List.mem_append_right _ (Option.mem_toList.mpr last)
  | member h picked =>
    rw [Node.children, h]
    exact picked.1

/-- Functions have no children that are drawn. -/
theorem Context.Draws.not_function {x : Context} {minimal : Bool} {n : Node} {id : NodeId}
    (h : x.Draws minimal n id) (f : FunctionShape) : n.shape ≠ .function f := by
  intro hf
  cases h with
  | repeated h | behind h =>
    rw [hf] at h
    cases h
  | property h | index h | position h | rest h | member h => cases hf.symm.trans h

/-- **What is drawn for a node is put together from instances of its children**, however deep the
draw may go, if all nodes that it may come to keep to the rules. -/
theorem meets_drawWithin {id : NodeId} (mockable : ∀ n, a.Reaches id n → a.MockableAt n)
    (o : MockOptions) (bound : Nat) (site : Site) :
    Meets (fun _ => True) (drawWithin ⟨a, o⟩ bound site id)
      (Context.Built ⟨a, o⟩ a.Conforms (a.node id)) := by
  induction bound generalizing site id with
  | zero => exact .throw trivial
  | succ bound ih =>
    rw [drawWithin]
    dsimp only
    split
    · exact .throw trivial
    · refine meets_drawNode (P := a.Conforms) (fun _ => trivial) (fun _ _ => trivial)
        (fun _ _ => trivial) fun site' child _ hdraws => ?_
      have hchild : child ∈ (a.node id).children := hdraws.mem_children
      have below (n : NodeId) (hn : a.Reaches child n) : a.MockableAt n :=
        mockable n (hn.head hchild)
      refine (ih below site').mono fun v built => (below child .refl).conforms_of_built rfl ?_ built
      -- a node that is drawn is no function, so that parameters are not below it
      by_contra hparameter
      obtain ⟨f, hshape⟩ := (mockable id .refl).parameters child hchild
        (Bool.not_eq_false _ |>.mp hparameter)
      exact hdraws.not_function f hshape

/-- **What is drawn for a node is an instance of it.** -/
theorem meets_draw (mockable : a.Mockable) (o : MockOptions) (site : Site) (id : NodeId)
    (hid : (a.node id).shape.isParameter = false) :
    Meets (fun _ => True) (draw ⟨a, o⟩ site id) (a.Conforms id) :=
  (meets_drawWithin (fun n _ => mockable.mockableAt n) o _ site).mono fun _ built =>
    (mockable.mockableAt id).conforms_of_built rfl hid built

end Mock

/-! ## Tests -/

theorem Arena.IsType.isParameter {a : Arena} {id : NodeId} (h : a.IsType id) :
    (a.node id).shape.isParameter = false := by
  have hstands := h.1
  unfold Node.standsFor? at hstands
  cases hshape : (a.node id).shape <;> rw [hshape] at hstands <;> first | rfl | cases hstands

/-- **Tests accept mocks.** Whatever a sampler draws for a type, with any options and from any state
of the generator, is never rejected by a test that is built for the type, however many calls it may
make; and the test accepts it wherever it comes to an answer, as it always does for a guarded type.
The test of a union that contains itself may be called on one value over and over. -/
theorem Handle.isType_of_mock {e : Engine} {a : Arena} {r : Registry}
    {handles : List (NodeId × Handle)} {id : NodeId} {h : Handle} (faithful : a.Faithful)
    (mockable : a.Mockable) (hid : a.IsType id) (built : e.Builds a r handles)
    (hmem : (id, h) ∈ handles) (htarget : h.key.target = .isType) (o : MockOptions)
    {g g' : Generator} {v : Value}
    (drawn : (Mock.Sampler.next ⟨⟨a, o⟩, id⟩).run.run g = (.ok v, g')) :
    (∀ calls, (h.program r).checkCall calls h.key.identity v ≠ some false) ∧
      ((h.program r).isType h.key.identity v ≠ .error .cutOff → h.isType r v = true) ∧
      (a.Guarded → (∀ x ∈ handles, (a.node x.1).standsFor? = none) → h.isType r v = true) := by
  have hjudges : Judges (a.unfolding id) v true := by
    have hconforms := Mock.meets_draw mockable o {} id hid.isParameter g
    rw [show (Mock.draw ⟨a, o⟩ {} id).run.run g = (.ok v, g') from drawn] at hconforms
    exact (Arena.conforms_iff hid.2).mp hconforms
  obtain ⟨hr, hhandles⟩ := built.compiled
  obtain ⟨hkey, hidentity, -⟩ := hhandles _ hmem
  have hkey : ⟨(a.node id).identity, .isType⟩ ∈ r.keys := by
    rw [← hidentity, ← htarget]
    exact hkey
  have accepts (ends : (h.program r).isType h.key.identity v ≠ .error .cutOff) :
      h.isType r v = true := by
    rw [hidentity] at ends
    obtain ⟨b, hb, hb'⟩ := Program.judges_of_isType faithful hr hkey ends
    rw [isType, hidentity, show (h.program r).isType (a.node id).identity v = _ from hb]
    exact hb'.unique hjudges
  refine ⟨fun calls hrejects => ?_, accepts, fun guarded own => accepts ?_⟩
  · rw [hidentity] at hrejects
    exact hjudges.not_both (Program.callsTest h.revivers (hr.filledFrom faithful) rfl calls id
      (Registry.contains_iff.mpr hkey) v false hrejects)
  · rw [hidentity]
    exact Program.isType_ne_cutOff h.revivers guarded.bounded.shallow faithful
      (built.grounded own) hkey v

/-! ## Comments on comments

A comment has an optional rating, a tuple with an optional and any number of
further elements, and members of any other names; further elements and members
are comments again, or null.
-/

namespace Comments

def sample : Sample where
  graph := {
    nodes := #[⟨.objectLiteral [⟨1⟩, ⟨3⟩, ⟨5⟩, ⟨11⟩], some "Comment"⟩,
      ⟨.property "by" ⟨2⟩ false false, none⟩, ⟨.string, none⟩,
      ⟨.property "rating" ⟨4⟩ true false, none⟩, ⟨.number, none⟩,
      ⟨.property "mark" ⟨6⟩ false false, none⟩, ⟨.tuple [⟨7⟩, ⟨8⟩, ⟨9⟩], none⟩,
      ⟨.tupleMember ⟨2⟩ false none, none⟩, ⟨.tupleMember ⟨4⟩ true none, none⟩, ⟨.rest ⟨10⟩, none⟩,
      ⟨.union [⟨12⟩, ⟨0⟩], none⟩, ⟨.indexSignature ⟨2⟩ ⟨10⟩, none⟩, ⟨.null, none⟩]
    roots := [("Comment", ⟨0⟩)] }
  targets := [.isType]

def options : MockOptions := { maxDepth := 4 }

def outcome : Except CompileError Value × Generator :=
  (Mock.Sampler.next ⟨⟨sample.arena, options⟩, sample.node⟩).run.run ⟨7⟩

def value : Value := outcome.1.toOption.getD .undefined

/-- Numbers that fall from a union, and from a property, to what instances are passed on to. -/
def rank (id : NodeId) : Nat :=
  match (sample.arena.node id).shape with
  | .property _ _ | .tupleMember _ | .rest _ | .indexSignature _ _ => 2
  | .union _ => 1
  | _ => 0

theorem computed : sample.isFaithful = true ∧ sample.arena.isMockable = true ∧
    sample.arena.isRankedBy rank = true ∧ sample.isOwn = true ∧ sample.isBuilt = true ∧
    outcome.1.isOk = true := by
  decide +kernel

theorem accepted : outcome.1 = .ok value ∧ sample.arena.Guarded ∧
    (sample.handle .isType).isType sample.registry value = true := by
  obtain ⟨faithful, mockable, ranked, own, built, drawn⟩ := computed
  have hvalue : outcome.1 = .ok value := Except.eq_ok_getD drawn _
  have guarded := Arena.guarded_of_isRankedBy ranked
  obtain ⟨-, -, accepts⟩ := Handle.isType_of_mock (Sample.faithful faithful)
    (Arena.mockable_of_isMockable mockable) (Sample.own own) (Sample.builds built)
    (Sample.mem_handles List.mem_cons_self) rfl options (Prod.ext hvalue rfl)
  exact ⟨hvalue, guarded, accepts guarded (List.forall_mem_singleton.mpr (Sample.own own).1)⟩

end Comments

/-! ## A union that is its own first member

Draws go round until they come to the other member, a string.  The test of the union
calls itself before it asks for a string, and so on every value.
-/

namespace OwnMember

def sample : Sample where
  graph := {
    nodes := #[⟨.union [⟨0⟩, ⟨1⟩], some "Text"⟩, ⟨.string, none⟩]
    roots := [("Text", ⟨0⟩)] }
  targets := [.isType]

def handle : Handle := sample.handle .isType

def outcome : Except CompileError Value × Generator :=
  (Mock.Sampler.next ⟨⟨sample.arena, {}⟩, sample.node⟩).run.run ⟨7⟩

def value : Value := outcome.1.toOption.getD .undefined

theorem computed : sample.loads = true ∧ sample.isFaithful = true ∧
    sample.arena.isMockable = true ∧ sample.isOwn = true ∧ sample.isBuilt = true ∧
    outcome.1.isOk = true ∧ handle.callsFirst sample.registry = true := by
  decide +kernel

/-- The type meets all that is asked of types whose mocks are accepted, its test is built, and a
mock is drawn. The test never answers on it. -/
theorem never_accepted : sample.engine.load sample.graph sample.root = .ok sample.arena ∧
    sample.arena.Faithful ∧ sample.arena.Mockable ∧ sample.arena.IsType sample.node ∧
    sample.engine.Builds sample.arena sample.registry [(sample.node, handle)] ∧
    outcome.1 = .ok value ∧
    (∀ calls, (handle.program sample.registry).checkCall calls handle.key.identity value = none) ∧
    handle.isType sample.registry value ≠ true := by
  obtain ⟨loads, faithful, mockable, own, built, drawn, first⟩ := computed
  refine ⟨Sample.loaded loads, Sample.faithful faithful, Arena.mockable_of_isMockable mockable,
    Sample.own own, Sample.builds built, Except.eq_ok_getD drawn _,
    fun calls => Handle.checkCall_of_callsFirst first calls value, ?_⟩
  rw [Handle.isType_of_callsFirst first value]
  exact Bool.false_ne_true

end OwnMember

end Typeforge
