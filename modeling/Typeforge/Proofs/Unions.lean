/-
# `Typeforge.Proofs.Unions` — an instance of a type is a member of its unions

Encoding and printing stop at a value that is no member of a union.  Testing,
encoding and printing each have their own rule for which parts of a value they
visit: a test passes over an optional element that is undefined and over the
elements a short array does not have, an encoder changes only parts that are
there, and a printer follows the value.

An encoder meets a union only where the test has met it, with the same value, so
that it always finds a member for a part of an instance.  So does a printer,
with one exception: an optional element of a tuple that is undefined is passed
over by the test, but the printer looks for a member of the union there
(`OptionalElement.print_fails`).

`Handle.ne_noUnionMember_of_isType` is for types whose properties stand where they
belong, with the exception left out (`Arena.Orderly`) for printers alone.  Encoders
have to come to their end, as the member they look for is found by its test, and that
of a union inside itself may have none.
-/
import Typeforge.Proofs.Serialization

namespace Typeforge

/-! ## Demands on parts -/

namespace Judges

variable {t : TypeTree} {v : Value}

/-- What an instance is asked for it has. -/
theorem of_guarded {fits : Bool} {expected : String} {demands : List Demand} (h : Judges t v true)
    (hfacet : t.facet v = .guarded fits expected demands) :
    fits = true ∧ ∀ d ∈ demands, Judges d.tree d.value true := by
  cases fits with
  | false => exact absurd (.misfit hfacet) h.not_both
  | true =>
    refine ⟨rfl, ?_⟩
    cases h with
    | holds h' all => exact Facet.all.inj (h'.symm.trans hfacet) ▸ all
    | member h' => cases h'.symm.trans hfacet

theorem of_all {demands : List Demand} (h : Judges t v true) (hfacet : t.facet v = .all demands) :
    ∀ d ∈ demands, Judges d.tree d.value true := by
  have hguarded : t.facet v = .guarded true "" demands := hfacet
  exact (h.of_guarded hguarded).2

theorem of_oneOf {members : List TypeTree} (h : Judges t v true)
    (hfacet : t.facet v = .oneOf members) : ∃ u ∈ members, Judges u v true := by
  cases h with
  | holds h' all => cases h'.symm.trans hfacet
  | member h' mem holds =>
    cases h'.symm.trans hfacet
    exact ⟨_, mem, holds⟩

/-- What is asked of a part that is reached. -/
theorem of_reached {u : TypeTree} {step : PathItem} {optional : Bool}
    (h : ∀ d ∈ u.reached step optional v, Judges d.tree d.value true)
    (present : (optional && v.isUndefined) = false) : Judges u v true := by
  rw [TypeTree.reached, present] at h
  exact h _ List.mem_cons_self

end Judges

namespace Value

theorem member_of_mem {members : List (String × Value)} (distinct : (members.map Prod.fst).Nodup)
    {m : String × Value} (hm : m ∈ members) : (object members).member m.1 = m.2 := by
  rw [member]
  cases hget : Members.get? m.1 members with
  | none => exact absurd (List.mem_map_of_mem hm) (Members.get?_eq_none hget)
  | some w =>
    exact congrArg Prod.snd
      (List.inj_on_of_nodup_map distinct (Members.mem_of_get? hget) hm rfl)

end Value

namespace Arena

variable {a : Arena} {id : NodeId}

/-- The member of a property of an instance. -/
theorem judges_property {name : String} {child : NodeId} {v : Value}
    (hshape : (a.node id).shape = .property name child) (h : Judges (a.unfolding id) v true)
    (present : ((a.node id).optional && (v.member name).isUndefined) = false) :
    Judges (a.unfolding child) (v.member name) true :=
  Judges.of_reached (h.of_all (facet_property hshape)) present

/-- The members of an object that its index signature covers. -/
theorem judges_indexed {props : List NodeId} {index : Option NodeId} {className : Option String}
    {members : List (String × Value)} {value : NodeId} {filter : KeyFilter}
    (hshape : (a.node id).shape = .object props index className)
    (h : Judges (a.unfolding id) (.object members) true)
    (hindex : a.indexFilter index = some (value, filter)) {m : String × Value} (hm : m ∈ members)
    (covered : filter.covers (Compile.declaredNames (a.properties props)) m.1 = true) :
    Judges (a.unfolding value) m.2 true := by
  refine (h.of_guarded (facet_object hshape)).2 ⟨[.key m.1], a.unfolding value, m.2⟩ ?_
  rw [objectDemands, hindex]
  refine List.mem_append_right _ (Check.mem_each.mpr ⟨(.key m.1, m.2), ?_, rfl⟩)
  exact List.mem_map.mpr ⟨m, List.mem_filter.mpr ⟨hm, covered⟩, rfl⟩

/-- The properties of an object hold of it. -/
theorem judges_declared {props : List NodeId} {index : Option NodeId} {className : Option String}
    {v : Value} (hshape : (a.node id).shape = .object props index className)
    (h : Judges (a.unfolding id) v true) {p : Property} (hp : p ∈ a.properties props) :
    Judges (a.unfolding p.id) v true :=
  (h.of_guarded (facet_object hshape)).2 ⟨[], a.unfolding p.id, v⟩
    (List.mem_append_left _ (List.mem_map_of_mem hp))

/-- The elements of an array. -/
theorem judges_item {item : NodeId} {items : List Value}
    (hshape : (a.node id).shape = .array item) (h : Judges (a.unfolding id) (.array items) true)
    {i : Nat} {w : Value} (hw : items[i]? = some w) : Judges (a.unfolding item) w true := by
  refine (h.of_guarded (facet_array hshape)).2 ⟨[.index i], a.unfolding item, w⟩ ?_
  refine Check.mem_each.mpr ⟨(.index i, w), ?_, rfl⟩
  exact List.mem_map.mpr ⟨(w, i), List.mem_zipIdx_iff_getElem?.mpr hw, rfl⟩

/-- The element in a fixed position of a tuple. -/
theorem judges_fixed {tuple : List NodeId} {items : List Value}
    (hshape : (a.node id).shape = .tuple tuple) (h : Judges (a.unfolding id) (.array items) true)
    {i : Nat} {pos : NodeId} (hpos : (a.splitTuple tuple).1[i]? = some pos) {w : Value}
    (hw : items[i]? = some w) (present : ((a.node pos).optional && w.isUndefined) = false) :
    Judges (a.unfolding pos) w true := by
  refine Judges.of_reached (fun d (hd : d ∈ (a.unfolding pos).reached (.index i) _ w) => ?_) present
  refine (h.of_guarded (facet_tuple hshape)).2 d (List.mem_append_left _ ?_)
  refine List.mem_flatMap.mpr ⟨(pos, i), List.mem_zipIdx_iff_getElem?.mpr hpos, ?_⟩
  rwa [Value.element, hw]

/-- The elements behind the fixed positions of a tuple. -/
theorem judges_rest {tuple : List NodeId} {items : List Value}
    (hshape : (a.node id).shape = .tuple tuple) (h : Judges (a.unfolding id) (.array items) true)
    {i : Nat} (hfixed : (a.splitTuple tuple).1.length ≤ i) {last : NodeId}
    (hrest : (a.splitTuple tuple).2 = some last) {w : Value} (hw : items[i]? = some w) :
    Judges (a.unfolding last) w true := by
  refine (h.of_guarded (facet_tuple hshape)).2 ⟨[.index i], a.unfolding last, w⟩ ?_
  rw [tupleDemands, hrest]
  refine List.mem_append_right _ (Check.mem_each.mpr ⟨(.index i, w), ?_, rfl⟩)
  refine List.mem_map.mpr ⟨(w, i), List.mem_iff_getElem?.mpr ⟨i - (a.splitTuple tuple).1.length, ?_⟩,
    rfl⟩
  rw [List.getElem?_drop, Nat.add_sub_cancel' hfixed, List.getElem?_zipIdx, hw, Option.map_some,
    Nat.zero_add]

end Arena

/-! ## Changes that do not fail -/

namespace Changed

/-- Whether nothing but the bound on calls has stopped changes. -/
def Unfailing (c : Changed) : Prop := ∀ h, c.stop = some h → h = .cutOff

variable {c : Changed}

theorem Unfailing.done (v : Value) : (done v).Unfailing := nofun

theorem Unfailing.cutOff (h : c.stop = some .cutOff) : c.Unfailing :=
  fun _ hstop => Option.some.inj (hstop.symm.trans h)

theorem Unfailing.of_stop {d : Changed} (h : c.Unfailing) (same : d.stop = c.stop) :
    d.Unfailing :=
  fun halt hstop => h halt (same ▸ hstop)

theorem Unfailing.andThen_done (h : c.Unfailing) (f : Value → Value) :
    (c.andThen fun v => Changed.done (f v)).Unfailing := by
  obtain ⟨value, stop⟩ := c
  cases stop with
  | none => exact .done _
  | some halt => exact h

end Changed

/-- A whole is changed without failure when the parts that are changed are. -/
theorem Whole.Handles.unfailing {κ : Type} {w : Whole κ} {K : κ → Bool} {g : κ → Value → Changed}
    {step : Value → Changed} {parts : List (κ × Value)} (handles : w.Handles K g step)
    (fits : w.fits (parts.map Prod.fst))
    (h : ∀ part ∈ parts, K part.1 = true → (g part.1 part.2).Unfailing) :
    (step (w.make parts)).Unfailing := by
  rcases handles parts fits with hcut | ⟨part, hpart, hk, halt, hg, hstop⟩ | ⟨-, heq⟩
  · exact .cutOff hcut
  · exact (h part hpart hk).of_stop (hstop.trans hg.symm)
  · rw [heq]
    exact .done _

/-- An array is changed without failure when its elements are. -/
theorem Whole.Handles.unfailing_array {g : Nat → Value → Changed} {step : Value → Changed}
    {items : List Value} (handles : Whole.elements.Handles (fun _ => true) g step)
    (h : ∀ i w, items[i]? = some w → (g i w).Unfailing) : (step (.array items)).Unfailing := by
  rw [← Whole.make_numbered]
  exact handles.unfailing (Whole.fits_numbered items) fun part hpart _ =>
    h part.1 part.2 (Whole.mem_numbered.mp hpart)

namespace Arena

open TypeTree

variable {a : Arena} {revivers : Revivers} {n : Nat} {id : NodeId} {v : Value}

/-- An instance is encoded without failure, the type of a node followed down to a depth. -/
def EncodesInstance (a : Arena) (revivers : Revivers) (n : Nat) (id : NodeId) (v : Value) : Prop :=
  Judges (a.unfolding id) v true → (alter .encode revivers n (a.unfolding id) v).Unfailing

/-- A value that is an instance of some member is encoded as the first of these. -/
theorem unfailing_tagFirst {f : TypeTree → Value → Changed} {trees : List TypeTree}
    (h : ∀ u ∈ trees, Judges u v true → (f u v).Unfailing) (holds : ∃ u ∈ trees, Judges u v true)
    (i : Nat) : (tagFirst f v i trees).Unfailing := by
  induction trees generalizing i with
  | nil =>
    obtain ⟨u, hu, -⟩ := holds
    cases hu
  | cons u rest ih =>
    obtain ⟨hu, hrest⟩ := List.forall_mem_cons.mp h
    rw [tagFirst]
    by_cases hjudges : Judges u v true
    · rw [if_pos hjudges]
      exact (hu hjudges).andThen_done _
    · rw [if_neg hjudges]
      obtain ⟨u', hu', hjudges'⟩ := holds
      rcases List.mem_cons.mp hu' with rfl | hu'
      · exact absurd hjudges' hjudges
      · exact ih hrest ⟨u', hu', hjudges'⟩ (i + 1)

theorem unfailing_atom {x : Atom} (h : (a.node id).shape = .atom x) :
    (Changed.inTurn ((a.unfolding id).steps .encode revivers (alter .encode revivers n))
      v).Unfailing := by
  cases hnever : x.isNever with
  | true =>
    have hself : (a.node id).standsFor? = none := by simp only [Node.standsFor?, h]
    refine .cutOff ?_
    simp only [steps, label_unfolding hself, labelOf, h, x.isNever_canonical, hnever, if_true]
    rfl
  | false =>
    rw [steps_atom h hnever]
    cases x.codec? with
    | none => exact .done v
    | some codec => exact .done _

/-- The member of a property. -/
theorem unfailing_property {name : String} {child : NodeId}
    (h : (a.node id).shape = .property name child) {w : Value} (hw : v.member name = w)
    (judges : Judges (a.unfolding id) v true) (ih : ∀ m < n, a.EncodesInstance revivers m child w) :
    (TypeTree.alterMember .encode revivers n (a.unfolding id) w).Unfailing := by
  obtain ⟨hlabel, hpart⟩ := label_of_property h
  cases n with
  | zero => exact .cutOff rfl
  | succ n =>
    have hoptional : (a.unfolding id).isOptional = (a.node id).optional := by
      rw [isOptional, hlabel]
    rw [TypeTree.alterMember, hoptional, hpart]
    split
    · rename_i hpresent
      subst hw
      exact ih n (Nat.lt_succ_self n) (judges_property h judges hpresent.2)
    · exact .done w

theorem unfailing_object (places : a.WellPlaced) {props : List NodeId} {index : Option NodeId}
    {className : Option String} (h : (a.node id).shape = .object props index className)
    (names : v.hasNames = true) (judges : Judges (a.unfolding id) v true)
    (ih : ∀ m ≤ n, ∀ id v, a.propertyName? id = none → v.hasNames = true →
      a.EncodesInstance revivers m id v) :
    (Changed.inTurn ((a.unfolding id).steps .encode revivers (alter .encode revivers n))
      v).Unfailing := by
  obtain ⟨hobject, -⟩ := judges.of_guarded (facet_object h)
  cases v <;> cases hobject
  rename_i members
  obtain ⟨hdistinct, hnames⟩ := Bool.and_eq_true_iff.mp names
  have hdistinct := of_decide_eq_true hdistinct
  rw [steps_object h, show Way.revive revivers .encode className = [] from rfl, List.append_nil]
  refine (handles_memberSteps (places.distinct id props index className h)).unfailing hdistinct
    fun m hm _ => ?_
  have hmNames := Value.hasNames_of_mem_members hnames hm
  unfold alterMember
  cases hfound : (a.properties props).find? (·.name = m.1) with
  | some p =>
    have hp := List.mem_of_find?_eq_some hfound
    obtain ⟨-, -, child, hshape⟩ := shape_of_mem_properties hp
    have hname : p.name = m.1 := by simpa using List.find?_some hfound
    refine unfailing_property hshape (hname ▸ Value.member_of_mem hdistinct hm)
      (judges_declared h judges hp) fun m' hm' => ?_
    exact ih m' (Nat.le_of_lt hm') child m.2 (places.propertyName?_child hshape) hmNames
  | none =>
    cases hindex : a.indexFilter index with
    | none => exact .done m.2
    | some x =>
      obtain ⟨value, filter⟩ := x
      dsimp only
      cases haccepts : filter.accepts m.1 with
      | false => exact .done m.2
      | true =>
        have hundeclared :
            (Compile.declaredNames (a.properties props)).contains m.1 = false := by
          rw [Bool.eq_false_iff, Ne, List.contains_iff_mem, Compile.declaredNames, List.mem_map]
          rintro ⟨p, hp, hname⟩
          exact List.find?_eq_none.mp hfound p hp (decide_eq_true hname)
        have hcovered : filter.covers (Compile.declaredNames (a.properties props)) m.1 = true := by
          rw [KeyFilter.covers, haccepts, hundeclared]
          rfl
        obtain ⟨child, hshape⟩ := shape_of_indexFilter hindex
        exact ih n le_rfl value m.2 (by rw [propertyName?, hshape]) hmNames
          (judges_indexed h judges hindex hm hcovered)

theorem unfailing_tuple {tuple : List NodeId} (h : (a.node id).shape = .tuple tuple)
    (names : v.hasNames = true) (judges : Judges (a.unfolding id) v true)
    (ih : ∀ pos ∈ tuple, ∀ w, w.hasNames = true → a.EncodesInstance revivers n pos w) :
    (Changed.inTurn ((a.unfolding id).steps .encode revivers (alter .encode revivers n))
      v).Unfailing := by
  obtain ⟨harray, -⟩ := judges.of_guarded (facet_tuple h)
  cases v <;> cases (Bool.and_eq_true_iff.mp harray).1
  rename_i items
  have hsplit := splitTuple_append (a := a) tuple
  rw [steps_tuple h]
  refine (handles_elementSteps tuple).unfailing_array fun i w hw => ?_
  have hwNames := Value.hasNames_of_mem_items names (List.mem_of_getElem? hw)
  unfold alterElement
  cases hpos : (a.splitTuple tuple).1[i]? with
  | some pos =>
    have hmem : pos ∈ tuple := by
      rw [← hsplit]
      exact List.mem_append_left _ (List.mem_of_getElem? hpos)
    dsimp only
    cases hpresent : (a.node pos).optional && w.isUndefined with
    | true => exact .done w
    | false => exact ih pos hmem w hwNames (judges_fixed h judges hpos hw hpresent)
  | none =>
    cases hrest : (a.splitTuple tuple).2 with
    | none => exact .done w
    | some last =>
      have hmem : last ∈ tuple := by
        rw [← hsplit, hrest]
        exact List.mem_append_right _ List.mem_cons_self
      exact ih last hmem w hwNames
        (judges_rest h judges (List.getElem?_eq_none_iff.mp hpos) hrest hw)

/-- A node with code of its own. -/
theorem unfailing_steps (places : a.WellPlaced) (hself : (a.node id).standsFor? = none)
    (property : a.propertyName? id = none) (names : v.hasNames = true)
    (judges : Judges (a.unfolding id) v true)
    (ih : ∀ m ≤ n, ∀ id v, a.propertyName? id = none → v.hasNames = true →
      a.EncodesInstance revivers m id v) :
    (Changed.inTurn ((a.unfolding id).steps .encode revivers (alter .encode revivers n))
      v).Unfailing := by
  have hchild {child : NodeId} (hmem : child ∈ (a.node id).children)
      (hobject : ∀ props index className, (a.node id).shape ≠ .object props index className) :
      a.propertyName? child = none := by
    by_contra hchild
    obtain ⟨props, index, className, hshape⟩ := places.placed id child hmem hchild
    exact hobject props index className hshape
  cases hshape : (a.node id).shape with
  | atom x => exact unfailing_atom hshape
  | array item =>
    have hitem : a.propertyName? item = none := by
      refine hchild ?_ fun _ _ _ => by rw [hshape]; rintro ⟨⟩
      simp only [Node.children, hshape, Shape.children, List.mem_singleton]
    obtain ⟨harray, -⟩ := judges.of_guarded (facet_array hshape)
    cases v <;> cases harray
    rename_i items
    rw [steps_array hshape, funext (Changed.inTurn_singleton _)]
    have handles := (Whole.Handles.elementsFrom (s := 0)
      (g := fun _ => alter .encode revivers n (a.unfolding item))
      (f := alter .encode revivers n (a.unfolding item)) fun _ _ _ => rfl).all
      fun i _ hi => absurd (Nat.zero_le i) (of_decide_eq_false hi)
    refine handles.unfailing_array fun i w hw => ih n le_rfl item w hitem ?_ (judges_item hshape judges hw)
    exact Value.hasNames_of_mem_items names (List.mem_of_getElem? hw)
  | property name child =>
    rw [propertyName?, hshape] at property
    cases property
  | tupleMember child | indexSignature filter child | rest child | parameter name child rest =>
    simp only [Node.standsFor?, hshape, reduceCtorEq] at hself
  | promise child | function f =>
    refine .cutOff ?_
    simp only [steps, label_unfolding hself, labelOf, hshape]
    rfl
  | object props index className => exact unfailing_object places hshape names judges ih
  | tuple tuple =>
    refine unfailing_tuple hshape names judges fun pos hpos w hw => ih n le_rfl pos w ?_ hw
    refine hchild ?_ fun _ _ _ => by rw [hshape]; rintro ⟨⟩
    simpa only [Node.children, hshape, Shape.children] using hpos
  | union members =>
    rw [steps_union hshape, Changed.inTurn_singleton]
    refine unfailing_tagFirst (List.forall_mem_map.mpr fun member hmember => ?_)
      (judges.of_oneOf (facet_union hshape)) 0
    refine ih n le_rfl member v (hchild ?_ fun _ _ _ => by rw [hshape]; rintro ⟨⟩) names
    simpa only [Node.children, hshape, Shape.children] using hmember

/-- **An instance is encoded without failure**, at every depth of the walk. -/
theorem encodesInstance (places : a.WellPlaced) (n : Nat) : ∀ id v, a.propertyName? id = none →
    v.hasNames = true → a.EncodesInstance revivers n id v := by
  induction n using Nat.strongRecOn with
  | ind n ih =>
    intro id v property names judges
    cases n with
    | zero => exact .cutOff rfl
    | succ n =>
      by_cases hneeds : (a.unfolding id).Needs .encode
      · cases hcore : a.core id with
        | none => exact absurd (unfolding_eq_empty hcore) hneeds.ne_empty
        | some core =>
          rw [unfolding_core hcore] at hneeds judges ⊢
          rw [alter_of_needs hneeds]
          exact unfailing_steps places (standsFor_of_core hcore)
            (places.propertyName?_core property hcore) names judges
            fun m hm => ih m (Nat.lt_succ_of_le hm)
      · rw [alter_of_not_needs hneeds]
        exact .done v

end Arena

/-! ## Handles -/

namespace Handle

variable {e : Engine} {a : Arena} {r : Registry} {handles : List (NodeId × Handle)} {id : NodeId}
  {tester encoder emitter : Handle} {v : Value}

/-- A value that a test accepts is an instance of the type the test is for. -/
theorem judges_of_isType (types : Arena.LoweredTypes {a}) (built : e.Builds a r handles)
    (htester : (id, tester) ∈ handles) (tests : tester.key.target = .isType)
    (valid : tester.isType r v = true) : Judges (a.unfolding id) v true := by
  refine valid ▸ judges_isType (types.faithful.faithful rfl) built htester tests fun hcut => ?_
  rw [isType, hcut] at valid
  cases valid

/-- An encoder does not fail on an instance. -/
theorem unfailing_transform (types : Arena.LoweredTypes {a}) (places : a.WellPlaced)
    (built : e.Builds a r handles) (property : a.propertyName? id = none)
    (hencoder : (id, encoder) ∈ handles) (encodes : encoder.key.target = .jsonEncode)
    (names : v.hasNames = true) (judges : Judges (a.unfolding id) v true) :
    (encoder.transform r v).Unfailing := by
  obtain ⟨hr, hhandles⟩ := built.compiled
  obtain ⟨hkey, hid, -⟩ := hhandles _ hencoder
  have hkey : ⟨(a.node id).identity, Way.encode.target⟩ ∈ r.keys := by
    rw [← hid, show Way.encode.target = .jsonEncode from rfl, ← encodes]
    exact hkey
  obtain ⟨n, hn⟩ := Program.within_transform encoder.revivers
    (hr.filledFrom (types.faithful.faithful rfl)) types.marked rfl hkey v
  rw [transform, hid, encodes]
  rcases hn n le_rfl with hcut | hsame
  · exact .cutOff hcut
  · intro halt hstop
    have hinstance : a.EncodesInstance encoder.revivers n id v :=
      Arena.encodesInstance places n id v property names
    have hencodes := hinstance judges
    rw [← hsame] at hencodes
    exact Halt.eq_cutOff_of_unnamed (hencodes halt.unnamed (congrArg (Option.map Halt.unnamed) hstop))

/-- **A value that the test accepts is a member of every union it meets**, when it is encoded, and
also when it is printed, if no optional position of a tuple has a union that is tagged. -/
theorem ne_noUnionMember_of_isType (types : Arena.LoweredTypes {a}) (places : a.WellPlaced)
    (built : e.Builds a r handles) (property : a.propertyName? id = none)
    (htester : (id, tester) ∈ handles) (tests : tester.key.target = .isType)
    (hencoder : (id, encoder) ∈ handles) (encodes : encoder.key.target = .jsonEncode)
    (hemitter : (id, emitter) ∈ handles) (emits : emitter.key.target = .jsonStringify)
    (names : v.hasNames = true) (valid : tester.isType r v = true)
    (encoderEnds : (encoder.transform r v).stop ≠ some .cutOff) (union : String) :
    encoder.encode r v ≠ .error (.failed (.noUnionMember union)) ∧
      (a.Orderly → emitter.stringify r v ≠ .error (.failed (.noUnionMember union))) := by
  have judges := judges_of_isType types built htester tests valid
  have ends : (encoder.transform r v).stop = none := by
    by_contra hstop
    obtain ⟨halt, hstop⟩ := Option.ne_none_iff_exists'.mp hstop
    have hcut := unfailing_transform types places built property hencoder encodes names judges halt
      hstop
    exact encoderEnds (hcut ▸ hstop)
  refine ⟨fun hencode => ?_, fun orderly hstringify => ?_⟩
  · -- what was encoded has a document, unless there is a big integer in it
    have hdone : encoder.transform r v = .done (encoder.transform r v).value := by
      rw [Changed.done, ← ends]
    rw [encode_of_done hdone] at hencode
    cases hdocument : (encoder.transform r v).value.toJson with
    | ok j =>
      rw [hdocument] at hencode
      cases hencode
    | error error =>
      rw [hdocument] at hencode
      cases hencode
      rcases Except.bind_eq_error.mp hdocument with h | ⟨_, -, h⟩
      · obtain ⟨n, hn⟩ := Value.eq_of_toJsonSlot _ h
        cases hn
      · cases h
  · obtain ⟨written, hagree, hwritten⟩ := exists_agree types orderly built property hencoder encodes
      hemitter emits names encoderEnds (by rw [hstringify]; rintro ⟨⟩)
    rw [hstringify] at hwritten
    rw [show (encoder.transform r v).unnamed = .done (encoder.transform r v).value by
      rw [Changed.unnamed, ends]; rfl] at hagree
    cases hagree with
    | written => cases hwritten
    | refused _ matched =>
      cases hwritten
      cases matched

end Handle

/-! ## Trees of numbers

A tree is an array of trees and big integers.  All unions of the type are one, and it is met at
every depth.
-/

namespace Trees

def sample : Sample where
  graph := {
    nodes := #[⟨.array ⟨1⟩, some "Tree"⟩, ⟨.union [⟨0⟩, ⟨2⟩], none⟩, ⟨.bigint, none⟩]
    roots := [("Tree", ⟨0⟩)] }
  targets := [.jsonStringify, .jsonEncode, .isType]

def value : Value := .array [.bigint 5, .array [.array [], .bigint 7]]

theorem computed : sample.loads = true ∧ sample.isFaithful = true ∧ sample.isBuilt = true ∧
    sample.arena.isOrderly = true ∧ sample.isOwn = true ∧ value.hasNames = true ∧
    (sample.handle .isType).isType sample.registry value = true ∧
    ((sample.handle .jsonEncode).transform sample.registry value).stop.isNone = true := by
  decide +kernel

theorem members_found :
    (sample.handle .jsonEncode).encode sample.registry value ≠
      .error (.failed (.noUnionMember (sample.arena.node ⟨1⟩).identity)) ∧
    (sample.arena.Orderly → (sample.handle .jsonStringify).stringify sample.registry value ≠
      .error (.failed (.noUnionMember (sample.arena.node ⟨1⟩).identity))) := by
  obtain ⟨loads, faithful, built, orderly, own, names, valid, ends⟩ := computed
  have types := Sample.loweredTypes loads faithful
  have places := (Arena.orderly_of_isOrderly (types.marked sample.arena rfl) orderly).toWellPlaced
  exact Handle.ne_noUnionMember_of_isType types places (Sample.builds built) (Sample.own own).2
    (Sample.mem_handles (by decide)) rfl (Sample.mem_handles (by decide)) rfl
    (Sample.mem_handles (by decide)) rfl names valid
    (by rw [Option.isNone_iff_eq_none.mp ends]; exact nofun) _

end Trees

/-! ## An optional element

A tuple with one optional position, of a union that is tagged.  Where the element is there and
undefined, the test passes over it and the encoder leaves it alone, but the printer asks for a
member of the union.
-/

namespace OptionalElement

def sample : Sample where
  graph := {
    nodes := #[⟨.tuple [⟨1⟩], none⟩, ⟨.tupleMember ⟨2⟩ true none, none⟩, ⟨.union [⟨3⟩, ⟨4⟩], none⟩,
      ⟨.string, none⟩, ⟨.bigint, none⟩]
    roots := [("Pair", ⟨0⟩)] }
  targets := [.jsonStringify, .jsonEncode, .isType]

def value : Value := .array [.undefined]

/-- The printer finds no member for a value that the test accepts and the encoder encodes. -/
theorem print_fails : sample.loads = true ∧ sample.isFaithful = true ∧
    sample.arena.isWellPlaced = true ∧ sample.isBuilt = true ∧ value.hasNames = true ∧
    (sample.handle .isType).isType sample.registry value = true ∧
    ((sample.handle .jsonEncode).encode sample.registry value).isOk = true ∧
    (sample.handle .jsonStringify).stringify sample.registry value =
      .error (.failed (.noUnionMember "union<string|bigint>")) := by
  decide +kernel

end OptionalElement

end Typeforge
