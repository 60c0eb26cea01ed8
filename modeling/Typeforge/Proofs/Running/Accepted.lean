/-
# `Typeforge.Proofs.Running.Accepted` — what a type accepts is encoded

An encoder never fails on a value that its type accepts (`Registry.Serves.encodes`).
The value need not be an exact instance: members that no type is for stay as they are,
and so does whatever lies in them.  All else is a part that a type accepts, so that the
induction is on the depth to which the type has to be followed to see that.

The same depth counts the calls.  A function is called on a value itself only from a
union that has its type as a member, and the union accepts the value one level later
than the member does.
-/
import Typeforge.Proofs.Running.Making

namespace Typeforge

/-! ## Parts of accepted values -/

/-- The first of some that answers yes, where those before it answer no. -/
theorem exists_first_of_anyM {α : Type} {p : α → Option Bool} {xs : List α}
    (h : xs.anyM p = some true) :
    ∃ front x back, xs = front ++ x :: back ∧ p x = some true ∧ ∀ y ∈ front, p y = some false := by
  induction xs with
  | nil => cases h
  | cons x xs ih =>
    rw [List.anyM] at h
    cases hx : p x with
    | none =>
      rw [hx] at h
      cases h
    | some answer =>
      cases answer with
      | true => exact ⟨[], x, xs, rfl, hx, fun _ hy => absurd hy List.not_mem_nil⟩
      | false =>
        rw [hx] at h
        obtain ⟨front, y, back, rfl, hy, hfront⟩ := ih h
        exact ⟨x :: front, y, back, rfl, hy, List.forall_mem_cons.mpr ⟨hx, hfront⟩⟩

namespace Arena

variable {a : Arena} {id : NodeId} {n : Nat} {v : Value}

theorem demands_of_judge {t : TypeTree} {fits : Bool} {expected : String} {ds : List Demand}
    (hfacet : t.facet v = .guarded fits expected ds) (h : t.judge (n + 1) v = some true) :
    fits = true ∧ ∀ d ∈ ds, d.tree.judge n d.value = some true := by
  rw [TypeTree.judge, hfacet] at h
  cases fits with
  | false => cases h
  | true => exact ⟨rfl, (allM_eq_some h).1 rfl⟩

theorem items_of_judge {item : NodeId} (hshape : (a.node id).shape = .array item)
    (h : (a.unfolding id).judge (n + 1) v = some true) :
    ∃ items, v = .array items ∧ ∀ w ∈ items, (a.unfolding item).judge n w = some true := by
  obtain ⟨holds, parts⟩ := demands_of_judge (facet_array hshape) h
  cases v <;> simp only [Kind.holds, Bool.false_eq_true] at holds
  rename_i items
  refine ⟨items, rfl, fun w hw => ?_⟩
  obtain ⟨i, hi⟩ := List.mem_iff_getElem?.mp hw
  refine parts ⟨[.index i], a.unfolding item, w⟩ (List.mem_map.mpr ⟨(.index i, w), ?_, rfl⟩)
  refine List.mem_map.mpr ⟨(w, i), ?_, rfl⟩
  rw [List.drop_zero]
  exact List.mem_zipIdx_iff_getElem?.mpr hi

/-- A member that an object type has a type for is left out, or accepted by its type. -/
theorem members_of_judge {props : List NodeId} {index : Option NodeId} {className : Option String}
    (hshape : (a.node id).shape = .object props index className)
    (h : (a.unfolding id).judge (n + 1) v = some true) :
    ∃ members, v = .object members ∧ ((members.map Prod.fst).Nodup → ∀ m ∈ members,
      ∀ optional u, (a.unfolding id).memberType (props.map a.propertyName?)
          ((a.indexFilter index).map (·.2)) m.1 = some (optional, u) →
        (optional && m.2.isUndefined) = true ∨ u.judge n m.2 = some true) := by
  obtain ⟨holds, parts⟩ := demands_of_judge (facet_object hshape) h
  cases v <;> simp only [Kind.holds, Bool.false_eq_true] at holds
  rename_i members
  refine ⟨members, rfl, fun distinct m hm optional u htype => ?_⟩
  rw [memberType_unfolding hshape] at htype
  cases hfound : (a.properties props).find? (·.name = m.1) with
  | some p =>
    obtain ⟨-, hoptional, child, hchild⟩ :=
      shape_of_mem_properties (List.mem_of_find?_eq_some hfound)
    have hname : p.name = m.1 := by simpa using List.find?_some hfound
    simp only [hfound, Option.some.injEq, Prod.mk.injEq, (label_of_property hchild).2] at htype
    obtain ⟨rfl, rfl⟩ := htype
    have hproperty : (a.unfolding p.id).judge n (.object members) = some true :=
      parts _ (List.mem_append_left _ (List.mem_map_of_mem (List.mem_of_find?_eq_some hfound)))
    have hmember : Value.member p.name (.object members) = m.2 := by
      rw [Value.member, hname, Members.get?_eq_of_mem distinct hm]
      rfl
    cases n with
    | zero => cases hproperty
    | succ n =>
      rw [TypeTree.judge, facet_property hchild, hmember, ← hoptional] at hproperty
      cases hskip : p.optional && m.2.isUndefined with
      | true => exact .inl rfl
      | false =>
        rw [TypeTree.reached, hskip, if_neg Bool.false_ne_true] at hproperty
        exact .inr (TypeTree.judge_succ n _ _ true ((allM_eq_some hproperty).1 rfl _
          List.mem_cons_self))
  | none =>
    cases hindex : a.indexFilter index with
    | none => simp only [hfound, hindex, reduceCtorEq] at htype
    | some x =>
      obtain ⟨value, filter⟩ := x
      simp only [hfound, hindex, Option.ite_none_right_eq_some, Option.some.injEq,
        Prod.mk.injEq] at htype
      obtain ⟨haccepts, rfl, rfl⟩ := htype
      have hundeclared : (Compile.declaredNames (a.properties props)).contains m.1 = false := by
        rw [Bool.eq_false_iff, Ne, List.contains_iff_mem, Compile.declaredNames, List.mem_map]
        rintro ⟨p, hp, hname⟩
        exact List.find?_eq_none.mp hfound p hp (decide_eq_true hname)
      refine .inr (parts ⟨[.key m.1], a.unfolding value, m.2⟩ (List.mem_append_right _ ?_))
      simp only [hindex]
      refine List.mem_map.mpr ⟨(.key m.1, m.2), List.mem_map.mpr ⟨m, ?_, rfl⟩, rfl⟩
      refine List.mem_filter.mpr ⟨hm, ?_⟩
      rw [KeyFilter.covers, haccepts, hundeclared]
      rfl

/-- An element of a tuple is left out, or accepted by the type of its position. -/
theorem elements_of_judge {tuple : List NodeId} (hshape : (a.node id).shape = .tuple tuple)
    (h : (a.unfolding id).judge (n + 1) v = some true) :
    ∃ items, v = .array items ∧ ∀ i w, items[i]? = some w → ∃ optional u,
      (a.unfolding id).elementType ((a.splitTuple tuple).1.map a.slot) (a.splitTuple tuple).2.isSome i
        = some (optional, u) ∧ ((optional && w.isUndefined) = true ∨ u.judge n w = some true) := by
  obtain ⟨holds, parts⟩ := demands_of_judge (facet_tuple hshape) h
  obtain ⟨holds, fits⟩ := Bool.and_eq_true_iff.mp holds
  obtain ⟨items, rfl⟩ : ∃ items, v = .array items := by
    cases v <;> first | exact ⟨_, rfl⟩ | cases holds
  refine ⟨items, rfl, fun i w hw => ?_⟩
  rw [elementType_unfolding hshape]
  cases hpos : (a.splitTuple tuple).1[i]? with
  | some pos =>
    refine ⟨_, _, rfl, ?_⟩
    cases hskip : (a.node pos).optional && w.isUndefined with
    | true => exact .inl rfl
    | false =>
      refine .inr (parts ⟨[.index i], a.unfolding pos, w⟩ (List.mem_append_left _ ?_))
      refine List.mem_flatMap.mpr ⟨(pos, i), List.mem_zipIdx_iff_getElem?.mpr hpos, ?_⟩
      have helement : Value.element i (.array items) = w := by
        rw [Value.element, hw]
        rfl
      rw [helement, TypeTree.reached, hskip, if_neg Bool.false_ne_true]
      exact List.mem_cons_self
  | none =>
    have hbehind : (a.splitTuple tuple).1.length ≤ i := List.getElem?_eq_none_iff.mp hpos
    cases hrest : (a.splitTuple tuple).2 with
    | none =>
      rw [hrest, Option.isSome_none, Bool.false_or] at fits
      have hlength : items.length ≤ (a.splitTuple tuple).1.length := of_decide_eq_true fits
      rw [List.getElem?_eq_none (hlength.trans hbehind)] at hw
      cases hw
    | some last =>
      refine ⟨_, _, rfl, .inr ?_⟩
      refine parts ⟨[.index i], a.unfolding last, w⟩ (List.mem_append_right _ ?_)
      simp only [hrest]
      refine List.mem_map.mpr ⟨(.index i, w), List.mem_map.mpr ⟨(w, i), ?_, rfl⟩, rfl⟩
      rw [List.mem_iff_getElem?]
      refine ⟨i - (a.splitTuple tuple).1.length, ?_⟩
      rw [List.getElem?_drop, Nat.add_sub_cancel' hbehind, List.getElem?_zipIdx, hw, Nat.zero_add]
      rfl

theorem member_of_judge {members : List NodeId} (hshape : (a.node id).shape = .union members)
    (h : (a.unfolding id).judge (n + 1) v = some true) :
    ∃ front m back, members = front ++ m :: back ∧ (a.unfolding m).judge n v = some true ∧
      ∀ f ∈ front, (a.unfolding f).judge n v = some false := by
  rw [TypeTree.judge, facet_union hshape] at h
  obtain ⟨trees, u, others, hmembers, hu, hfront⟩ := exists_first_of_anyM h
  obtain ⟨front, rest, rfl, rfl, hrest⟩ := List.map_eq_append_iff.mp hmembers
  obtain ⟨m, back, rfl, rfl, rfl⟩ := List.map_eq_cons_iff.mp hrest
  exact ⟨front, m, back, rfl, hu, List.forall_mem_map.mp hfront⟩

end Arena

/-! ## Encoders of accepted values -/

namespace Registry

/-- Whether all code for a type encodes a value. -/
def Encodes (r : Registry) (a : Arena) (revivers : Revivers) (K : Nat) (t : TypeTree) (v : Value) :
    Prop :=
  ∃ encoded, r.Makes a revivers K .encode t (· v = .done encoded) ∧ (¬ t.Needs .encode → v = encoded)

/-- Whether the code of nodes of a type encodes a value. -/
def NodesEncode (r : Registry) (a : Arena) (revivers : Revivers) (K : Nat) (t : TypeTree)
    (v : Value) : Prop :=
  ∃ encoded, r.NodesMake a revivers K .encode t (· v = .done encoded) ∧
    (¬ t.Needs .encode → v = encoded)

variable {r : Registry} {a : Arena} {revivers : Revivers} {limit K K' : Nat} {t : TypeTree}
  {v : Value}

theorem Encodes.mono (h : r.Encodes a revivers K t v) (hK : K ≤ K') : r.Encodes a revivers K' t v := by
  obtain ⟨encoded, hmakes, hplain⟩ := h
  exact ⟨encoded, hmakes.mono hK, hplain⟩

theorem Serves.encodes_of_nodes (serves : r.Serves a revivers limit) (hK : K ≤ K')
    (called : ∀ id, a.unfolding id = t → (a.node id).identity ∈ (r.program revivers).names → K < K')
    (h : r.NodesEncode a revivers K t v) : r.Encodes a revivers K' t v := by
  obtain ⟨encoded, hmakes, hplain⟩ := h
  refine ⟨encoded, serves.makes hK called (fun hneeds => ?_) hmakes, hplain⟩
  rw [← hplain hneeds]

theorem nodesEncode_atom {x : Atom} (label : t.label = some (.atom x)) (v : Value) :
    r.NodesEncode a revivers K t v := by
  refine ⟨(x.codec?.map fun codec => codec.encode v).getD v, ?_, fun plain => ?_⟩
  · intro _ k _ depth id body hself htree hcode
    have hlabel : a.labelOf (a.node id) = some (.atom x) := by
      rw [← Arena.label_unfolding hself, htree, label]
    obtain ⟨y, hshape, rfl⟩ := Arena.shape_of_atom hlabel
    rw [hcode.of_atom hshape, y.codec?_canonical]
    cases y.codec? with
    | none => rfl
    | some codec => exact Transform.runAll_singleton _ _ v
  · cases hcodec : x.codec? with
    | none => rfl
    | some codec => exact absurd (.atom label (by rw [Atom.needsCode, hcodec]; rfl)) plain

theorem nodesEncode_array (label : t.label = some .array) {items : List Value}
    (h : ∀ w ∈ items, r.Encodes a revivers K (t.part 0) w) :
    r.NodesEncode a revivers K t (.array items) := by
  choose! encoded makes plain using h
  have heta : items.map id = items := List.map_id items
  have parts : ∀ w ∈ items, r.Makes a revivers K .encode (t.part 0) (· (id w) = .done (encoded w)) :=
    makes
  refine ⟨.array (items.map encoded), ?_, fun hneeds => ?_⟩
  · have := makes_array label parts
    rwa [heta] at this
  · have hsame : items.map id = items.map encoded :=
      List.map_congr_left fun w hw => plain w hw (mt (.part 0) hneeds)
    rw [← hsame, heta]

theorem Serves.nodesEncode_object (serves : r.Serves a revivers limit)
    {props : List (Option String)} {index : Option KeyFilter} {className : Option String}
    (label : t.label = some (.object props index className)) {members : List (String × Value)}
    (distinct : (members.map Prod.fst).Nodup)
    (h : ∀ m ∈ members, ∀ optional u, t.memberType props index m.1 = some (optional, u) →
      (optional && m.2.isUndefined) = true ∨ r.Encodes a revivers K u m.2) :
    r.NodesEncode a revivers (K + 1) t (.object members) := by
  have each : ∀ m ∈ members, ∃ encoded,
      (∀ optional u, t.memberType props index m.1 = some (optional, u) →
        r.MakesMember a revivers K .encode optional u m.2 encoded) ∧
      (t.memberType props index m.1 = none → m.2 = encoded) := by
    intro m hm
    cases htype : t.memberType props index m.1 with
    | none => exact ⟨m.2, nofun, fun _ => rfl⟩
    | some x =>
      obtain ⟨optional, u⟩ := x
      cases hskip : optional && m.2.isUndefined with
      | true =>
        refine ⟨m.2, ?_, nofun⟩
        rintro _ _ ⟨⟩
        rw [MakesMember, hskip, if_pos rfl]
      | false =>
        obtain ⟨encoded, makes, plain⟩ := (h m hm optional u htype).resolve_left (by
          rw [hskip]
          exact Bool.false_ne_true)
        refine ⟨encoded, ?_, nofun⟩
        rintro _ _ ⟨⟩
        exact makesMember_of_present hskip plain makes
  choose! encoded typed untyped using each
  have heta : (members.map fun m => (m.1, m.2)) = members := List.map_id members
  refine ⟨.object (members.map fun m => (m.1, encoded m)), ?_, fun hneeds => ?_⟩
  · have := serves.makes_object label (s := ⟨.members, members, Prod.fst, Prod.snd, encoded⟩) rfl
      distinct typed untyped
    rwa [heta] at this
  · have hsame : (members.map fun m => (m.1, m.2)) = members.map fun m => (m.1, encoded m) := by
      refine List.map_congr_left fun m hm => ?_
      cases htype : t.memberType props index m.1 with
      | none => rw [← untyped m hm htype]
      | some x =>
        rw [← (typed m hm x.1 x.2 htype).eq_of_plain (mt (TypeTree.needs_of_memberType htype) hneeds)]
    rw [← hsame, heta]

theorem nodesEncode_tuple {slots : List Slot} {rest : Bool}
    (label : t.label = some (.tuple slots rest)) {items : List Value}
    (h : ∀ i w, items[i]? = some w → ∃ optional u, t.elementType slots rest i = some (optional, u) ∧
      ((optional && w.isUndefined) = true ∨ r.Encodes a revivers K u w)) :
    r.NodesEncode a revivers K t (.array items) := by
  have each : ∀ m ∈ Whole.numbered items, ∃ encoded,
      r.MakesElement a revivers K .encode t slots rest m.1 m.2 encoded ∧
      (¬ t.Needs .encode → m.2 = encoded) := by
    intro m hm
    obtain ⟨optional, u, htype, hm⟩ := h m.1 m.2 (Whole.mem_numbered.mp hm)
    have hslot {slot : Slot} (hslot : slots[m.1]? = some slot) : slot.optional = optional := by
      simp only [TypeTree.elementType, hslot, Option.some.injEq, Prod.mk.injEq] at htype
      exact htype.1
    cases hskip : optional && m.2.isUndefined with
    | true =>
      obtain ⟨rfl, hundefined⟩ := Bool.and_eq_true_iff.mp hskip
      obtain ⟨slot, hget⟩ : ∃ slot, slots[m.1]? = some slot := by
        cases hget : slots[m.1]? with
        | some slot => exact ⟨slot, rfl⟩
        | none =>
          simp only [TypeTree.elementType, hget, Option.ite_none_right_eq_some, Option.some.injEq,
            Prod.mk.injEq, Bool.false_eq_true, false_and, and_false] at htype
      have hvalue : m.2 = .undefined := by
        cases hv : m.2 <;> rw [hv] at hundefined <;> first | rfl | cases hundefined
      exact ⟨m.2, .inl ⟨slot, hget, hslot hget, hvalue, hvalue⟩, fun _ => rfl⟩
    | false =>
      obtain ⟨encoded, makes, plain⟩ := hm.resolve_left (by rw [hskip]; exact Bool.false_ne_true)
      refine ⟨encoded, .inr ⟨optional, u, htype, fun slot hget => ⟨?_, Way.noConfusion⟩, makes⟩,
        fun hneeds => plain (mt (TypeTree.needs_of_elementType htype) hneeds)⟩
      rw [hslot hget]
      exact hskip
  choose! encoded makes plain using each
  have heta : (Whole.numbered items).map Prod.snd = items :=
    Value.array.inj (Whole.make_numbered items)
  refine ⟨.array ((Whole.numbered items).map encoded), ?_, fun hneeds => ?_⟩
  · have := makes_tuple (w := .encode) label
      (s := ⟨.elements, Whole.numbered items, Prod.fst, Prod.snd, encoded⟩) rfl
      (Whole.fits_numbered items) makes
    rwa [heta] at this
  · rw [← List.map_congr_left fun m hm => plain m hm hneeds, heta]

/-- A union encodes what its first accepting member encodes, with the number of that member. -/
theorem Serves.nodesEncode_union (serves : r.Serves a revivers limit) {n : Nat}
    (label : t.label = some (.union n)) {front back : List TypeTree} {u : TypeTree}
    (trees : (List.range n).map t.part = front ++ u :: back) {j : Nat}
    (hfront : ∀ f ∈ front, f.judge j v = some false) (holds : u.judge j v = some true)
    (h : r.Encodes a revivers K u v) : r.NodesEncode a revivers K t v := by
  obtain ⟨encoded, makes, -⟩ := h
  by_cases hneeds : t.Needs .encode
  · exact ⟨_, serves.makes_tagged label trees hfront holds makes, fun h => absurd hneeds h⟩
  · exact ⟨v, fun h => absurd h hneeds, fun _ => rfl⟩

/-! ## All types -/

/-- How many nested calls an encoder may need, if the types of all functions that it may call on the
value itself accept the value. -/
noncomputable def acceptedRoom (r : Registry) (a : Arena) (revivers : Revivers) (n : Nat) (v : Value) :
    Nat :=
  r.roomFor a revivers (fun t => t.judge n v = some true) v

theorem acceptedRoom_le_succ (n : Nat) (v : Value) :
    r.acceptedRoom a revivers n v ≤ r.acceptedRoom a revivers (n + 1) v :=
  roomFor_le fun t => TypeTree.judge_succ n t v true

/-- The code of a node encodes what its type accepts, if all code does for the parts. -/
theorem Serves.nodesEncode (serves : r.Serves a revivers limit) {n : Nat} {id : NodeId}
    (hself : (a.node id).standsFor? = none) (property : a.propertyName? id = none)
    (names : v.hasNames = true) (accepts : (a.unfolding id).judge (n + 1) v = some true)
    (ih : ∀ id v, a.propertyName? id = none → v.hasNames = true →
      (a.unfolding id).judge n v = some true →
      r.Encodes a revivers (r.acceptedRoom a revivers n v) (a.unfolding id) v) :
    r.NodesEncode a revivers (r.acceptedRoom a revivers n v) (a.unfolding id) v := by
  have places := serves.carriable.toWellPlaced
  have below {w : Value} (h : w.levels < v.levels) (hw : w.hasNames = true) {child : NodeId}
      (hproperty : a.propertyName? child = none)
      (haccepts : (a.unfolding child).judge n w = some true) :
      r.Encodes a revivers (r.acceptedRoom a revivers n v - 1) (a.unfolding child) w :=
    (ih child w hproperty hw haccepts).mono (Nat.le_sub_one_of_lt (roomFor_lt_of_levels h))
  have hlabel := Arena.label_unfolding hself
  cases hshape : (a.node id).shape with
  | atom x =>
    rw [Arena.labelOf, hshape] at hlabel
    exact nodesEncode_atom hlabel v
  | array item =>
    obtain ⟨hlabel, hpart⟩ := Arena.label_of_array hshape
    obtain ⟨items, rfl, hitems⟩ := Arena.items_of_judge hshape accepts
    have hitem := places.propertyName?_part hshape List.mem_cons_self (by rintro _ _ _ ⟨⟩)
    refine nodesEncode_array hlabel fun w hw => ?_
    rw [hpart]
    exact (below (Value.levels_item_lt hw) (Value.hasNames_of_mem_items names hw) hitem
      (hitems w hw)).mono (Nat.sub_le _ _)
  | object props index className =>
    rw [Arena.labelOf, hshape] at hlabel
    obtain ⟨members, rfl, hmembers⟩ := Arena.members_of_judge hshape accepts
    obtain ⟨hdistinct, hnames⟩ := Bool.and_eq_true_iff.mp names
    have hless : r.roomFor a revivers (fun _ => False) .undefined <
        r.acceptedRoom a revivers n (.object members) :=
      roomFor_lt_of_levels (Value.levels_undefined_lt (by rintro ⟨⟩))
    have hpos := (Nat.zero_le _).trans_lt hless
    rw [← Nat.sub_one_add_one hpos.ne']
    refine serves.nodesEncode_object hlabel (of_decide_eq_true hdistinct)
      fun m hm optional u htype => ?_
    refine (hmembers (of_decide_eq_true hdistinct) m hm optional u htype).imp_right fun haccepts => ?_
    obtain ⟨child, rfl, hproperty⟩ := Arena.exists_memberType places hshape htype
    exact below (Value.levels_member_lt hm) (Value.hasNames_of_mem_members hnames hm) hproperty
      haccepts
  | tuple tuple =>
    rw [Arena.labelOf, hshape] at hlabel
    obtain ⟨items, rfl, hitems⟩ := Arena.elements_of_judge hshape accepts
    refine nodesEncode_tuple hlabel fun i w hw => ?_
    obtain ⟨optional, u, htype, haccepts⟩ := hitems i w hw
    refine ⟨optional, u, htype, haccepts.imp_right fun haccepts => ?_⟩
    obtain ⟨pos, hpos, rfl⟩ := Arena.exists_elementType hshape htype
    have hitem := List.mem_of_getElem? hw
    exact (below (Value.levels_item_lt hitem) (Value.hasNames_of_mem_items names hitem)
      (places.propertyName?_part hshape hpos (by rintro _ _ _ ⟨⟩)) haccepts).mono (Nat.sub_le _ _)
  | union members =>
    obtain ⟨front, m, back, rfl, haccepts, hfront⟩ := Arena.member_of_judge hshape accepts
    have hm : a.propertyName? m = none :=
      places.propertyName?_part hshape (List.mem_append_right _ List.mem_cons_self)
        (by rintro _ _ _ ⟨⟩)
    obtain ⟨hlabel, htrees⟩ := Arena.label_of_union hshape
    rw [List.map_append, List.map_cons] at htrees
    exact serves.nodesEncode_union hlabel htrees (List.forall_mem_map.mpr hfront) haccepts
      (ih m v hm names haccepts)
  | property name child =>
    rw [Arena.propertyName?, hshape] at property
    cases property
  | promise child | function f =>
    have hsilent : (a.unfolding id).facet v = .silent := by
      simp only [TypeTree.facet, hlabel, Arena.labelOf, hshape]
    rw [TypeTree.judge, hsilent] at accepts
    cases accepts
  | tupleMember child | indexSignature filter child | rest child | parameter name child rest =>
    simp only [Node.standsFor?, hshape, reduceCtorEq] at hself

/-- **Code encodes whatever its type accepts.** -/
theorem Serves.encodes (serves : r.Serves a revivers limit) (n : Nat) :
    ∀ id v, a.propertyName? id = none → v.hasNames = true →
      (a.unfolding id).judge n v = some true →
      r.Encodes a revivers (r.acceptedRoom a revivers n v) (a.unfolding id) v := by
  induction n with
  | zero => exact fun _ _ _ _ h => nomatch h
  | succ n ih =>
    intro id v property names accepts
    by_cases hless : (a.unfolding id).judge n v = some true
    · exact (ih id v property names hless).mono (acceptedRoom_le_succ n v)
    cases hcore : a.core id with
    | none =>
      rw [Arena.unfolding_eq_empty hcore] at accepts
      cases accepts
    | some core =>
      rw [Arena.unfolding_core hcore] at accepts hless ⊢
      refine serves.encodes_of_nodes (acceptedRoom_le_succ n v) (fun id htree hname => ?_)
        (serves.nodesEncode (Arena.standsFor_of_core hcore)
          (serves.carriable.propertyName?_core property hcore) names accepts ih)
      exact serves.roomFor_lt (fun t => TypeTree.judge_succ n t v true) hname (htree ▸ accepts)
        (htree ▸ hless)

end Registry

end Typeforge
