/-
# `Typeforge.Proofs.Running.Carrying` — exact instances are carried through JSON

What an encoder makes of an exact instance has a document, and what the decoder
makes of the document is the instance again.  Both run code for the same type, but
not the same code: an encoder leaves alone what only the decoder changes, and
either may be a call where the other is in place.  `Carried` tells the two apart by
what they make of one type, and no more is said of a part than what the code of its
type makes of it.

The induction is on the depth to which the type has to be followed to see that the
value is an exact instance.  It also counts the calls: a function that is called for
a value at the least such depth is not called for it again, so that all calls find
room in the bound.
-/
import Typeforge.Proofs.Running.Making

namespace Typeforge

/-! ## Carried values -/

/-- What becomes of a value: it is encoded, the encoded value has a document, and the document is
decoded to an equal value. What code does is taken as it is given for each way. -/
structure Carried (code : Way → ((Value → Changed) → Prop) → Prop) (t : TypeTree)
    (v encoded : Value) (d : Json) (decoded : Value) : Prop where
  encodes : code .encode (· v = .done encoded)
  document : encoded.toJsonSlot = .ok (some d)
  decodes : code .decode (· (.ofJson d) = .done decoded)
  same : decoded.equals v = true
  /-- The document has as many levels as the value. -/
  deep : v.depth ≤ (Value.ofJson d).depth
  null : d = .null → v = .null ∨ v = .undefined
  kept : ¬ t.Needs .encode → v = encoded
  left : ¬ t.Needs .decode → .ofJson d = decoded

namespace Registry

/-- Whether all code for a type carries a value through JSON. -/
def Carries (r : Registry) (a : Arena) (revivers : Revivers) (K : Nat) (t : TypeTree) (v : Value) :
    Prop :=
  ∃ encoded d decoded, Carried (fun w => r.Makes a revivers K w t) t v encoded d decoded

/-- Whether the code of nodes of a type carries a value through JSON. -/
def NodesCarry (r : Registry) (a : Arena) (revivers : Revivers) (K : Nat) (t : TypeTree)
    (v : Value) : Prop :=
  ∃ encoded d decoded, Carried (fun w => r.NodesMake a revivers K w t) t v encoded d decoded

variable {r : Registry} {a : Arena} {revivers : Revivers} {limit K K' : Nat} {t : TypeTree}
  {v : Value}

theorem Carries.mono (h : r.Carries a revivers K t v) (hK : K ≤ K') :
    r.Carries a revivers K' t v := by
  obtain ⟨encoded, d, decoded, h⟩ := h
  exact ⟨encoded, d, decoded, { h with
    encodes := Makes.mono h.encodes hK
    decodes := Makes.mono h.decodes hK }⟩

theorem Serves.carries (serves : r.Serves a revivers limit) (hK : K ≤ K')
    (called : ∀ id, a.unfolding id = t → (a.node id).identity ∈ (r.program revivers).names → K < K')
    (h : r.NodesCarry a revivers K t v) : r.Carries a revivers K' t v := by
  obtain ⟨encoded, d, decoded, h⟩ := h
  refine ⟨encoded, d, decoded, { h with
    encodes := serves.makes hK called (fun hneeds => ?_) h.encodes
    decodes := serves.makes hK called (fun hneeds => ?_) h.decodes }⟩
  · rw [← h.kept hneeds]
  · rw [h.left hneeds]

/-! ## Atoms -/

/-- The code of an atom's node is that of its codec. -/
theorem makes_atom {x : Atom} (label : t.label = some (.atom x)) {w : Way} {before after : Value}
    (h : ∀ c, Transform.runAll c (x.codec?.toList.map (match w with
      | .encode => .encode
      | .decode => .decode)) before = .done after) :
    r.NodesMake a revivers K w t (· before = .done after) := by
  intro _ k _ depth id body hself htree hcode
  have hlabel : a.labelOf (a.node id) = some (.atom x) := by
    rw [← Arena.label_unfolding hself, htree, label]
  obtain ⟨y, hshape, rfl⟩ := Arena.shape_of_atom hlabel
  rw [hcode.of_atom hshape, ← y.codec?_canonical]
  exact h _

theorem nodesCarry_atom {x : Atom} (label : t.label = some (.atom x)) (names : v.hasNames = true)
    (keeps : x.keeps v = true) (data : x.codec? = none → v.isData = true) :
    r.NodesCarry a revivers K t v := by
  cases hcodec : x.codec? with
  | some codec =>
    have carries : codec.carries v = true := by
      have h := (Bool.and_eq_true_iff.mp keeps).2
      rwa [hcodec] at h
    obtain ⟨d, document, hread, hdecode, flat, null⟩ := Codec.exists_carried carries
    have needs (w : Way) : t.Needs w := .atom label (by rw [Atom.needsCode, hcodec]; rfl)
    refine ⟨codec.encode v, d, v, makes_atom label fun c => ?_, document,
      makes_atom label fun c => ?_, Codec.equals_self carries, flat ▸ Nat.zero_le _,
      fun hd => .inr (null hd), fun h => absurd (needs _) h, fun h => absurd (needs _) h⟩
    · rw [hcodec]
      exact Transform.runAll_singleton _ _ v
    · rw [hcodec, hread]
      refine (Transform.runAll_singleton _ _ _).trans ?_
      rw [Transform.run, hdecode]
  | none =>
    obtain ⟨d, hd⟩ := Value.exists_reads v names (data hcodec)
    exact ⟨v, d, .ofJson d, makes_atom label fun c => by rw [hcodec]; rfl, hd.document,
      makes_atom label fun c => by rw [hcodec]; rfl, hd.same, hd.deep, fun h => .inl (hd.null h),
      fun _ => rfl, fun _ => rfl⟩

/-! ## Arrays -/

theorem nodesCarry_array (label : t.label = some .array) {items : List Value}
    (h : ∀ w ∈ items, r.Carries a revivers K (t.part 0) w) :
    r.NodesCarry a revivers K t (.array items) := by
  choose! encoded d decoded hc using h
  have hread : Value.ofJson (.array (items.map d)) = .array (items.map fun w => .ofJson (d w)) := by
    rw [Value.ofJson, Value.ofJsonItems_eq_map, List.map_map]
    rfl
  refine ⟨.array (items.map encoded), .array (items.map d), .array (items.map decoded), ?_, ?_, ?_,
    ?_, ?_, by rintro ⟨⟩, fun hneeds => ?_, fun hneeds => ?_⟩
  · have : r.NodesMake a revivers K .encode t
        (· (.array (items.map id)) = .done (.array (items.map encoded))) :=
      makes_array label fun w hw => (hc w hw).encodes
    rwa [List.map_id] at this
  · rw [Value.toJsonSlot, Value.toJsonItems_map fun w hw => (hc w hw).document]
    rfl
  · rw [hread]
    exact makes_array label fun w hw => (hc w hw).decodes
  · have := Value.equals_array_map (g := id) fun w hw => (hc w hw).same
    rwa [List.map_id] at this
  · have := Value.depth_array_map_le (f := id) fun w hw => (hc w hw).deep
    rwa [List.map_id, ← hread] at this
  · have hsame : items.map id = items.map encoded :=
      List.map_congr_left fun w hw => (hc w hw).kept (mt (.part 0) hneeds)
    rwa [List.map_id, ← Value.array.injEq] at hsame
  · rw [hread]
    congr 1
    exact List.map_congr_left fun w hw => (hc w hw).left (mt (.part 0) hneeds)

/-! ## Objects -/

theorem Serves.nodesCarry_object (serves : r.Serves a revivers limit)
    {props : List (Option String)} {index : Option KeyFilter} {className : Option String}
    (label : t.label = some (.object props index className)) {members : List (String × Value)}
    (distinct : (members.map Prod.fst).Nodup)
    (h : ∀ m ∈ members, ∃ optional u, t.memberType props index m.1 = some (optional, u) ∧
      (optional && m.2.isUndefined) = false ∧ r.Carries a revivers K u m.2) :
    r.NodesCarry a revivers (K + 1) t (.object members) := by
  choose! optional u typed present encoded d decoded hc using h
  have hall {m : String × Value} (hm : m ∈ members) {o : Bool} {t' : TypeTree}
      (h : t.memberType props index m.1 = some (o, t')) : optional m = o ∧ u m = t' :=
    Prod.mk.inj (Option.some.inj ((typed m hm).symm.trans h))
  have hnone {m : String × Value} (hm : m ∈ members) {P : Prop}
      (h : t.memberType props index m.1 = none) : P := by
    cases (typed m hm).symm.trans h
  have heta : (members.map fun m => (m.1, m.2)) = members := List.map_id members
  have hread : Value.ofJson (.object (members.map fun m => (m.1, d m))) =
      .object (members.map fun m => (m.1, .ofJson (d m))) := by
    rw [Value.ofJson, Value.ofJsonMembers_eq_map, List.map_map]
    rfl
  have plain (w : Way) (hneeds : ¬ t.Needs w) {m : String × Value} (hm : m ∈ members) :
      ¬ (u m).Needs w := mt (TypeTree.needs_of_memberType (typed m hm)) hneeds
  refine ⟨.object (members.map fun m => (m.1, encoded m)),
    .object (members.map fun m => (m.1, d m)), .object (members.map fun m => (m.1, decoded m)),
    ?_, ?_, ?_, ?_, ?_, by rintro ⟨⟩, fun hneeds => ?_, fun hneeds => ?_⟩
  · have := serves.makes_object label (s := ⟨.members, members, Prod.fst, Prod.snd, encoded⟩) rfl
      distinct (fun m hm o t' h => by
        obtain ⟨rfl, rfl⟩ := hall hm h
        exact makesMember_of_present (present m hm) (hc m hm).kept (hc m hm).encodes)
      fun m hm h => hnone hm h
    rwa [heta] at this
  · rw [Value.toJsonSlot, Value.toJsonMembers_map (k := Prod.fst) fun m hm => (hc m hm).document]
    rfl
  · rw [hread]
    exact serves.makes_object label
      (s := ⟨.members, members, Prod.fst, fun m => .ofJson (d m), decoded⟩) rfl distinct
      (fun m hm o t' h => by
        obtain ⟨rfl, rfl⟩ := hall hm h
        exact makesMember_of_present (by rw [Value.isUndefined_ofJson, Bool.and_false])
          (hc m hm).left (hc m hm).decodes)
      fun m hm h => hnone hm h
  · have := Value.equals_object_map (k := Prod.fst) (g := Prod.snd) distinct
      fun m hm => (hc m hm).same
    rwa [heta] at this
  · have := Value.depth_object_map_le (k := Prod.fst) (f := Prod.snd) fun m hm => (hc m hm).deep
    rwa [heta, ← hread] at this
  · have hsame : (members.map fun m => (m.1, m.2)) = members.map fun m => (m.1, encoded m) :=
      List.map_congr_left fun m hm => by rw [← (hc m hm).kept (plain _ hneeds hm)]
    rw [← hsame, heta]
  · rw [hread]
    congr 1
    exact List.map_congr_left fun m hm => by rw [(hc m hm).left (plain _ hneeds hm)]

/-! ## Tuples -/

variable (r a revivers K t) in
/-- What becomes of an element of a tuple, which may be left out. -/
structure ElementCarried (slots : List Slot) (rest : Bool) (i : Nat) (v encoded : Value) (d : Json)
    (decoded : Value) : Prop where
  encodes : r.MakesElement a revivers K .encode t slots rest i v encoded
  document : ∃ slot, encoded.toJsonSlot = .ok slot ∧ d = slot.getD .null
  decodes : r.MakesElement a revivers K .decode t slots rest i (.ofJson d) decoded
  same : decoded.equals v = true
  deep : v.depth ≤ (Value.ofJson d).depth
  kept : ¬ t.Needs .encode → v = encoded
  left : ¬ t.Needs .decode → .ofJson d = decoded

/-- An element that is left out comes back as undefined where null can stand for nothing else. -/
theorem exists_elementCarried_of_absent {slots : List Slot} {rest : Bool}
    (label : t.label = some (.tuple slots rest)) {i : Nat} {slot : Slot}
    (hslot : slots[i]? = some slot) (optional : slot.optional = true) (absent : slot.absent = true) :
    ∃ encoded d decoded,
      r.ElementCarried a revivers K t slots rest i .undefined encoded d decoded := by
  refine ⟨.undefined, .null, .undefined, .inl ⟨slot, hslot, optional, rfl, rfl⟩, ⟨none, rfl, rfl⟩,
    .inl ⟨slot, hslot, optional, rfl, rfl, absent⟩, rfl, Nat.zero_le _, fun _ => rfl, fun hneeds => ?_⟩
  exact absurd (.absent label (List.mem_of_getElem? hslot) absent) hneeds

/-- An element that is there comes back, unless its document is taken for one left out. -/
theorem exists_elementCarried_of_carries {slots : List Slot} {rest : Bool} {i : Nat}
    {optional : Bool} {u : TypeTree} (typed : t.elementType slots rest i = some (optional, u))
    (present : (optional && v.isUndefined) = false)
    (there : ∀ slot, slots[i]? = some slot → slot.absent = true → v ≠ .null ∧ v ≠ .undefined)
    (h : r.Carries a revivers K u v) :
    ∃ encoded d decoded, r.ElementCarried a revivers K t slots rest i v encoded d decoded := by
  obtain ⟨encoded, d, decoded, hc⟩ := h
  have plain (w : Way) (hneeds : ¬ t.Needs w) : ¬ u.Needs w :=
    mt (TypeTree.needs_of_elementType typed) hneeds
  have hoptional {slot : Slot} (hslot : slots[i]? = some slot) : slot.optional = optional := by
    simp only [TypeTree.elementType, hslot, Option.some.injEq, Prod.mk.injEq] at typed
    exact typed.1
  refine ⟨encoded, d, decoded, .inr ⟨optional, u, typed, fun slot hslot => ⟨?_, Way.noConfusion⟩,
      hc.encodes⟩,
    ⟨_, hc.document, rfl⟩, .inr ⟨optional, u, typed, fun slot hslot => ⟨?_, fun _ habsent => ?_⟩,
      hc.decodes⟩, hc.same, hc.deep, fun hneeds => hc.kept (plain _ hneeds),
    fun hneeds => hc.left (plain _ hneeds)⟩
  · rw [hoptional hslot]
    exact present
  · rw [Value.isUndefined_ofJson, Bool.and_false]
  · obtain ⟨notNull, notUndefined⟩ := there slot hslot habsent
    refine Value.isNull_ofJson fun hd => ?_
    rcases hc.null hd with hnull | hundefined
    · exact notNull hnull
    · exact notUndefined hundefined

theorem nodesCarry_tuple {slots : List Slot} {rest : Bool}
    (label : t.label = some (.tuple slots rest)) {items : List Value}
    (h : ∀ i w, items[i]? = some w → ∃ encoded d decoded,
      r.ElementCarried a revivers K t slots rest i w encoded d decoded) :
    r.NodesCarry a revivers K t (.array items) := by
  have h : ∀ m ∈ Whole.numbered items, ∃ encoded d decoded,
      r.ElementCarried a revivers K t slots rest m.1 m.2 encoded d decoded :=
    fun m hm => h m.1 m.2 (Whole.mem_numbered.mp hm)
  choose! encoded d decoded hc using h
  choose! slot hslot hd using fun m hm => (hc m hm).document
  have heta : (Whole.numbered items).map Prod.snd = items := by
    have := Whole.make_numbered items
    exact Value.array.inj this
  have hread : Value.ofJson (.array ((Whole.numbered items).map d)) =
      .array ((Whole.numbered items).map fun m => .ofJson (d m)) := by
    rw [Value.ofJson, Value.ofJsonItems_eq_map, List.map_map]
    rfl
  refine ⟨.array ((Whole.numbered items).map encoded), .array ((Whole.numbered items).map d),
    .array ((Whole.numbered items).map decoded), ?_, ?_, ?_, ?_, ?_, by rintro ⟨⟩, fun hneeds => ?_,
    fun hneeds => ?_⟩
  · have := makes_tuple (w := .encode) label
      (s := ⟨.elements, Whole.numbered items, Prod.fst, Prod.snd, encoded⟩) rfl
      (Whole.fits_numbered items) fun m hm => (hc m hm).encodes
    rwa [heta] at this
  · rw [Value.toJsonSlot, Value.toJsonItems_slots hslot, ← List.map_congr_left hd]
    rfl
  · rw [hread]
    exact makes_tuple label
      (s := ⟨.elements, Whole.numbered items, Prod.fst, fun m => .ofJson (d m), decoded⟩) rfl
      (Whole.fits_numbered items) fun m hm => (hc m hm).decodes
  · have := Value.equals_array_map (g := Prod.snd) fun m hm => (hc m hm).same
    rwa [heta] at this
  · have := Value.depth_array_map_le (f := Prod.snd) fun m hm => (hc m hm).deep
    rwa [heta, ← hread] at this
  · have hsame : (Whole.numbered items).map Prod.snd = (Whole.numbered items).map encoded :=
      List.map_congr_left fun m hm => (hc m hm).kept hneeds
    rw [← hsame, heta]
  · rw [hread]
    congr 1
    exact List.map_congr_left fun m hm => (hc m hm).left hneeds

/-! ## Unions -/

theorem Serves.nodesCarry_union (serves : r.Serves a revivers limit) {n : Nat}
    (label : t.label = some (.union n)) {front back : List TypeTree} {u : TypeTree}
    (trees : (List.range n).map t.part = front ++ u :: back) {j : Nat}
    (hfront : ∀ f ∈ front, f.judge j v = some false) (holds : u.judge j v = some true)
    (counted : front.length < 2 ^ 53) (h : r.Carries a revivers K u v) :
    r.NodesCarry a revivers K t v := by
  obtain ⟨encoded, d, decoded, hc⟩ := h
  by_cases hneeds : t.Needs .encode
  · -- the encoded value is paired with the number of the member
    obtain ⟨k, hk, number⟩ := tagNumber?_ofNat counted
    have hread : Value.ofJson (.array [.number k, d]) = .array [.number k.toFloat, .ofJson d] := by
      rw [Value.ofJson, Value.ofJsonItems_eq_map]
      rfl
    have hdocument : (Value.array [.ofNat front.length, encoded]).toJsonSlot =
        .ok (some (.array [.number k, d])) := by
      simp only [Value.toJsonSlot, Value.toJsonItems, Value.ofNat, hk, hc.document]
      rfl
    refine ⟨.array [.ofNat front.length, encoded], .array [.number k, d], decoded,
      serves.makes_tagged label trees hfront holds hc.encodes, hdocument, ?_, hc.same, ?_, nofun,
      fun h => absurd hneeds h, fun h => absurd (hneeds.of_union label) h⟩
    · rw [hread]
      exact makes_untagged label trees number hc.decodes
    · rw [hread]
      have := hc.deep
      simp only [Value.depth, Value.itemsDepth]
      omega
  · have hmember (w : Way) : ¬ u.Needs w := by
      obtain ⟨i, hi, rfl⟩ := List.mem_map.mp (trees ▸ List.mem_append_right front List.mem_cons_self)
      exact fun needs => hneeds (.union label i needs)
    obtain rfl := hc.kept (hmember _)
    obtain rfl := hc.left (hmember _)
    exact ⟨v, d, .ofJson d, fun h => absurd h hneeds, hc.document,
      fun h => absurd (h.of_union label) hneeds, hc.same, hc.deep, hc.null, fun _ => rfl, fun _ => rfl⟩

/-! ## Exact instances -/

end Registry

/-- An exact instance of the type of an optional position where null stands for an element left out
is neither. -/
theorem Arena.Carriable.there_of_exactly {a : Arena} (carriable : a.Carriable) {id : NodeId}
    {tuple : List NodeId} (hshape : (a.node id).shape = .tuple tuple) {i n : Nat} {w : Value}
    {optional : Bool} {u : TypeTree}
    (htype : (a.unfolding id).elementType ((a.splitTuple tuple).1.map a.slot)
      (a.splitTuple tuple).2.isSome i = some (optional, u))
    (present : (optional && w.isUndefined) = false) (exact : u.exactly n w = true) {slot : Slot}
    (hslot : ((a.splitTuple tuple).1.map a.slot)[i]? = some slot) (absent : slot.absent = true) :
    w ≠ .null ∧ w ≠ .undefined := by
  rw [Arena.elementType_unfolding hshape] at htype
  rw [List.getElem?_map, Option.map_eq_some_iff] at hslot
  obtain ⟨pos, hpos, rfl⟩ := hslot
  simp only [hpos, Option.some.injEq, Prod.mk.injEq] at htype
  obtain ⟨rfl, rfl⟩ := htype
  obtain ⟨hoptional, hnone⟩ := Bool.and_eq_true_iff.mp absent
  have hpos : pos ∈ tuple := Arena.splitTuple_append (a := a) tuple ▸
    List.mem_append_left _ (List.mem_of_getElem? hpos)
  refine ⟨?_, ?_⟩
  · rintro rfl
    rw [carriable.nulls id tuple hshape pos hpos hoptional n (TypeTree.judge_of_exactly exact)] at hnone
    cases hnone
  · rintro rfl
    rw [hoptional] at present
    cases present

namespace Registry

variable {r : Registry} {a : Arena} {revivers : Revivers} {limit K K' : Nat} {t : TypeTree}
  {v : Value}

/-- How many nested calls code on a value may need, if all functions that may be called on the value
itself are those of types with the value as an exact instance. -/
noncomputable def budget (r : Registry) (a : Arena) (revivers : Revivers) (n : Nat) (v : Value) : Nat :=
  r.roomFor a revivers (fun t => t.exactly n v = true) v

theorem budget_le_succ (n : Nat) (v : Value) :
    r.budget a revivers n v ≤ r.budget a revivers (n + 1) v :=
  roomFor_le fun t => TypeTree.exactly_succ n t v

theorem budget_lt_of_levels {n m : Nat} {w : Value} (h : w.levels < v.levels) :
    r.budget a revivers n w < r.budget a revivers m v := roomFor_lt_of_levels h

/-- A function of a type that has the value as an exact instance at no smaller depth adds a call. -/
theorem Serves.budget_lt_succ (serves : r.Serves a revivers limit) {n : Nat} {id : NodeId}
    (hname : (a.node id).identity ∈ (r.program revivers).names)
    (exact : (a.unfolding id).exactly (n + 1) v = true)
    (least : ¬ (a.unfolding id).exactly n v = true) :
    r.budget a revivers n v < r.budget a revivers (n + 1) v :=
  serves.roomFor_lt (fun t => TypeTree.exactly_succ n t v) hname exact least

/-- The code of a node carries exact instances of its type, if all code carries those of its
parts. -/
theorem Serves.nodesCarry (serves : r.Serves a revivers limit) {n : Nat} {id : NodeId}
    (hself : (a.node id).standsFor? = none) (property : a.propertyName? id = none)
    (names : v.hasNames = true) (exact : (a.unfolding id).exactly (n + 1) v = true)
    (ih : ∀ id v, a.propertyName? id = none → v.hasNames = true →
      (a.unfolding id).exactly n v = true →
      r.Carries a revivers (r.budget a revivers n v) (a.unfolding id) v) :
    r.NodesCarry a revivers (r.budget a revivers n v) (a.unfolding id) v := by
  have carriable := serves.carriable
  have places := carriable.toWellPlaced
  have below {w : Value} (h : w.levels < v.levels) (hw : w.hasNames = true) {child : NodeId}
      (hproperty : a.propertyName? child = none) (hexact : (a.unfolding child).exactly n w = true) :
      r.Carries a revivers (r.budget a revivers n v - 1) (a.unfolding child) w :=
    (ih child w hproperty hw hexact).mono (Nat.le_sub_one_of_lt (budget_lt_of_levels h))
  have hlabel := Arena.label_unfolding hself
  cases hshape : (a.node id).shape with
  | atom x =>
    obtain ⟨holds, keeps⟩ := Arena.keeps_of_exactly hshape exact
    rw [Arena.labelOf, hshape] at hlabel
    refine nodesCarry_atom hlabel names (by rwa [x.keeps_canonical]) fun uncarried => ?_
    rw [x.codec?_canonical] at uncarried
    exact x.isData_of_keeps (carriable.literals id x hshape) holds keeps uncarried
  | array item =>
    obtain ⟨hlabel, hpart⟩ := Arena.label_of_array hshape
    obtain ⟨items, rfl, hitems⟩ := Arena.items_of_exactly hshape exact
    have hitem := places.propertyName?_part hshape List.mem_cons_self (by rintro _ _ _ ⟨⟩)
    refine nodesCarry_array hlabel fun w hw => ?_
    rw [hpart]
    exact (below (Value.levels_item_lt hw) (Value.hasNames_of_mem_items names hw) hitem
      (hitems w hw)).mono (Nat.sub_le _ _)
  | object props index className =>
    rw [Arena.labelOf, hshape] at hlabel
    obtain ⟨members, rfl, hmembers⟩ := Arena.members_of_exactly hshape exact
    obtain ⟨hdistinct, hnames⟩ := Bool.and_eq_true_iff.mp names
    have hpos : 0 < r.budget a revivers n (.object members) :=
      (Nat.zero_le _).trans_lt (budget_lt_of_levels (n := n) (w := .undefined)
        (Value.levels_undefined_lt (by rintro ⟨⟩)))
    rw [← Nat.sub_one_add_one hpos.ne']
    refine serves.nodesCarry_object hlabel (of_decide_eq_true hdistinct) fun m hm => ?_
    obtain ⟨optional, u, htype, present, hexact⟩ := hmembers m hm
    obtain ⟨child, rfl, hproperty⟩ := Arena.exists_memberType places hshape htype
    exact ⟨optional, _, htype, present, below (Value.levels_member_lt hm)
      (Value.hasNames_of_mem_members hnames hm) hproperty hexact⟩
  | tuple tuple =>
    rw [Arena.labelOf, hshape] at hlabel
    obtain ⟨items, rfl, hitems⟩ := Arena.elements_of_exactly hshape exact
    have hmem {pos : NodeId} (hpos : pos ∈ tuple) : a.propertyName? pos = none :=
      places.propertyName?_part hshape hpos (by rintro _ _ _ ⟨⟩)
    refine nodesCarry_tuple hlabel fun i w hw => ?_
    obtain ⟨optional, u, htype, present, hexact⟩ := hitems i w hw
    obtain ⟨pos, hpos, rfl⟩ := Arena.exists_elementType hshape htype
    have hitem := List.mem_of_getElem? hw
    refine exists_elementCarried_of_carries htype present (fun slot hslot habsent => ?_)
      ((below (Value.levels_item_lt hitem) (Value.hasNames_of_mem_items names hitem) (hmem hpos)
        hexact).mono (Nat.sub_le _ _))
    exact carriable.there_of_exactly hshape htype present hexact hslot habsent
  | union members =>
    obtain ⟨front, m, back, rfl, hexact, hfront⟩ := Arena.member_of_exactly hshape exact
    have hcounted := carriable.counted id _ hshape
    have hm : a.propertyName? m = none :=
      places.propertyName?_part hshape (List.mem_append_right _ List.mem_cons_self)
        (by rintro _ _ _ ⟨⟩)
    obtain ⟨hlabel, htrees⟩ := Arena.label_of_union hshape
    rw [List.map_append, List.map_cons] at htrees
    refine serves.nodesCarry_union hlabel htrees (List.forall_mem_map.mpr hfront)
      (TypeTree.judge_of_exactly hexact) ?_ (ih m v hm names hexact)
    rw [List.length_append, List.length_cons] at hcounted
    rw [List.length_map]
    omega
  | property name child =>
    rw [Arena.propertyName?, hshape] at property
    cases property
  | promise child | function f =>
    have := Arena.exactParts_of_exactly exact
    simp only [TypeTree.exactParts, hlabel, Arena.labelOf, hshape, Bool.false_eq_true] at this
  | tupleMember child | indexSignature filter child | rest child | parameter name child rest =>
    simp only [Node.standsFor?, hshape, reduceCtorEq] at hself

/-- **All code carries exact instances.** -/
theorem Serves.carries_exactly (serves : r.Serves a revivers limit) (n : Nat) :
    ∀ id v, a.propertyName? id = none → v.hasNames = true → (a.unfolding id).exactly n v = true →
      r.Carries a revivers (r.budget a revivers n v) (a.unfolding id) v := by
  induction n with
  | zero => exact fun _ _ _ _ h => nomatch h
  | succ n ih =>
    intro id v property names exact
    by_cases hless : (a.unfolding id).exactly n v = true
    · exact (ih id v property names hless).mono (budget_le_succ n v)
    cases hcore : a.core id with
    | none =>
      rw [Arena.unfolding_eq_empty hcore] at exact
      cases (Bool.and_eq_true_iff.mp exact).1
    | some core =>
      rw [Arena.unfolding_core hcore] at exact hless ⊢
      refine serves.carries (budget_le_succ n v) (fun id htree hname => ?_)
        (serves.nodesCarry (Arena.standsFor_of_core hcore)
          (serves.carriable.propertyName?_core property hcore) names exact ih)
      exact serves.budget_lt_succ hname (htree ▸ exact) (htree ▸ hless)

end Registry

end Typeforge
