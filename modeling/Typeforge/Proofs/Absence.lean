/-
# `Typeforge.Proofs.Absence` — elements left out of a tuple come back

JSON has no undefined: an element that is left out is encoded as null.  Whether a
null is one of these is decided from the type of the position before anything is
encoded, by whether null is an instance of it.  So the element comes back if no
instance of the type is encoded to null, and if the type is no tagged union: there
null is encoded with the number of its member, but the decoder still takes it that a
null is no element left out (`NullOrBigint.absence_lost`).

`Handle.decode_encode_of_leavesOut` asks of each element that it is an exact instance of
its position or left out under these conditions (`Handle.LeavesOut`), and of the tuple's
type what the round trip of exact instances asks.
-/
import Typeforge.Proofs.RoundTrip

namespace Typeforge

/-! ## Types that accept null -/

namespace Arena

variable {a : Arena} {id pos : NodeId}

/-- Null is found as an instance, along positions and members of unions. -/
inductive FindsNull (a : Arena) : NodeId → Prop where
  | atom {id x} (h : (a.node id).shape = .atom x) (hx : x.acceptsNull = true) : FindsNull a id
  | tupleMember {id child} (h : (a.node id).shape = .tupleMember child)
      (hchild : FindsNull a child) : FindsNull a id
  | union {id members m} (h : (a.node id).shape = .union members) (hm : m ∈ members)
      (hfinds : FindsNull a m) : FindsNull a id

theorem exists_of_anyWith {f : NodeId → List NodeId → Bool × List NodeId} {ids seen : List NodeId}
    (h : (anyWith f ids seen).1 = true) : ∃ id ∈ ids, ∃ seen, (f id seen).1 = true := by
  induction ids generalizing seen with
  | nil => cases h
  | cons id rest ih =>
    rcases hresult : f id seen with ⟨found, more⟩
    cases found with
    | true => exact ⟨id, List.mem_cons_self, seen, by rw [hresult]⟩
    | false =>
      simp only [anyWith, hresult] at h
      obtain ⟨other, hother, hfound⟩ := ih h
      exact ⟨other, List.mem_cons_of_mem id hother, hfound⟩

theorem findsNull_of_acceptsNullFrom {fuel : Nat} {seen : List NodeId}
    (h : (a.acceptsNullFrom fuel id seen).1 = true) : a.FindsNull id := by
  induction fuel generalizing id seen with
  | zero => cases h
  | succ fuel ih =>
    unfold acceptsNullFrom at h
    split at h
    · cases h
    · split at h
      · exact .atom ‹_› h
      · exact .tupleMember ‹_› (ih h)
      · obtain ⟨m, hm, seen, hfound⟩ := exists_of_anyWith h
        exact .union ‹_› hm (ih hfound)
      · cases h

/-- Where null is found, it is not rejected. -/
theorem FindsNull.not_judges (h : a.FindsNull id) : ¬ Judges (a.unfolding id) .null false := by
  induction h with
  | @atom id x h hx =>
    have holds : x.holds .null = true := by cases x <;> first | rfl | cases hx
    have hfacet : (a.unfolding id).facet .null = .all [] := by
      rw [facet_atom h, holds]
      rfl
    exact Judges.not_both (.holds hfacet fun _ hd => absurd hd List.not_mem_nil)
  | @tupleMember id child h _ ih =>
    have stands : (a.node id).standsFor? = some child := by simp only [Node.standsFor?, h]
    rwa [unfolding_of_standsFor stands]
  | @union id members m h hm _ ih =>
    have hfacet := facet_union (v := .null) h
    rintro (h' | h' | ⟨h', -, -⟩ | h' | ⟨h', all⟩)
    · cases hfacet.symm.trans h'
    · cases hfacet.symm.trans h'
    · rw [hfacet] at h'
      obtain rfl := Facet.oneOf.inj h'
      exact ih (all _ (List.mem_map_of_mem hm))

/-- A type where null is found needs no code, unless it is a union. -/
theorem FindsNull.label_of_needs (h : a.FindsNull id) {w : Way} (needs : (a.unfolding id).Needs w) :
    ∃ n, (a.unfolding id).label = some (.union n) := by
  induction h with
  | @atom id x h hx =>
    have hself : (a.node id).standsFor? = none := by simp only [Node.standsFor?, h]
    have hlabel : (a.unfolding id).label = some (.atom x.canonical) := by
      rw [label_unfolding hself, labelOf, h]
    exfalso
    cases needs with
    | atom h' hneeds =>
      obtain rfl : x.canonical = _ := Label.atom.inj (Option.some.inj (hlabel.symm.trans h'))
      rw [x.needsCode_canonical] at hneeds
      cases x <;> first
        | exact absurd hx Bool.false_ne_true
        | exact absurd hneeds Bool.false_ne_true
    | part i needs =>
      refine needs.ne_empty (part_eq_empty hself ?_)
      rw [Node.children, h]
      rfl
    | promise h' | function h' | absent h' | «class» h' | union h' =>
      rw [hlabel] at h'
      cases h'
  | @tupleMember id child h _ ih =>
    have stands : (a.node id).standsFor? = some child := by simp only [Node.standsFor?, h]
    rw [unfolding_of_standsFor stands] at needs ⊢
    exact ih needs
  | @union id members m h _ _ _ =>
    have hself : (a.node id).standsFor? = none := by simp only [Node.standsFor?, h]
    exact ⟨_, by rw [label_unfolding hself, labelOf, h]⟩

end Arena

/-- An item that equals undefined is undefined. -/
theorem Value.undefined_of_equalItems {xs ys : List Value} (h : equalItems xs ys = true) {i : Nat}
    (hi : ys[i]? = some .undefined) : xs[i]? = some .undefined := by
  induction xs generalizing ys i with
  | nil =>
    cases ys with
    | nil => exact hi
    | cons y ys => cases h
  | cons x xs ih =>
    cases ys with
    | nil => cases hi
    | cons y ys =>
      obtain ⟨hx, hrest⟩ := Bool.and_eq_true_iff.mp h
      cases i with
      | zero =>
        obtain rfl := Option.some.inj hi
        cases x <;> first | rfl | cases hx
      | succ i => exact ih hrest hi

/-! ## The document of a tuple -/

namespace Registry

variable {r : Registry} {a : Arena} {revivers : Revivers} {limit K : Nat} {id : NodeId}
  {t : TypeTree} {w : Way} {v : Value}

/-- Code for a type that needs none leaves a value as it is. -/
theorem Serves.makes_of_not_needs (serves : r.Serves a revivers limit) (hneeds : ¬ t.Needs w) :
    r.Makes a revivers 1 w t (· v = .done v) :=
  serves.makes (K := 0) (Nat.zero_le 1) (fun _ _ _ => Nat.zero_lt_one) (fun _ => rfl)
    fun h => absurd h hneeds

/-- An element that is there is carried through JSON. -/
theorem Serves.exists_elementCarried (serves : r.Serves a revivers limit) {tuple : List NodeId}
    (hshape : (a.node id).shape = .tuple tuple) {i n : Nat} {optional : Bool} {u : TypeTree}
    (htype : (a.unfolding id).elementType ((a.splitTuple tuple).1.map a.slot)
      (a.splitTuple tuple).2.isSome i = some (optional, u))
    (present : (optional && v.isUndefined) = false) (names : v.hasNames = true)
    (exact : u.exactly n v = true) (hK : r.budget a revivers n v ≤ K) :
    ∃ encoded d decoded, r.ElementCarried a revivers K (a.unfolding id)
      ((a.splitTuple tuple).1.map a.slot) (a.splitTuple tuple).2.isSome i v encoded d decoded := by
  obtain ⟨pos, hpos, rfl⟩ := Arena.exists_elementType hshape htype
  have property : a.propertyName? pos = none :=
    serves.carriable.propertyName?_part hshape hpos (by rintro _ _ _ ⟨⟩)
  exact exists_elementCarried_of_carries htype present
    (fun slot hslot => serves.carriable.there_of_exactly hshape htype present exact hslot)
    ((serves.carries_exactly n pos v property names exact).mono hK)

variable (r a revivers K t) in
/-- What the encoder makes of an element of a tuple. -/
structure ElementEncoded (slots : List Slot) (rest : Bool) (i : Nat) (v encoded : Value)
    (slot : Option Json) : Prop where
  encodes : r.MakesElement a revivers K .encode t slots rest i v encoded
  document : encoded.toJsonSlot = .ok slot
  kept : ¬ t.Needs .encode → v = encoded

/-- A tuple is encoded if its elements are. -/
theorem Serves.encoded_of_elements (serves : r.Serves a revivers limit)
    (hkey : ⟨(a.node id).identity, .jsonEncode⟩ ∈ r.keys) {slots : List Slot} {rest : Bool}
    (label : (a.unfolding id).label = some (.tuple slots rest)) {items : List Value}
    (hroom : K + 1 < (r.program revivers).steps (.array items)) {Q : Nat → Option Json → Prop}
    (h : ∀ i w, items[i]? = some w → ∃ encoded slot,
      r.ElementEncoded a revivers K (a.unfolding id) slots rest i w encoded slot ∧ Q i slot) :
    ∃ encoded ds,
      (r.program revivers).transform (a.node id).identity .jsonEncode (.array items) =
        .done encoded ∧
      encoded.toJson = .ok (.array ds) ∧
      ∀ i w, items[i]? = some w → ∃ slot, Q i slot ∧ ds[i]? = some (slot.getD .null) := by
  have h : ∀ m ∈ Whole.numbered items, ∃ encoded slot,
      r.ElementEncoded a revivers K (a.unfolding id) slots rest m.1 m.2 encoded slot ∧ Q m.1 slot :=
    fun m hm => h m.1 m.2 (Whole.mem_numbered.mp hm)
  choose! encoded slot hc hQ using h
  have heta : (Whole.numbered items).map Prod.snd = items :=
    Value.array.inj (Whole.make_numbered items)
  refine ⟨.array ((Whole.numbered items).map encoded),
    (Whole.numbered items).map fun m => (slot m).getD .null, ?_, ?_, fun i w hw => ?_⟩
  · have hnodes := makes_tuple (w := .encode) label
      (s := ⟨.elements, Whole.numbered items, Prod.fst, Prod.snd, encoded⟩) rfl
      (Whole.fits_numbered items) fun m hm => (hc m hm).encodes
    have plain (hneeds : ¬ (a.unfolding id).Needs .encode) :
        Value.array items = .array ((Whole.numbered items).map encoded) := by
      rw [← List.map_congr_left fun m hm => (hc m hm).kept hneeds, heta]
    rw [heta] at hnodes
    exact serves.called (w := .encode) hkey (fun hneeds => by rw [← plain hneeds])
      (serves.makes (Nat.le_succ K) (fun _ _ _ => Nat.lt_succ_self K)
        (fun hneeds => by rw [← plain hneeds]) hnodes) hroom
  · rw [Value.toJson, Value.toJsonSlot, Value.toJsonItems_slots fun m hm => (hc m hm).document]
    rfl
  · have hm : (i, w) ∈ Whole.numbered items := Whole.mem_numbered.mpr hw
    refine ⟨slot (i, w), hQ (i, w) hm, ?_⟩
    have hget : (Whole.numbered items)[i]? = some (i, w) := by
      rw [Whole.numbered, List.getElem?_map, List.getElem?_zipIdx, hw, Option.map_some,
        Option.map_some, Nat.zero_add]
      rfl
    rw [List.getElem?_map, hget]
    rfl

end Registry

/-! ## Elements -/

section Elements

/-- An element of a tuple that is there, and an exact instance of the type of its position. -/
def Arena.Present (a : Arena) (tuple : List NodeId) (i : Nat) (v : Value) : Prop :=
  match (a.splitTuple tuple).1[i]? with
  | some pos => ((a.node pos).optional && v.isUndefined) = false ∧ (a.unfolding pos).Exact v
  | none => ∃ last, (a.splitTuple tuple).2 = some last ∧ (a.unfolding last).Exact v

/-- An element of a tuple that is left out, in an optional position: null, if it is an instance of
the type of the position, is not encoded to null there, and the type is no tagged union that accepts
null. -/
structure Handle.LeavesOut (encoder : Handle) (r : Registry) (a : Arena) (tuple : List NodeId)
    (items : List Value) (i : Nat) (pos : NodeId) : Prop where
  undefined : items[i]? = some .undefined
  position : (a.splitTuple tuple).1[i]? = some pos
  optional : (a.node pos).optional = true
  apart : ∀ ds, encoder.encode r (.array (items.set i .null)) = .ok (.array ds) →
    ds[i]? = some .null → ∃ n, (a.unfolding pos).judge n .null = some false
  untagged : ∀ n, (a.unfolding pos).label = some (.union n) → (a.unfolding pos).Needs .encode →
    a.acceptsNull pos = false

variable {e : Engine} {a : Arena} {r : Registry} {handles : List (NodeId × Handle)} {id : NodeId}
  {encoder decoder : Handle} {tuple : List NodeId} {items : List Value}

theorem Arena.Present.exists_elementType (hshape : (a.node id).shape = .tuple tuple) {i : Nat}
    {v : Value} (h : a.Present tuple i v) : ∃ optional u, (a.unfolding id).elementType
      ((a.splitTuple tuple).1.map a.slot) (a.splitTuple tuple).2.isSome i = some (optional, u) ∧
      (optional && v.isUndefined) = false ∧ u.Exact v := by
  rw [Arena.elementType_unfolding hshape]
  unfold Present at h
  cases hpos : (a.splitTuple tuple).1[i]? with
  | some pos =>
    rw [hpos] at h
    exact ⟨_, _, rfl, h⟩
  | none =>
    rw [hpos] at h
    obtain ⟨last, hlast, exact⟩ := h
    exact ⟨false, _, by rw [hlast]; rfl, rfl, exact⟩

/-- There is a depth at which all elements that are there are seen to be exact instances. -/
theorem Arena.exists_depth (hshape : (a.node id).shape = .tuple tuple) {P : Nat → Prop}
    (elements : ∀ i v, items[i]? = some v → a.Present tuple i v ∨ P i) :
    ∃ n, ∀ i v, items[i]? = some v → P i ∨ ∃ optional u, (a.unfolding id).elementType
      ((a.splitTuple tuple).1.map a.slot) (a.splitTuple tuple).2.isSome i = some (optional, u) ∧
      (optional && v.isUndefined) = false ∧ u.exactly n v = true := by
  have each : ∀ i, ∃ n, ∀ v, items[i]? = some v → P i ∨ ∃ optional u,
      (a.unfolding id).elementType ((a.splitTuple tuple).1.map a.slot)
        (a.splitTuple tuple).2.isSome i = some (optional, u) ∧
      (optional && v.isUndefined) = false ∧ u.exactly n v = true := by
    intro i
    cases hv : items[i]? with
    | none => exact ⟨0, fun _ h => nomatch h⟩
    | some v =>
      rcases elements i v hv with present | hP
      · obtain ⟨optional, u, htype, hpresent, n, exact⟩ := present.exists_elementType hshape
        exact ⟨n, fun _ h => .inr ⟨optional, u, htype, Option.some.inj h ▸ hpresent,
          Option.some.inj h ▸ exact⟩⟩
      · exact ⟨0, fun _ _ => .inl hP⟩
  choose n hn using each
  refine ⟨((List.range items.length).map n).sum, fun i v hv => (hn i v hv).imp_right ?_⟩
  rintro ⟨optional, u, htype, hpresent, exact⟩
  have hi : i ∈ List.range items.length := List.mem_range.mpr (List.getElem?_eq_some_iff.mp hv).1
  exact ⟨optional, u, htype, hpresent, TypeTree.exactly_mono
    (List.single_le_sum (fun _ _ => Nat.zero_le _) _ (List.mem_map_of_mem hi)) exact⟩

namespace Handle

/-- Where an element is left out, null is no instance of the type of its position. -/
theorem LeavesOut.acceptsNull_eq (built : e.Builds a r handles)
    (serves : r.Serves a e.revivers (e.config.maxDepth - 1)) (hencoder : (id, encoder) ∈ handles)
    (encodes : encoder.key.target = .jsonEncode) (hshape : (a.node id).shape = .tuple tuple)
    (names : (Value.array items).hasNames = true)
    (elements : ∀ i v, items[i]? = some v → a.Present tuple i v ∨
      ∃ pos, encoder.LeavesOut r a tuple items i pos) {i : Nat} {pos : NodeId}
    (leavesOut : encoder.LeavesOut r a tuple items i pos) : a.acceptsNull pos = false := by
  by_contra hnull
  have finds : a.FindsNull pos := Arena.findsNull_of_acceptsNullFrom (Bool.not_eq_false _ ▸ hnull)
  have plain : ¬ (a.unfolding pos).Needs .encode := fun needs => by
    obtain ⟨n, hlabel⟩ := finds.label_of_needs needs
    exact hnull (leavesOut.untagged n hlabel needs)
  have hself : (a.node id).standsFor? = none := by simp only [Node.standsFor?, hshape]
  have hlabel := Arena.label_unfolding hself
  rw [Arena.labelOf, hshape] at hlabel
  obtain ⟨n, elements⟩ := Arena.exists_depth hshape elements
  obtain ⟨-, hencoderId, hencoderRevivers⟩ := built.compiled.2 _ hencoder
  have hroom : r.budget a e.revivers n (.array (items.set i .null)) + 1 <
      (r.program e.revivers).steps (.array (items.set i .null)) :=
    Value.succ_room_lt_steps (Program.length_names _).le
  have each : ∀ j w, (items.set i .null)[j]? = some w → ∃ encoded slot,
      r.ElementEncoded a e.revivers (r.budget a e.revivers n (.array (items.set i .null)))
        (a.unfolding id) ((a.splitTuple tuple).1.map a.slot) (a.splitTuple tuple).2.isSome
        j w encoded slot ∧ (j = i → slot = some .null) := by
    intro j w hw
    by_cases hji : j = i
    · subst hji
      obtain rfl : w = .null := by
        obtain ⟨hlt, hw⟩ := List.getElem?_eq_some_iff.mp hw
        rw [List.getElem_set_self] at hw
        exact hw.symm
      refine ⟨.null, some .null, ⟨.inr ⟨true, a.unfolding pos, ?_,
        fun slot hslot => ⟨?_, Way.noConfusion⟩, (serves.makes_of_not_needs plain).mono ?_⟩, rfl, fun _ => rfl⟩, fun _ => rfl⟩
      · rw [Arena.elementType_unfolding hshape, leavesOut.position]
        simp only [leavesOut.optional]
      · exact Bool.and_false _
      · exact Nat.one_le_of_lt (Registry.budget_lt_of_levels (n := n)
          (Value.levels_item_lt (List.mem_of_getElem? hw)))
    · have hitem := Value.levels_item_lt (List.mem_of_getElem? hw)
      rw [List.getElem?_set_ne (Ne.symm hji)] at hw
      rcases elements j w hw with ⟨other, out⟩ | ⟨optional, u, htype, present, exact⟩
      · obtain rfl : w = .undefined := Option.some.inj (hw.symm.trans out.undefined)
        have hslot : ((a.splitTuple tuple).1.map a.slot)[j]? = some (a.slot other) := by
          rw [List.getElem?_map, out.position, Option.map_some]
        exact ⟨.undefined, none, ⟨.inl ⟨_, hslot, out.optional, rfl, rfl⟩, rfl, fun _ => rfl⟩,
          fun h => absurd h hji⟩
      · obtain ⟨encoded, d, decoded, hc⟩ := serves.exists_elementCarried hshape htype present
          (Value.hasNames_of_mem_items names (List.mem_of_getElem? hw)) exact
          (Registry.budget_lt_of_levels (m := n) hitem).le
        obtain ⟨slot, document, -⟩ := hc.document
        exact ⟨encoded, slot, ⟨hc.encodes, document, hc.kept⟩, fun h => absurd h hji⟩
  obtain ⟨encoded, ds, hencode, document, hds⟩ := serves.encoded_of_elements
    (mem_keys_of_built built hencoder encodes) hlabel hroom each
  have htransform : encoder.transform r (.array (items.set i .null)) = .done encoded := by
    rw [transform, program, hencoderId, encodes, hencoderRevivers]
    exact hencode
  have hdocument : encoder.encode r (.array (items.set i .null)) = .ok (.array ds) := by
    rw [encode_of_done htransform, document]
    rfl
  have hnullAt : (items.set i .null)[i]? = some .null :=
    List.getElem?_set_self (List.getElem?_eq_some_iff.mp leavesOut.undefined).1
  obtain ⟨slot, hslot, hd⟩ := hds i .null hnullAt
  rw [hslot rfl, Option.getD_some] at hd
  obtain ⟨m, rejected⟩ := leavesOut.apart ds hdocument hd
  exact finds.not_judges (TypeTree.judges_of_judge rejected)

/-- **Elements that are left out come back.** A tuple whose elements are exact instances of their
positions, but for some that are left out, is encoded, and the document is decoded to an equal value,
with undefined where elements are left out. -/
theorem decode_encode_of_leavesOut (types : Arena.LoweredTypes {a}) (portable : a.Portable)
    (built : e.Builds a r handles) (own : ∀ x ∈ handles, a.IsType x.1) (revives : e.Revives a)
    (hencoder : (id, encoder) ∈ handles) (encodes : encoder.key.target = .jsonEncode)
    (hdecoder : (id, decoder) ∈ handles) (decodes : decoder.key.target = .jsonDecode)
    (hshape : (a.node id).shape = .tuple tuple) (names : (Value.array items).hasNames = true)
    (elements : ∀ i v, items[i]? = some v → a.Present tuple i v ∨
      ∃ pos, encoder.LeavesOut r a tuple items i pos) :
    ∃ d ws, encoder.encode r (.array items) = .ok d ∧ decoder.decode r d = .ok (.array ws) ∧
      (Value.array ws).equals (.array items) = true ∧
      ∀ i : Nat, items[i]? = some Value.undefined → ws[i]? = some Value.undefined := by
  have serves := built.serves types portable.carriable own revives
  have hself : (a.node id).standsFor? = none := by simp only [Node.standsFor?, hshape]
  have hlabel := Arena.label_unfolding hself
  rw [Arena.labelOf, hshape] at hlabel
  obtain ⟨n, depth⟩ := Arena.exists_depth hshape elements
  have hnodes : r.NodesCarry a e.revivers (r.budget a e.revivers n (.array items)) (a.unfolding id)
      (.array items) := by
    refine Registry.nodesCarry_tuple hlabel fun i v hv => ?_
    rcases depth i v hv with ⟨pos, out⟩ | ⟨optional, u, htype, present, exact⟩
    · obtain rfl : v = .undefined := Option.some.inj (hv.symm.trans out.undefined)
      have absent := out.acceptsNull_eq built serves hencoder encodes hshape names elements
      have hslot : ((a.splitTuple tuple).1.map a.slot)[i]? = some (a.slot pos) := by
        rw [List.getElem?_map, out.position, Option.map_some]
      refine Registry.exists_elementCarried_of_absent hlabel hslot out.optional ?_
      simp only [Arena.slot, Arena.nullMeansAbsent, out.optional, absent, Bool.not_false,
        Bool.and_self]
    · exact serves.exists_elementCarried hshape htype present
        (Value.hasNames_of_mem_items names (List.mem_of_getElem? hv)) exact
        (Registry.budget_lt_of_levels (Value.levels_item_lt (List.mem_of_getElem? hv))).le
  obtain ⟨d, w, hencode, hdecode, same⟩ := decodes_of_carries built serves hencoder encodes hdecoder
    decodes (serves.carries (Nat.le_succ _) (fun _ _ _ => Nat.lt_succ_self _) hnodes)
    (Value.succ_room_lt_steps (Program.length_names _).le)
  cases w <;> try cases same
  rename_i ws
  exact ⟨d, ws, hencode, hdecode, same, fun i hi => Value.undefined_of_equalItems same hi⟩

end Handle

end Elements

/-! ## Appointments

A name, a date and a number of an invoice, which may both be left out, and any number of hours.
-/

namespace Appointments

def sample : Sample where
  graph := {
    nodes := #[⟨.tuple [⟨1⟩, ⟨2⟩, ⟨3⟩, ⟨4⟩], none⟩, ⟨.tupleMember ⟨5⟩ false none, none⟩,
      ⟨.tupleMember ⟨6⟩ true none, none⟩, ⟨.tupleMember ⟨7⟩ true none, none⟩, ⟨.rest ⟨9⟩, none⟩,
      ⟨.string, none⟩, ⟨.classType "Date" [], none⟩, ⟨.union [⟨8⟩, ⟨5⟩], none⟩, ⟨.bigint, none⟩,
      ⟨.number, none⟩]
    roots := [("Appointment", ⟨0⟩)] }
  targets := [.jsonDecode, .jsonEncode]

def elements : List Value := [.string "visit", .undefined, .undefined, .number 2]

def positions : List NodeId := [⟨1⟩, ⟨3⟩, ⟨5⟩, ⟨8⟩]

theorem computed : sample.loads = true ∧ sample.isFaithful = true ∧ sample.isBuilt = true ∧
    sample.isOwn = true ∧ sample.arena.isPortable = true ∧ sample.arena.classesIn [] = true ∧
    (Value.array elements).hasNames = true := by
  decide +kernel

/-- The elements that are there are exact instances of their positions; the others accept no null. -/
theorem computed_elements :
    (match (sample.arena.node sample.node).shape with
      | .tuple members => members == positions
      | _ => false) = true ∧
    sample.arena.splitTuple positions = ([⟨1⟩, ⟨3⟩, ⟨5⟩], some ⟨8⟩) ∧
    (sample.arena.unfolding ⟨1⟩).exactly 1 (.string "visit") = true ∧
    (sample.arena.unfolding ⟨8⟩).exactly 1 (.number 2) = true ∧
    ∀ pos ∈ [⟨3⟩, ⟨5⟩], (sample.arena.node pos).optional = true ∧
      sample.arena.acceptsNull pos = false ∧
      (sample.arena.unfolding pos).judge 2 .null = some false := by
  decide +kernel

theorem shape_root : (sample.arena.node sample.node).shape = .tuple positions := by
  obtain ⟨shape, -⟩ := computed_elements
  split at shape
  · rename_i members hshape
    exact hshape.trans (congrArg _ (eq_of_beq shape))
  · cases shape

/-- The date and the number are left out. -/
theorem leavesOut {i : Nat} {pos : NodeId} (hi : elements[i]? = some .undefined)
    (hpos : [⟨1⟩, ⟨3⟩, ⟨5⟩][i]? = some pos) (mem : pos ∈ [⟨3⟩, ⟨5⟩]) :
    (sample.handle .jsonEncode).LeavesOut sample.registry sample.arena positions elements i pos := by
  obtain ⟨-, split, -, -, absent⟩ := computed_elements
  obtain ⟨optional, accepts, rejected⟩ := absent pos mem
  exact ⟨hi, by rw [split]; exact hpos, optional, fun _ _ _ => ⟨2, rejected⟩, fun _ _ _ => accepts⟩

theorem absent_come_back : ∃ d ws,
    (sample.handle .jsonEncode).encode sample.registry (.array elements) = .ok d ∧
    (sample.handle .jsonDecode).decode sample.registry d = .ok (.array ws) ∧
    (Value.array ws).equals (.array elements) = true ∧
    ∀ i : Nat, elements[i]? = some Value.undefined → ws[i]? = some Value.undefined := by
  obtain ⟨loads, faithful, built, own, portable, classes, names⟩ := computed
  obtain ⟨-, split, name, hours, -⟩ := computed_elements
  refine Handle.decode_encode_of_leavesOut (Sample.loweredTypes loads faithful)
    (Arena.portable_of_isPortable portable) (Sample.builds built)
    (Sample.forall_handles (Sample.own own))
    (Engine.revives_of_classesIn classes (List.forall_mem_nil _))
    (Sample.mem_handles (by decide)) rfl (Sample.mem_handles (by decide)) rfl shape_root names ?_
  intro i v hv
  match i with
  | 0 =>
    obtain rfl := Option.some.inj hv
    refine .inl ?_
    rw [Arena.Present, split]
    exact ⟨Bool.and_false _, 1, name⟩
  | 1 => exact .inr ⟨_, leavesOut rfl rfl List.mem_cons_self⟩
  | 2 => exact .inr ⟨_, leavesOut rfl rfl (List.mem_cons_of_mem _ List.mem_cons_self)⟩
  | 3 =>
    obtain rfl := Option.some.inj hv
    refine .inl ?_
    rw [Arena.Present, split]
    exact ⟨_, rfl, 1, hours⟩
  | _ + 4 => cases hv

end Appointments

/-! ## A tagged union that accepts null

A tuple with one optional position, for null or a big integer.  Both are encoded with the number of
their member, so that a null there can only stand for the element left out; but the type accepts
null, and the decoder looks for a member in it.
-/

/-- What is tagged is an array. -/
theorem Transform.exists_array_of_runTagged {x : Transform.Context} {union : String} {i : Nat}
    {arms : List (Check × List Transform)} {v w : Value}
    (h : runTagged x union i arms v = .done w) : ∃ items, w = .array items := by
  induction arms generalizing i with
  | nil => cases h
  | cons arm arms ih =>
    obtain ⟨check, body⟩ := arm
    rw [runTagged] at h
    split at h
    · cases h
    · rcases hbody : runAll x body v with ⟨y, _ | halt⟩
      · rw [hbody] at h
        cases h
        exact ⟨_, rfl⟩
      · rw [hbody] at h
        cases h
    · exact ih h

/-- An encoder that tags its values gives arrays. -/
theorem Handle.exists_array_of_tag {h : Handle} {r : Registry} {union : String}
    {arms : List (Check × List Transform)}
    (body : (h.program r).body? h.key = some (.jsonEncode [.tag union arms])) {v : Value} {d : Json}
    (encoded : h.encode r v = .ok d) : ∃ ds, d = .array ds := by
  obtain ⟨w, hw, hdocument⟩ := Except.bind_eq_ok.mp encoded
  have hdone : h.transform r v = .done w := by
    rcases htransform : h.transform r v with ⟨y, _ | halt⟩
    · rw [htransform] at hw
      cases hw
      rfl
    · rw [htransform] at hw
      cases hw
  obtain ⟨k, hk⟩ : ∃ k, (h.program r).steps v = k + 1 := ⟨_, rfl⟩
  rw [transform, Program.transform, hk, Program.transformCall, body] at hdone
  dsimp only at hdone
  rw [Transform.runAll_singleton, Transform.run] at hdone
  obtain ⟨items, rfl⟩ := Transform.exists_array_of_runTagged hdone
  rw [Value.toJson, Value.toJsonSlot] at hdocument
  cases hitems : Value.toJsonItems items with
  | error e =>
    rw [hitems] at hdocument
    cases hdocument
  | ok ds =>
    rw [hitems] at hdocument
    cases hdocument
    exact ⟨ds, rfl⟩

namespace NullOrBigint

def sample : Sample where
  graph := {
    nodes := #[⟨.tuple [⟨1⟩], none⟩, ⟨.tupleMember ⟨2⟩ true none, none⟩, ⟨.union [⟨3⟩, ⟨4⟩], none⟩,
      ⟨.null, none⟩, ⟨.bigint, none⟩]
    roots := [("Pair", ⟨0⟩)] }

/-- The functions that are built, the last one first: one is the encoder of the union. -/
def parts : List (NodeId × Target) :=
  [(⟨2⟩, .jsonEncode), (sample.node, .jsonDecode), (sample.node, .jsonEncode), (sample.node, .isType)]

def registry : Registry := sample.registryOf parts

def encoder : Handle := sample.handleAt ⟨2⟩ .jsonEncode

def value : Value := .array [.undefined]

/-- What is computed here: the functions are built, the encoder of the union tags its values, and
the document of the tuple is not decoded. -/
theorem computed : sample.loads = true ∧ sample.arena.isFaithful = true ∧
    sample.arena.isPortable = true ∧ sample.buildsOf parts = true ∧
    (sample.handle .isType).isType registry value = true ∧
    (match (encoder.program registry).body? encoder.key with
      | some (.jsonEncode [.tag _ _]) => true
      | _ => false) = true ∧
    ((sample.handle .jsonEncode).encode registry value).toOption.any (·.same (.array [.null])) =
      true ∧
    ((sample.handle .jsonDecode).decode registry (.array [.null])).map (fun _ => ()) =
      .error (.failed (.decode "union tag" (.kind "null"))) := by
  decide +kernel

/-- Undefined in an optional position is encoded as null, which is nothing that an instance of the
position's type is encoded to, but is not decoded. -/
theorem absence_lost : sample.loads = true ∧ sample.arena.isFaithful = true ∧
    sample.arena.isPortable = true ∧ sample.buildsOf parts = true ∧
    (sample.handle .isType).isType registry value = true ∧
    (∀ v d, encoder.encode registry v = .ok d → d ≠ .null) ∧
    ((sample.handle .jsonEncode).encode registry value).toOption.any (·.same (.array [.null])) =
      true ∧
    ((sample.handle .jsonDecode).decode registry (.array [.null])).map (fun _ => ()) =
      .error (.failed (.decode "union tag" (.kind "null"))) := by
  obtain ⟨loads, faithful, portable, builds, accepts, tags, encodes, fails⟩ := computed
  refine ⟨loads, faithful, portable, builds, accepts, fun v d hencode => ?_, encodes, fails⟩
  split at tags
  · rename_i union arms hbody
    obtain ⟨ds, rfl⟩ := Handle.exists_array_of_tag hbody hencode
    exact Json.noConfusion
  · cases tags

end NullOrBigint

end Typeforge
