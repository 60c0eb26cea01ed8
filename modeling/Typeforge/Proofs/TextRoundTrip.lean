/-
# `Typeforge.Proofs.TextRoundTrip` — what is written is read

An exact instance of a type is written, and what is written is read and decoded to an
equal value, for types in which no position of a tuple is optional.  Neither function
is cut off, however deep the instance is, and neither refuses a part of it.

The reader has a limit of its own.  It passes over what is nested deeper than
`Json.depthLimit`, and a text of which a part was passed over is not decoded.  Tags of
unions count as well: each is an array around the value.  Nothing else stands in the
way, so the condition in `Handle.parse_stringify_of_exact` is on the depth of the
document alone; `NestedLists.text_lost` is an instance half as deep as the reader goes
whose text is lost.

Optional positions are left out (`Arena.Gapless`), since a writer and an encoder part
at an element that is undefined there.  The other hypotheses are those of the round
trip through documents.
-/
import Typeforge.Proofs.RoundTrip
import Typeforge.Proofs.Running.Writing
import Typeforge.Proofs.Serialization

namespace Typeforge

namespace Handle

variable {e : Engine} {a : Arena} {r : Registry} {handles : List (NodeId × Handle)} {id : NodeId}
  {encoder decoder emitter : Handle} {v : Value}

/-- An emitter is not cut off on exact instances. -/
theorem halts_stringify_of_exact (built : e.Builds a r handles)
    (serves : r.Serves a e.revivers (e.config.maxDepth - 1)) (hemitter : (id, emitter) ∈ handles)
    (emits : emitter.key.target = .jsonStringify) (exact : (a.unfolding id).Exact v) :
    emitter.stringify r v ≠ .error .cutOff := by
  obtain ⟨-, hid, hrevivers⟩ := built.compiled.2 _ hemitter
  have halts := serves.halts_stringify (mem_keys_of_built built hemitter emits) exact
  rwa [stringify, program, hid, hrevivers]

/-- A text that denotes a document is decoded as the document is. -/
theorem parse_eq_decode {d : Json} {text : String} (denotes : d.DenotedBy text)
    (shallow : d.depth ≤ Json.depthLimit) : decoder.parse r text = decoder.decode r d := by
  obtain ⟨d', hread, -, hvalue⟩ := denotes.readWithin shallow
  rw [parse, Json.parse, hread]
  dsimp only
  rw [decode, decode, hvalue]

/-- A text that denotes a document is not decoded if the document is too deep for the reader. -/
theorem parse_of_lt_depth {d : Json} {text : String} (denotes : d.DenotedBy text)
    (deep : Json.depthLimit < d.depth) : decoder.parse r text =
      .error (.failed (.decode "JSON text" (.notJson ReadFault.tooDeep.message))) := by
  rw [parse, Json.parse, denotes.readWithin_of_lt deep]

/-- An exact instance is encoded, decoded again and written, and the text denotes the document. -/
theorem exists_denotedBy_of_exact (types : Arena.LoweredTypes {a}) (gapless : a.Gapless)
    (built : e.Builds a r handles) (own : ∀ x ∈ handles, a.IsType x.1) (revives : e.Revives a)
    (hencoder : (id, encoder) ∈ handles) (encodes : encoder.key.target = .jsonEncode)
    (hdecoder : (id, decoder) ∈ handles) (decodes : decoder.key.target = .jsonDecode)
    (hemitter : (id, emitter) ∈ handles) (emits : emitter.key.target = .jsonStringify)
    (names : v.hasNames = true) (exact : (a.unfolding id).Exact v) :
    ∃ d text w, encoder.encode r v = .ok d ∧ emitter.stringify r v = .ok text ∧
      d.DenotedBy text ∧ decoder.decode r d = .ok w ∧ w.equals v = true := by
  have serves := built.serves types gapless.carriable own revives
  have emitterEnds := halts_stringify_of_exact built serves hemitter emits exact
  obtain ⟨n, exact⟩ := exact
  have property := (own _ hencoder).2
  obtain ⟨d, w, hencode, hdecode, same⟩ := decodes_of_carries built serves hencoder encodes hdecoder
    decodes (serves.carries_exactly n id v property names exact)
    (Value.room_lt_steps (Program.length_names _).le)
  obtain ⟨both, denotes⟩ := denotedBy_encode types gapless.orderly built property hencoder encodes
    hemitter emits names (by rw [hencode]; rintro ⟨⟩) emitterEnds
  obtain ⟨text, hstringify⟩ := both.mpr ⟨d, hencode⟩
  exact ⟨d, text, w, hencode, hstringify, denotes text d hstringify hencode, hdecode, same⟩

/-- **What is written is read.** An exact instance of a type without optional positions in tuples is
written, and the text is decoded to an equal value, or not at all: it is not if the document is nested
too deep for the reader. -/
theorem parse_stringify_of_exact (types : Arena.LoweredTypes {a}) (gapless : a.Gapless)
    (built : e.Builds a r handles) (own : ∀ x ∈ handles, a.IsType x.1) (revives : e.Revives a)
    (hencoder : (id, encoder) ∈ handles) (encodes : encoder.key.target = .jsonEncode)
    (hdecoder : (id, decoder) ∈ handles) (decodes : decoder.key.target = .jsonDecode)
    (hemitter : (id, emitter) ∈ handles) (emits : emitter.key.target = .jsonStringify)
    (names : v.hasNames = true) (exact : (a.unfolding id).Exact v) :
    ∃ d text, encoder.encode r v = .ok d ∧ emitter.stringify r v = .ok text ∧
      (d.depth ≤ Json.depthLimit → ∃ w, decoder.parse r text = .ok w ∧ w.equals v = true) ∧
      (Json.depthLimit < d.depth → decoder.parse r text =
        .error (.failed (.decode "JSON text" (.notJson ReadFault.tooDeep.message)))) := by
  obtain ⟨d, text, w, hencode, hstringify, denotes, hdecode, same⟩ := exists_denotedBy_of_exact types
    gapless built own revives hencoder encodes hdecoder decodes hemitter emits names exact
  refine ⟨d, text, hencode, hstringify, fun shallow => ⟨w, ?_, same⟩, parse_of_lt_depth denotes⟩
  rw [parse_eq_decode denotes shallow, hdecode]

end Handle

/-! ## Offers

An offer has a price, which is a number or a big integer, perhaps a date, and offers that come with
it.
-/

namespace Offers

def graph : TypeGraph where
  nodes := #[⟨.objectLiteral [⟨1⟩, ⟨5⟩, ⟨7⟩], some "Offer"⟩, ⟨.property "price" ⟨2⟩ false false, none⟩,
    ⟨.union [⟨3⟩, ⟨4⟩], none⟩, ⟨.number, none⟩, ⟨.bigint, none⟩,
    ⟨.property "until" ⟨6⟩ true false, none⟩, ⟨.classType "Date" [], none⟩,
    ⟨.property "with" ⟨8⟩ false false, none⟩, ⟨.array ⟨0⟩, none⟩]
  roots := [("Offer", ⟨0⟩)]

def sample : Sample := { graph, targets := [.jsonStringify, .jsonDecode, .jsonEncode] }

def value : Value :=
  .object [("price", .number 1.5), ("until", .date ⟨0, 0⟩),
    ("with", .array [.object [("with", .array []), ("price", .bigint (-7))]])]

/-- What is computed here: the type is lowered and in order, its functions are built, and the value
is an exact instance with a document that is not too deep. -/
theorem computed : sample.loads = true ∧ sample.isFaithful = true ∧ sample.isBuilt = true ∧
    sample.isOwn = true ∧ sample.arena.isGapless = true ∧ sample.arena.classesIn [] = true ∧
    value.hasNames = true ∧ (sample.arena.unfolding sample.node).exactly 8 value = true ∧
    (((sample.handle .jsonEncode).encode sample.registry value).toOption.any
      fun d => decide (d.depth ≤ Json.depthLimit)) = true := by
  decide +kernel

theorem text_comes_back : ∃ text w,
    (sample.handle .jsonStringify).stringify sample.registry value = .ok text ∧
    (sample.handle .jsonDecode).parse sample.registry text = .ok w ∧ w.equals value = true := by
  obtain ⟨loads, faithful, built, own, gapless, classes, names, exact, shallow⟩ := computed
  have comesBack := Handle.parse_stringify_of_exact (Sample.loweredTypes loads faithful)
    (Arena.gapless_of_isGapless gapless) (Sample.builds built) (Sample.forall_handles (Sample.own own))
    (Engine.revives_of_classesIn classes (List.forall_mem_nil _))
    (Sample.mem_handles (by decide)) rfl (Sample.mem_handles (by decide)) rfl
    (Sample.mem_handles (by decide)) rfl names ⟨8, exact⟩
  obtain ⟨d, text, hencode, hstringify, hparse, -⟩ := comesBack
  rw [hencode] at shallow
  obtain ⟨w, hw, same⟩ := hparse (of_decide_eq_true shallow)
  exact ⟨text, w, hstringify, hw, same⟩

end Offers

/-! ## Nested lists

A list of lists, and so on, or a big integer.  Each list stands in the document behind the number of
its member, which is a list as well, so that the document is twice as deep as the value.  The reader
goes down into the value, but not into the document.
-/

namespace NestedLists

def graph : TypeGraph where
  nodes := #[⟨.union [⟨1⟩, ⟨2⟩], some "Nested"⟩, ⟨.array ⟨0⟩, none⟩, ⟨.bigint, none⟩]
  roots := [("Nested", ⟨0⟩)]

def sample : Sample := { graph, targets := [.jsonStringify, .jsonDecode, .jsonEncode] }

/-- The array among the members of the union. -/
def lists : NodeId := ⟨1⟩

/-- Lists inside one another. -/
def nested : Nat → Value
  | 0 => .array []
  | n + 1 => .array [nested n]

/-- More lists than half of what the reader goes down. -/
def value : Value := nested (Json.depthLimit / 2)

/-- What is computed here: the type is lowered and in order, its functions are built, and the document
of the value is too deep. -/
theorem computed : sample.loads = true ∧ sample.isFaithful = true ∧ sample.isBuilt = true ∧
    sample.isOwn = true ∧ sample.arena.isGapless = true ∧ sample.arena.classesIn [] = true ∧
    (match (sample.arena.node sample.node).shape, (sample.arena.node lists).shape with
      | .union members, .array item => members == [lists, ⟨2⟩] && item == sample.node
      | _, _ => false) = true ∧
    value.hasNames = true ∧
    (((sample.handle .jsonEncode).encode sample.registry value).toOption.any
      fun d => decide (Json.depthLimit < d.depth)) = true := by
  decide +kernel

theorem shapes : (sample.arena.node sample.node).shape = .union [lists, ⟨2⟩] ∧
    (sample.arena.node lists).shape = .array sample.node := by
  obtain ⟨-, -, -, -, -, -, shapes, -⟩ := computed
  split at shapes
  · rename_i members item hunion harray
    obtain ⟨hmembers, hitem⟩ := Bool.and_eq_true_iff.mp shapes
    rw [hunion, harray, eq_of_beq hmembers, eq_of_beq hitem]
    exact ⟨rfl, rfl⟩
  · cases shapes

/-- The unfolded type, and that of the lists among its instances. -/
def type : TypeTree := sample.arena.unfolding sample.node

def listType : TypeTree := sample.arena.unfolding lists

theorem facet_type (v : Value) :
    type.facet v = .oneOf [listType, sample.arena.unfolding ⟨2⟩] := Arena.facet_union shapes.1

theorem facet_listType (v : Value) :
    listType.facet v = .guarded (Kind.array.holds v) "array" (type.each (v.stepsFrom 0)) :=
  Arena.facet_array shapes.2

/-- The first member of the union decides. -/
theorem judge_type {k : Nat} {v : Value} (h : listType.judge k v = some true) :
    type.judge (k + 1) v = some true := by
  rw [TypeTree.judge, facet_type]
  dsimp only
  rw [List.anyM, h]
  rfl

/-- Lists are instances, however many stand inside one another. -/
theorem judge_nested (n : Nat) : listType.judge (2 * n + 1) (nested n) = some true := by
  induction n with
  | zero =>
    rw [TypeTree.judge, facet_listType]
    rfl
  | succ n ih =>
    rw [TypeTree.judge, facet_listType]
    change (type.judge (2 * n + 2) (nested n) >>= fun b => _) = _
    rw [judge_type ih]
    rfl

/-- They are so by nothing but what the type declares. -/
theorem exactly_nested (n : Nat) : listType.exactly (2 * n + 1) (nested n) = true ∧
    type.exactly (2 * n + 2) (nested n) = true := by
  obtain ⟨listLabel, item⟩ : listType.label = some .array ∧ listType.part 0 = type :=
    Arena.label_of_array shapes.2
  obtain ⟨typeLabel, members⟩ : type.label = some (.union 2) ∧
      (List.range 2).map type.part = [listType, sample.arena.unfolding ⟨2⟩] :=
    Arena.label_of_union shapes.1
  have union {k : Nat} {v : Value} (judges : listType.judge (k + 1) v = some true)
      (exact : listType.exactly (k + 1) v = true) : type.exactly (k + 2) v = true := by
    rw [TypeTree.exactly, judge_type judges]
    simp only [TypeTree.exactParts, typeLabel]
    rw [members, TypeTree.firstOf, judges]
    exact exact
  suffices h : listType.exactly (2 * n + 1) (nested n) = true from ⟨h, union (judge_nested n) h⟩
  induction n with
  | zero =>
    rw [TypeTree.exactly, judge_nested 0]
    simp only [TypeTree.exactParts, listLabel, nested]
    rfl
  | succ n ih =>
    rw [TypeTree.exactly, judge_nested (n + 1)]
    simp only [TypeTree.exactParts, listLabel, item, nested, List.all_cons]
    have inner : type.exactly (2 * (n + 1)) (nested n) = true := union (judge_nested n) ih
    rw [inner]
    rfl

/-- The document comes back, but the text does not. -/
theorem text_lost : (sample.arena.unfolding sample.node).Exact value ∧
    ∃ d text w, (sample.handle .jsonEncode).encode sample.registry value = .ok d ∧
      (sample.handle .jsonDecode).decode sample.registry d = .ok w ∧ w.equals value = true ∧
      (sample.handle .jsonStringify).stringify sample.registry value = .ok text ∧
      (sample.handle .jsonDecode).parse sample.registry text =
        .error (.failed (.decode "JSON text" (.notJson ReadFault.tooDeep.message))) := by
  obtain ⟨loads, faithful, built, own, gapless, classes, -, names, deep⟩ := computed
  have exact : (sample.arena.unfolding sample.node).Exact value := ⟨_, (exactly_nested _).2⟩
  obtain ⟨d, text, w, hencode, hstringify, denotes, hdecode, same⟩ :=
    Handle.exists_denotedBy_of_exact (Sample.loweredTypes loads faithful)
      (Arena.gapless_of_isGapless gapless) (Sample.builds built)
      (Sample.forall_handles (Sample.own own))
      (Engine.revives_of_classesIn classes (List.forall_mem_nil _))
      (Sample.mem_handles (by decide)) rfl (Sample.mem_handles (by decide)) rfl
      (Sample.mem_handles (by decide)) rfl names exact
  rw [hencode] at deep
  exact ⟨exact, d, text, w, hencode, hdecode, same, hstringify,
    Handle.parse_of_lt_depth denotes (of_decide_eq_true deep)⟩

end NestedLists

end Typeforge
