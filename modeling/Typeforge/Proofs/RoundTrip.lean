/-
# `Typeforge.Proofs.RoundTrip` — what is encoded comes back

`Handle.decode_encode_of_exact`: an exact instance of a type is encoded, and the
document is decoded to an equal value.  Both functions end, and neither fails: no part
of the value is left out of the document and none is refused, and the decoder finds the
arm of each union by the number that the encoder has written.

* `Arena.LoweredTypes`: identities are faithful.  A function is found by its identity,
  and with a false one it is that of another type.
* `Arena.Portable`: nodes stand where they belong, and literals are such as JSON or a
  codec carries.  `ParameterSlot.null_lost` has a parameter in a position of a tuple: it
  is compiled to what its type is compiled to, but the search for null as an instance
  does not go through it, and the decoder takes a null there for an element left out.
* `Engine.Revives`: revivers return their argument.  The decoder hands them what it has
  decoded, and returns what they return.
* Functions are built for types by themselves (`Arena.IsType`), as the function of a
  node that stands for another may be a call of itself.
* `Value.hasNames`: no object has a name twice.  Values are such objects by construction
  where programs run; the type of values does not say so.
-/
import Typeforge.Proofs.Running.Carrying

namespace Typeforge

/-! ## Calls of registered functions -/

namespace Registry

variable {r : Registry} {a : Arena} {revivers : Revivers} {limit K : Nat} {id : NodeId} {v : Value}

/-- What all code for a type makes, the function registered for it makes with one more call. -/
theorem Serves.called (serves : r.Serves a revivers limit) {w : Way}
    {P : (Value → Changed) → Prop} (hkey : ⟨(a.node id).identity, w.target⟩ ∈ r.keys)
    (plain : ¬ (a.unfolding id).Needs w → P Changed.done)
    (h : r.Makes a revivers K w (a.unfolding id) P) {k : Nat} (hk : K < k) :
    P ((r.program revivers).transformCall w.target k (a.node id).identity) := by
  obtain ⟨-, node, depth, body, hself, hnode, hentered, hrun⟩ := serves.exists_code hkey
  obtain ⟨k, rfl⟩ : ∃ j, k = j + 1 := ⟨k - 1, by omega⟩
  rw [hrun]
  cases hentered with
  | plain hplain =>
    obtain ⟨hneeds, rfl⟩ := Way.plain?_eq_some hplain
    exact plain (hnode ▸ mt (serves.marked node w).mpr hneeds)
  | inPlace hplain hcode =>
    refine h k (Nat.le_of_lt_succ hk) (depth + 1) node body hnode ?_
    cases w <;> exact .inPlace hplain hcode

/-- A value that is carried is encoded, and its document is decoded to an equal value. -/
theorem Serves.decoded_of_carries (serves : r.Serves a revivers limit)
    (hencode : ⟨(a.node id).identity, .jsonEncode⟩ ∈ r.keys)
    (hdecode : ⟨(a.node id).identity, .jsonDecode⟩ ∈ r.keys)
    (h : r.Carries a revivers K (a.unfolding id) v) (hroom : K < (r.program revivers).steps v) :
    ∃ encoded d decoded,
      (r.program revivers).transform (a.node id).identity .jsonEncode v = .done encoded ∧
      encoded.toJson = .ok d ∧
      (r.program revivers).transform (a.node id).identity .jsonDecode (.ofJson d) = .done decoded ∧
      decoded.equals v = true := by
  obtain ⟨encoded, d, decoded, h⟩ := h
  have hdeep : (r.program revivers).steps v ≤ (r.program revivers).steps (.ofJson d) :=
    Nat.add_le_add_right (Nat.mul_le_mul_right _ (Nat.add_le_add_right h.deep 2)) _
  refine ⟨encoded, d, decoded, ?_, ?_, ?_, h.same⟩
  · refine serves.called (w := .encode) (P := (· v = .done encoded)) hencode (fun hneeds => ?_)
      h.encodes hroom
    rw [← h.kept hneeds]
  · rw [Value.toJson, h.document]
    rfl
  · refine serves.called (w := .decode) (P := (· (.ofJson d) = .done decoded)) hdecode
      (fun hneeds => ?_) h.decodes (hroom.trans_le hdeep)
    rw [h.left hneeds]

end Registry

/-! ## Handles -/

/-- Whether each class of a type has a reviver that returns its argument. -/
def Engine.Revives (e : Engine) (a : Arena) : Prop :=
  ∀ id props index name, (a.node id).shape = .object props index (some name) →
    ∃ reviver, Members.get? name e.revivers = some reviver ∧ ∀ v, reviver v = v

/-- Whether all classes of a type are among some. -/
def Arena.classesIn (a : Arena) (names : List String) : Bool :=
  a.ids.all fun id =>
    match (a.node id).shape with
    | .object _ _ (some name) => names.contains name
    | _ => true

theorem Engine.revives_of_classesIn {e : Engine} {a : Arena} {names : List String}
    (within : a.classesIn names = true)
    (revivers : ∀ name ∈ names, Members.get? name e.revivers = some fun v => v) : e.Revives a := by
  intro id props index name hshape
  have hid : id ∈ a.ids := by
    by_contra hid
    rw [Arena.node_eq_default hid] at hshape
    cases hshape
  have hname := List.all_eq_true.mp within id hid
  rw [hshape] at hname
  exact ⟨_, revivers name (List.contains_iff_mem.mp hname), fun _ => rfl⟩

variable {e : Engine} {a : Arena} {r : Registry} {handles : List (NodeId × Handle)} {id : NodeId}
  {tester encoder decoder : Handle} {v : Value}

/-- What is built for types that JSON can carry carries their instances. -/
theorem Engine.Builds.serves (built : e.Builds a r handles) (types : Arena.LoweredTypes {a})
    (carriable : a.Carriable) (own : ∀ x ∈ handles, a.IsType x.1) (revives : e.Revives a) :
    r.Serves a e.revivers (e.config.maxDepth - 1) where
  faithful := types.faithful.faithful rfl
  marked := types.marked a rfl
  carriable := carriable
  grounded := built.grounded fun x hx => (own x hx).1
  revives := revives

namespace Handle

/-- The functions of handles are registered. -/
theorem mem_keys_of_built (built : e.Builds a r handles) {handle : Handle}
    (h : (id, handle) ∈ handles) {target : Target} (htarget : handle.key.target = target) :
    ⟨(a.node id).identity, target⟩ ∈ r.keys := by
  obtain ⟨hkey, hid, -⟩ := built.compiled.2 _ h
  rw [← hid, ← htarget]
  exact hkey

/-- A value that is carried is encoded by one handle, and another decodes the document to an equal
value. -/
theorem decodes_of_carries (built : e.Builds a r handles)
    (serves : r.Serves a e.revivers (e.config.maxDepth - 1)) (hencoder : (id, encoder) ∈ handles)
    (encodes : encoder.key.target = .jsonEncode) (hdecoder : (id, decoder) ∈ handles)
    (decodes : decoder.key.target = .jsonDecode) {K : Nat}
    (h : r.Carries a e.revivers K (a.unfolding id) v)
    (hroom : K < (r.program e.revivers).steps v) :
    ∃ d w, encoder.encode r v = .ok d ∧ decoder.decode r d = .ok w ∧ w.equals v = true := by
  obtain ⟨-, hencoderId, hencoderRevivers⟩ := built.compiled.2 _ hencoder
  obtain ⟨-, hdecoderId, hdecoderRevivers⟩ := built.compiled.2 _ hdecoder
  obtain ⟨encoded, d, decoded, hencode, document, hdecode, same⟩ := serves.decoded_of_carries
    (mem_keys_of_built built hencoder encodes) (mem_keys_of_built built hdecoder decodes) h hroom
  refine ⟨d, decoded, ?_, ?_, same⟩
  · have htransform : encoder.transform r v = .done encoded := by
      rw [transform, program, hencoderId, encodes, hencoderRevivers]
      exact hencode
    rw [encode_of_done htransform, document]
    rfl
  · have htransform : decoder.transform r (.ofJson d) = .done decoded := by
      rw [transform, program, hdecoderId, decodes, hdecoderRevivers]
      exact hdecode
    rw [decode, htransform]
    rfl

/-- **What is encoded comes back.** An exact instance of a type is encoded, and the document is
decoded to an equal value. -/
theorem decode_encode_of_exact (types : Arena.LoweredTypes {a}) (portable : a.Portable)
    (built : e.Builds a r handles) (own : ∀ x ∈ handles, a.IsType x.1) (revives : e.Revives a)
    (hencoder : (id, encoder) ∈ handles) (encodes : encoder.key.target = .jsonEncode)
    (hdecoder : (id, decoder) ∈ handles) (decodes : decoder.key.target = .jsonDecode)
    (names : v.hasNames = true) (exact : (a.unfolding id).Exact v) :
    ∃ d w, encoder.encode r v = .ok d ∧ decoder.decode r d = .ok w ∧ w.equals v = true := by
  obtain ⟨n, exact⟩ := exact
  have serves := built.serves types portable.carriable own revives
  exact decodes_of_carries built serves hencoder encodes hdecoder decodes
    (serves.carries_exactly n id v (own _ hencoder).2 names exact)
    (Value.room_lt_steps (Program.length_names _).le)

end Handle

/-! ## Branches

A branch is a date and perhaps another branch, a big integer, or an instance of a class that has a
branch.  Both functions do something at all depths: there are tags, codecs and a reviver.
-/

namespace Branches

def sample : Sample where
  graph := {
    nodes := #[⟨.union [⟨1⟩, ⟨2⟩, ⟨6⟩], some "Branch"⟩, ⟨.bigint, none⟩, ⟨.tuple [⟨3⟩, ⟨4⟩], none⟩,
      ⟨.tupleMember ⟨5⟩ false none, none⟩, ⟨.tupleMember ⟨0⟩ true none, none⟩,
      ⟨.classType "Date" [], none⟩, ⟨.classType "Leaf" [⟨7⟩], none⟩,
      ⟨.property "next" ⟨0⟩ true false, none⟩]
    roots := [("Branch", ⟨0⟩)] }
  engine := { revivers := [("Leaf", fun v => v)] }
  targets := [.jsonDecode, .jsonEncode]

def value : Value :=
  .array [.date ⟨0, 0⟩, .object [("next", .array [.date ⟨5, 0⟩, .bigint (-7)])]]

theorem computed : sample.loads = true ∧ sample.isFaithful = true ∧ sample.isBuilt = true ∧
    sample.isOwn = true ∧ sample.arena.isPortable = true ∧ sample.arena.classesIn ["Leaf"] = true ∧
    value.hasNames = true ∧ (sample.arena.unfolding sample.node).exactly 12 value = true := by
  decide +kernel

theorem comes_back : ∃ d w, (sample.handle .jsonEncode).encode sample.registry value = .ok d ∧
    (sample.handle .jsonDecode).decode sample.registry d = .ok w ∧ w.equals value = true := by
  obtain ⟨loads, faithful, built, own, portable, classes, names, exact⟩ := computed
  exact Handle.decode_encode_of_exact (Sample.loweredTypes loads faithful)
    (Arena.portable_of_isPortable portable) (Sample.builds built)
    (Sample.forall_handles (Sample.own own))
    (Engine.revives_of_classesIn classes (List.forall_mem_singleton.mpr rfl))
    (Sample.mem_handles (by decide)) rfl (Sample.mem_handles (by decide)) rfl names ⟨12, exact⟩

end Branches

/-! ## A parameter in a tuple

A tuple with one optional position, which is a parameter whose type is null.  Null is an exact
instance of the parameter, but the decoder takes it for an element left out.
-/

namespace ParameterSlot

def sample : Sample where
  graph := {
    nodes := #[⟨.tuple [⟨1⟩], none⟩, ⟨.tupleMember ⟨2⟩ true none, none⟩,
      ⟨.parameter "p" ⟨3⟩ false, none⟩, ⟨.null, none⟩]
    roots := [("Slot", ⟨0⟩)] }
  targets := [.jsonDecode, .jsonEncode, .isType]

def value : Value := .array [.null]

/-- Null is encoded as it is and decoded as undefined. -/
theorem null_lost : sample.loads = true ∧ sample.isFaithful = true ∧ sample.isBuilt = true ∧
    sample.arena.isWellPlaced = true ∧ value.hasNames = true ∧
    (sample.handle .isType).isType sample.registry value = true ∧
    (sample.arena.unfolding sample.node).exactly 4 value = true ∧
    ((sample.handle .jsonEncode).encode sample.registry value).toOption.any
      (·.same (.array [.null])) = true ∧
    ((sample.handle .jsonDecode).decode sample.registry (.array [.null])).toOption.any
      (·.equals (.array [.undefined])) = true ∧
    (Value.array [.undefined]).equals value = false := by
  decide +kernel

end ParameterSlot

end Typeforge
