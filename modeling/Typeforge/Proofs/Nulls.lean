/-
# `Typeforge.Proofs.Nulls` — where null is found, a test accepts it

Whether a null in a position of a tuple stands for an element left out hangs on whether
null is an instance of the position's type.  `Arena.acceptsNull` finds that out without
code: it goes through the unions that stand there, however deep, and keeps one list of the
nodes it has been to.  A compiled test asks the members of a union one after the other and
may call itself on the way.

Both answer alike wherever the test has an answer.  A node that the search passes over
because it has been there is none that would have said yes: had null been an instance of
it, the search would have found it there the first time, and stopped.  A union that
contains itself may have no answer at all, but then the test has none either.

`Handle.acceptsNull_eq_isType` asks that the position offers types only: the search does
not go through a parameter, of which null may be an instance all the same
(`ParameterSlot.null_lost`).
-/
import Typeforge.Proofs.Absence

namespace Typeforge

namespace Arena

/-- The types that are offered by a tuple member: its own, and the members of the unions among
them. -/
inductive Offers (a : Arena) (pos : NodeId) : NodeId → Prop where
  | own {child} (h : (a.node pos).shape = .tupleMember child) : Offers a pos child
  | member {id members m} (offers : Offers a pos id) (h : (a.node id).shape = .union members)
      (hm : m ∈ members) : Offers a pos m

variable {a : Arena} {pos child : NodeId}

/-- In a portable type nothing else is offered than types. -/
theorem Portable.isType_of_offers (portable : a.Portable) {id : NodeId} (h : a.Offers pos id) :
    a.IsType id := by
  cases h with
  | own h =>
    have hid : id ∈ (a.node pos).children := by
      rw [Node.children, h]
      exact List.mem_cons_self
    refine portable.isType hid ?_ ?_ ?_
    all_goals
      intros
      rw [h]
      rintro ⟨⟩
  | @member parent _ _ _ h hm =>
    have hid : id ∈ (a.node parent).children := by rwa [Node.children, h]
    refine portable.isType hid ?_ ?_ ?_
    all_goals
      intros
      rw [h]
      rintro ⟨⟩

/-- The search answers whatever the type does. -/
theorem acceptsNull_eq_of_judges (hpos : (a.node pos).shape = .tupleMember child)
    (types : ∀ id, a.Offers pos id → a.IsType id) {b : Bool}
    (h : Judges (a.unfolding pos) .null b) : a.acceptsNull pos = b := by
  cases b with
  | true =>
    exact acceptsNull_of_judges types (fun _ _ offers hshape _ hm => .member offers hshape hm) hpos
      (.own hpos) h
  | false =>
    refine Bool.eq_false_iff.mpr fun hnull => ?_
    exact (findsNull_of_acceptsNullFrom hnull).not_judges h

end Arena

/-- **Null is found in the type of a tuple member exactly when a test accepts it**, in whatever order
functions were built before and however the unions in it refer to one another. The tuple member is
to offer only types; a test that may call itself for ever on null is left out. -/
theorem Handle.acceptsNull_eq_isType {e : Engine} {a : Arena} {r : Registry}
    {handles : List (NodeId × Handle)} {pos child : NodeId} {h : Handle} (faithful : a.Faithful)
    (hpos : (a.node pos).shape = .tupleMember child)
    (types : ∀ id, a.Offers pos id → a.IsType id) (built : e.Builds a r handles)
    (hmem : (pos, h) ∈ handles) (htarget : h.key.target = .isType)
    (ends : (h.program r).isType h.key.identity .null ≠ .error .cutOff) :
    a.acceptsNull pos = h.isType r .null :=
  Arena.acceptsNull_eq_of_judges hpos types
    (Handle.judges_isType faithful built hmem htarget ends)

/-! ## Unions in a ring

An optional position whose type is a union, with a union in it that the first is a member of.
-/

namespace Rings

def sample : Sample where
  graph := {
    nodes := #[⟨.tuple [⟨1⟩], none⟩, ⟨.tupleMember ⟨2⟩ true none, none⟩, ⟨.union [⟨3⟩, ⟨4⟩], none⟩,
      ⟨.string, none⟩, ⟨.union [⟨5⟩, ⟨2⟩], none⟩, ⟨.null, none⟩]
    roots := [("Ring", ⟨0⟩)] }

def pos : NodeId := ⟨1⟩

def handle : Handle := sample.handleAt pos .isType

/-- The registry when the test of the position has been built. -/
def registry : Registry := sample.registryOf [(pos, .isType)]

/-- What is computed here: the type is lowered and portable, the test of the position is built, and
it accepts null. -/
theorem computed : sample.isFaithful = true ∧ sample.arena.isPortable = true ∧
    (match (sample.arena.node pos).shape with
      | .tupleMember _ => true
      | _ => false) = true ∧
    sample.buildsOf [(pos, .isType)] = true ∧
    ((handle.program registry).isType handle.key.identity .null).isOk = true ∧
    handle.isType registry .null = true := by
  decide +kernel

theorem null_found : handle.isType registry .null = true ∧ sample.arena.acceptsNull pos = true := by
  obtain ⟨faithful, portable, shape, built, ends, accepts⟩ := computed
  split at shape
  · rename_i child hpos
    have hnull := Handle.acceptsNull_eq_isType (Sample.faithful faithful) hpos
      (fun _ => (Arena.portable_of_isPortable portable).isType_of_offers)
      (Sample.builds_registryOf built) List.mem_cons_self rfl (Except.ne_error_of_isOk ends _)
    exact ⟨accepts, hnull.trans accepts⟩
  · cases shape

end Rings

end Typeforge
