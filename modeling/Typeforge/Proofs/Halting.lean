/-
# `Typeforge.Proofs.Halting` — compiled functions come to an end

A function that calls itself, directly or through others, need not come to an end
because values are finite: a run may come back to a function with the value it was
called on.  `Handle.answer_finished` says when it does, and within how many calls inside
one another: a number that the levels of the value and the number of nodes give, unless
objects declare names twice.  Then an encoder may come to more than the value had to
begin with, and the bound depends also on how often nodes refer to one another, since an
object may list a property any number of times.

What it asks, and why:

  * `Guarded`: every cycle of references leads through an object, an array or a tuple.
    Each round then takes a part of the value, and between two parts no function is called
    twice.  For a union that has itself as a member there is no such bound;
  * functions are built for nodes that do not stand for others.  A parameter is compiled as
    its type, and if that is a recursive one, what is built for the parameter alone calls
    itself (`ParameterAlone.never_finished`);
  * `Arena.LoweredTypes`: functions are found by identities, so that with one identity for
    two types a call may lead to code of the other;
  * of revivers, which are not the program's own, only where names are declared twice: they
    must not make values deeper, since what one has returned is decoded again
    (`Redeclared.decoder_never_finished`).  Where names differ they do no harm, whatever
    they return.
-/
import Typeforge.Proofs.Answers
import Typeforge.Proofs.Halting.Emits
import Typeforge.Proofs.Halting.Encoding
import Typeforge.Proofs.Halting.Looping
import Typeforge.Proofs.Sharing

namespace Typeforge

/-! ## Bounds from the arena -/

namespace Arena

variable {a : Arena} {id : NodeId}

/-- How often the nodes of an arena refer to one another. -/
def references (a : Arena) : Nat := (a.ids.map fun id => (a.node id).children.length).sum

theorem length_children_le (a : Arena) (id : NodeId) :
    (a.node id).children.length ≤ a.references := by
  by_cases hid : id ∈ a.ids
  · exact List.le_sum_of_mem (List.mem_map_of_mem hid)
  · rw [node_eq_default hid]
    exact Nat.zero_le _

/-- In a guarded arena no more unions stand one inside another than there are nodes, and one, and
no member is changed more often than nodes refer to one another. -/
theorem Guarded.bounded (guarded : a.Guarded) : a.Bounded (a.size + 2) (a.references + 1) where
  shallow id := ⟨_, guarded.shallow id⟩
  changes_pos := Nat.succ_pos _
  rank_le id := TypeTree.rank_le (guarded.shallow id)
  changes_lt id props index className hshape := by
    have hchildren := a.length_children_le id
    rw [Node.children, hshape, Shape.children, List.length_append] at hchildren
    have hprops : (a.properties props).length ≤ props.length := List.length_filterMap_le _ _
    omega

/-- How large a value is to an encoder, which may change members again and again. -/
def encodedSize (a : Arena) (v : Value) : Nat :=
  encodingSize (a.size + 2) (a.references + 1) v.nesting v.depth

/-- How large a value is to a run of any function. -/
def runSize (a : Arena) (v : Value) : Nat := max v.levels (a.encodedSize v)

end Arena

/-! ## Runs with a bound on calls -/

namespace Handle

/-- What the function of a handle makes of a value with so many calls inside one another at most.
Tests that are asked on the way, and whether values are left out, count for themselves. -/
def answerWithin (h : Handle) (r : Registry) (calls : Nat) (v : Value) : Answer :=
  match h.key.target with
  | .isType => .test (answered ((h.program r).checkCall calls h.key.identity v))
  | .typeErrors => .report ((h.program r).reportCall calls h.key.identity [] v)
  | .jsonEncode | .jsonDecode =>
    .change ((h.program r).transformCall h.key.target calls h.key.identity v)
  | .jsonStringify => .text ((h.program r).emitCall calls h.key.identity v)

end Handle

theorem answered_ne_cutOff {α : Type} {x : Option α} (h : x ≠ none) :
    answered x ≠ .error .cutOff := by
  obtain ⟨b, rfl⟩ := Option.ne_none_iff_exists'.mp h
  rintro ⟨⟩

namespace Engine.Builds

variable {e : Engine} {a : Arena} {r : Registry} {handles : List (NodeId × Handle)}
  {id : NodeId} {h : Handle}

/-- Whatever sizes a run goes down by, with as many calls as there may be for a size it comes to an
end. -/
theorem finished_within (types : Arena.LoweredTypes {a}) (guarded : a.Guarded)
    (built : e.Builds a r handles) (own : ∀ x ∈ handles, (a.node x.1).standsFor? = none)
    (hmem : (id, h) ∈ handles) {size : Value → Nat}
    (paced : ∀ way : Way, h.key.target = way.target → a.Paced way h.revivers size) {v : Value}
    {calls : Nat} (levels : a.callBound v.levels ≤ calls) (bound : a.callBound (size v) ≤ calls) :
    (h.answerWithin r calls v).Finished := by
  have shallow := guarded.bounded.shallow
  have faithful := types.faithful.faithful rfl
  have grounded := built.grounded own
  unfold Handle.answerWithin
  cases htarget : h.key.target with
  | isType =>
    obtain ⟨hidentity, hkey⟩ := built.registered hmem htarget
    rw [hidentity]
    exact answered_ne_cutOff
      (Program.checkCall_ne_none_of_bound h.revivers shallow faithful grounded hkey levels)
  | typeErrors =>
    obtain ⟨hidentity, hkey⟩ := built.registered hmem htarget
    rw [hidentity]
    exact Program.halts_reportCall_of_bound h.revivers shallow faithful grounded hkey levels []
  | jsonEncode =>
    obtain ⟨hidentity, hkey⟩ := built.registered hmem htarget
    rw [hidentity]
    exact Program.halts_transformCall_of_bound h.revivers (fun _ => shallow) faithful
      (types.marked a rfl) grounded (paced .encode htarget) hkey bound
  | jsonDecode =>
    obtain ⟨hidentity, hkey⟩ := built.registered hmem htarget
    rw [hidentity]
    exact Program.halts_transformCall_of_bound h.revivers (fun _ => shallow) faithful
      (types.marked a rfl) grounded (paced .decode htarget) hkey bound
  | jsonStringify =>
    obtain ⟨hidentity, hkey⟩ := built.registered hmem htarget
    rw [hidentity]
    exact Program.halts_emitCall_of_bound h.revivers shallow faithful grounded hkey levels

/-- The calls a program makes room for are enough where depth is what runs go down by. -/
theorem finished_answer (types : Arena.LoweredTypes {a}) (guarded : a.Guarded)
    (built : e.Builds a r handles) (own : ∀ x ∈ handles, (a.node x.1).standsFor? = none)
    (hmem : (id, h) ∈ handles)
    (paced : ∀ way : Way, h.key.target = way.target → a.Paced way h.revivers Value.depth)
    (v : Value) : (h.answer r v).Finished := by
  have shallow := guarded.bounded.shallow
  have faithful := types.faithful.faithful rfl
  have grounded := built.grounded own
  unfold Handle.answer
  cases htarget : h.key.target with
  | isType =>
    exact built.isType_ends faithful own (.refl r) hmem htarget (guarded.below id) v
  | typeErrors =>
    obtain ⟨hidentity, hkey⟩ := built.registered hmem htarget
    rw [hidentity]
    exact Program.halts_typeErrors h.revivers shallow faithful grounded hkey v
  | jsonEncode =>
    obtain ⟨hidentity, hkey⟩ := built.registered hmem htarget
    dsimp only
    rw [Handle.transform, hidentity, htarget]
    exact Program.halts_transform h.revivers (fun _ => shallow) faithful
      (types.marked a rfl) grounded (paced .encode htarget) hkey v
  | jsonDecode =>
    obtain ⟨hidentity, hkey⟩ := built.registered hmem htarget
    dsimp only
    rw [Handle.transform, hidentity, htarget]
    exact Program.halts_transform h.revivers (fun _ => shallow) faithful
      (types.marked a rfl) grounded (paced .decode htarget) hkey v
  | jsonStringify =>
    obtain ⟨hidentity, hkey⟩ := built.registered hmem htarget
    dsimp only
    rw [Handle.stringify, hidentity]
    exact Program.halts_stringify h.revivers shallow faithful grounded hkey v

end Engine.Builds

/-- **Compiled functions of guarded types come to an end** on every value, whatever types they were
built with. The calls inside one another are no more than a bound: of the levels of the value and
the number of nodes, but for encoders where names are declared twice; there it is a bound also of
how often nodes refer to one another. -/
theorem Handle.answer_finished {e : Engine} {a : Arena} {r : Registry}
    {handles : List (NodeId × Handle)} {id : NodeId} {h : Handle}
    (types : Arena.LoweredTypes {a}) (guarded : a.Guarded) (built : e.Builds a r handles)
    (own : ∀ x ∈ handles, (a.node x.1).standsFor? = none) (hmem : (id, h) ∈ handles)
    (revivers : h.key.target = .jsonDecode → a.NamesDiffer ∨ h.revivers.Flat) (v : Value) :
    (∀ calls, a.callBound (a.runSize v) ≤ calls → (h.answerWithin r calls v).Finished) ∧
      (a.NamesDiffer ∨ h.key.target ≠ .jsonEncode →
        (∀ calls, a.callBound v.levels ≤ calls → (h.answerWithin r calls v).Finished) ∧
          (h.answer r v).Finished) := by
  -- but for such encoders, depth is what a run goes down by
  have paced (hencode : a.NamesDiffer ∨ h.key.target ≠ .jsonEncode) (way : Way)
      (hway : h.key.target = way.target) : a.Paced way h.revivers Value.depth := by
    cases way with
    | encode =>
      rcases hencode with differ | hne
      · exact differ.paced .encode h.revivers
      · exact absurd hway hne
    | decode =>
      exact (revivers hway).elim (fun differ => differ.paced .decode h.revivers) Arena.paced_decode
  have within (hencode : a.NamesDiffer ∨ h.key.target ≠ .jsonEncode) (calls : Nat)
      (bound : a.callBound v.levels ≤ calls) : (h.answerWithin r calls v).Finished :=
    built.finished_within types guarded own hmem (paced hencode) bound
      ((Arena.callBound_mono a v.depth_le_levels).trans bound)
  refine ⟨fun calls bound => ?_, fun hencode =>
    ⟨within hencode, built.finished_answer types guarded own hmem (paced hencode) v⟩⟩
  have levels := (Arena.callBound_mono a (Nat.le_max_left v.levels _)).trans bound
  by_cases htarget : h.key.target = .jsonEncode
  · refine built.finished_within types guarded own hmem (fun way hway => ?_) levels
      ((Arena.callBound_mono a (Nat.le_max_right _ _)).trans bound)
    cases way with
    | encode => exact guarded.bounded.paced h.revivers
    | decode => cases htarget.symm.trans hway
  · exact within (.inr htarget) calls levels

/-! ## Stages of a journey

A stage has a date and stages that may follow: a union that is reached from itself, through an
object and an array.
-/

namespace Stages

def sample : Sample where
  graph := {
    nodes := #[⟨.union [⟨1⟩, ⟨2⟩], some "Stage"⟩, ⟨.null, none⟩, ⟨.objectLiteral [⟨3⟩, ⟨4⟩], none⟩,
      ⟨.property "on" ⟨5⟩ false false, none⟩, ⟨.property "next" ⟨6⟩ false false, none⟩,
      ⟨.classType "Date" [], none⟩, ⟨.array ⟨0⟩, none⟩]
    roots := [("Stage", ⟨0⟩)] }
  targets := [.jsonDecode, .jsonEncode]

def handle : Handle := sample.handle .jsonEncode

/-- Numbers that fall from a union, and from a property, to what instances are passed on to. -/
def rank (id : NodeId) : Nat :=
  match (sample.arena.node id).shape with
  | .property _ _ => 2
  | .union _ => 1
  | _ => 0

def value : Value :=
  .object [("on", .date ⟨0, 0⟩), ("next", .array [.null, .object [("on", .null)]])]

theorem computed : sample.loads = true ∧ sample.isFaithful = true ∧ sample.isBuilt = true ∧
    sample.isOwn = true ∧ sample.arena.isRankedBy rank = true ∧ sample.arena.isWellPlaced = true := by
  decide +kernel

theorem finished :
    (handle.answerWithin sample.registry (sample.arena.callBound value.levels) value).Finished ∧
      (handle.answer sample.registry value).Finished := by
  obtain ⟨loads, faithful, built, self, ranked, placed⟩ := computed
  have differ : sample.arena.NamesDiffer := (Arena.wellPlaced_of_isWellPlaced placed).distinct
  have own : ∀ x ∈ sample.handles, (sample.arena.node x.1).standsFor? = none :=
    List.forall_mem_map.mpr fun _ _ => (Sample.own self).1
  have encodes : Target.jsonEncode ∈ sample.targets := by decide
  obtain ⟨-, ends⟩ := Handle.answer_finished (Sample.loweredTypes loads faithful)
    (Arena.guarded_of_isRankedBy ranked) (Sample.builds built) own (Sample.mem_handles encodes)
    (fun _ => .inl differ) value
  obtain ⟨within, answers⟩ := ends (.inl differ)
  exact ⟨within _ le_rfl, answers⟩

end Stages

/-! ## Parameters by themselves

Nothing that is built for a node that stands for a recursive type comes to an end, as
long as it is not built for the type itself as well.
-/

/-- A function that does nothing but call itself comes to no end, however many calls it may make. -/
theorem Handle.not_finished_of_calling {h : Handle} {r : Registry}
    (hbody : (h.program r).body? h.key = some (.calling h.key.identity h.key.target)) (calls : Nat)
    (v : Value) : ¬(h.answerWithin r calls v).Finished := by
  obtain ⟨⟨identity, target⟩, revivers⟩ := h
  cases target with
  | isType =>
    have hrun := Program.checkCall_of_calling hbody calls v
    exact fun ends => ends (congrArg answered hrun)
  | typeErrors =>
    have hrun := Program.reportCall_of_calling hbody calls [] v
    exact fun ends => ends hrun
  | jsonEncode =>
    have hrun := Program.transformCall_of_calling hbody (.inl rfl) calls v
    exact fun ends => ends hrun
  | jsonDecode =>
    have hrun := Program.transformCall_of_calling hbody (.inr rfl) calls v
    exact fun ends => ends hrun
  | jsonStringify =>
    have hrun := Program.emitCall_of_calling hbody calls v
    exact fun ends => ends hrun

/-- **What is built for a node that stands for a recursive type calls itself**, and no run of it
comes to an end. -/
theorem Engine.Builds.not_finished {e : Engine} {a : Arena} {r : Registry}
    {handles : List (NodeId × Handle)} {id child : NodeId} (built : e.Builds a r handles)
    (alone : ∀ x ∈ handles, x.1 = id) (stands : (a.node id).standsFor? = some child)
    (own : (e.setting .empty a).ownFunction (a.node child) = true)
    (identity : (a.node child).identity = (a.node id).identity)
    (codes : ∀ x ∈ handles, x.2.key.target.codes (a.node id) = true ∧
      x.2.key.target.codes (a.node child) = true) (calls : Nat) (v : Value) :
    ∀ x ∈ handles, ¬(x.2.answerWithin r calls v).Finished := fun x hx =>
  Handle.not_finished_of_calling
    (built.body?_calling alone stands own identity codes x hx) calls v

namespace ParameterAlone

def sample : Sample where
  graph := {
    nodes := #[⟨.parameter "first" ⟨1⟩ false, none⟩, ⟨.objectLiteral [⟨2⟩, ⟨3⟩], some "Link"⟩,
      ⟨.property "next" ⟨1⟩ true false, none⟩, ⟨.property "on" ⟨4⟩ false false, none⟩,
      ⟨.classType "Date" [], none⟩]
    roots := [("First", ⟨0⟩)] }
  targets := Target.all.reverse

/-- Numbers that fall from the parameter, and from properties, to their types. -/
def rank (id : NodeId) : Nat :=
  match (sample.arena.node id).shape with
  | .parameter _ _ _ | .property _ _ => 1
  | _ => 0

/-- What is computed here: the type is lowered, its functions are built one after the other, and the
root stands for the object, which has its identity and functions of its own. -/
theorem computed : sample.loads = true ∧ sample.isFaithful = true ∧ sample.isBuilt = true ∧
    sample.arena.isRankedBy rank = true ∧ sample.arena.isWellPlaced = true ∧
    (sample.arena.node sample.node).standsFor? = some ⟨1⟩ ∧
    (sample.engine.setting .empty sample.arena).ownFunction (sample.arena.node ⟨1⟩) = true ∧
    (sample.arena.node ⟨1⟩).identity = (sample.arena.node sample.node).identity ∧
    ∀ target ∈ sample.targets, target.codes (sample.arena.node sample.node) = true ∧
      target.codes (sample.arena.node ⟨1⟩) = true := by
  decide +kernel

/-- A parameter of a recursive type, which meets all that is asked of types that come to an end:
none of its five functions does, on any value. -/
theorem never_finished : sample.engine.load sample.graph sample.root = .ok sample.arena ∧
    Arena.LoweredTypes {sample.arena} ∧ sample.arena.Guarded ∧ sample.arena.WellPlaced ∧
    sample.engine.Builds sample.arena sample.registry
      (Target.all.reverse.map fun target => (sample.node, sample.handle target)) ∧
    ∀ target calls v,
      ¬((sample.handle target).answerWithin sample.registry calls v).Finished := by
  obtain ⟨loads, faithful, isBuilt, ranked, placed, stands, own, identity, codes⟩ := computed
  have built := Sample.builds isBuilt
  refine ⟨Sample.loaded loads, Sample.loweredTypes loads faithful,
    Arena.guarded_of_isRankedBy ranked, Arena.wellPlaced_of_isWellPlaced placed, built,
    fun target calls v => ?_⟩
  have hmem : target ∈ sample.targets := by cases target <;> decide
  exact built.not_finished (List.forall_mem_map.mpr fun _ _ => rfl) stands own identity
    (List.forall_mem_map.mpr codes) calls v (sample.node, sample.handle target)
    (Sample.mem_handles hmem)

end ParameterAlone

/-! ## A name declared twice

A class that declares its property twice decodes the member twice, and the second time
it is what the reviver has made of it the first time.
-/

namespace Redeclared

/-- The reviver puts what it is given into another box. -/
def boxed (v : Value) : Value := .object [("value", v)]

def sample : Sample where
  graph := {
    nodes := #[⟨.classType "Box" [⟨1⟩, ⟨1⟩], none⟩, ⟨.property "value" ⟨0⟩ true false, none⟩]
    roots := [("Box", ⟨0⟩)] }
  engine := { revivers := [("Box", boxed)] }
  targets := [.jsonDecode]

def handle : Handle := sample.handle .jsonDecode

/-- Numbers that fall from the property to its type. -/
def rank (id : NodeId) : Nat :=
  match (sample.arena.node id).shape with
  | .property _ _ => 1
  | _ => 0

/-- What is computed here: the type is lowered, and its decoder changes the member twice, each time
by the decoder itself. -/
theorem computed : sample.loads = true ∧ sample.isFaithful = true ∧ sample.isBuilt = true ∧
    sample.isOwn = true ∧ sample.arena.isRankedBy rank = true ∧
    (match (handle.program sample.registry).body? handle.key with
      | some (.jsonDecode [.part access _ [.call identity], .part access' _ [.call identity'],
          .revive className]) => decide (access = .member "value" ∧ access' = access ∧
            identity = handle.key.identity ∧ identity' = identity ∧ className = "Box")
      | _ => false) = true := by
  decide +kernel

section Runs

variable {identity : String} {optional optional' : Bool}

/-- The change of the member, by whatever a call makes of it. -/
theorem run_part (x : Transform.Context) {v : Value} (hv : v.isUndefined = false) :
    (Transform.part (.member "value") optional [.call identity]).run x (boxed v) =
      ⟨boxed (x.call identity v).value, (x.call identity v).stop⟩ := by
  have hcall : Transform.runAll x [.call identity] v = x.call identity v := by
    rw [Transform.runAll, Transform.run, Changed.andThen]
    rcases x.call identity v with ⟨w, _ | halt⟩ <;> rfl
  rw [Transform.run, boxed, Value.changePart]
  simp only [Members.get?, if_true, hv, Bool.and_false, Bool.false_eq_true, if_false, hcall]
  rfl

variable {p : Program}
  (hbody : p.body? ⟨identity, .jsonDecode⟩ = some (.jsonDecode
    [.part (.member "value") optional [.call identity],
      .part (.member "value") optional' [.call identity], .revive "Box"]))

include hbody

/-- Null has no members, and is put into a box. -/
theorem transformCall_null (hrevivers : p.revivers = [("Box", boxed)]) (calls : Nat) :
    p.transformCall .jsonDecode (calls + 1) identity .null = .done (boxed .null) := by
  simp only [Program.transformCall, hbody, hrevivers, Transform.runAll, Transform.run,
    Value.changePart, Changed.andThen, Changed.done, Members.get?, if_true]

/-- A box of null: when the member is come to again, it is a box of null. -/
theorem transformCall_boxed (hrevivers : p.revivers = [("Box", boxed)]) (calls : Nat) :
    (p.transformCall .jsonDecode calls identity (boxed .null)).stop = some .cutOff := by
  induction calls with
  | zero => rfl
  | succ calls ih =>
    rw [Program.transformCall, hbody]
    dsimp only
    rw [Transform.runAll, run_part _ rfl]
    cases calls with
    | zero => rfl
    | succ calls =>
      dsimp only
      rw [transformCall_null hbody hrevivers, Changed.andThen]
      dsimp only [Changed.done]
      rw [Transform.runAll, run_part _ rfl, Changed.andThen]
      dsimp only
      rw [ih]

end Runs

/-- All that is asked of types that come to an end, but for revivers: the one of the class makes
values deeper, and decoding a value of two levels does not come to an end. -/
theorem decoder_never_finished : Arena.LoweredTypes {sample.arena} ∧ sample.arena.Guarded ∧
    sample.engine.Builds sample.arena sample.registry [(sample.node, handle)] ∧
    (sample.arena.node sample.node).standsFor? = none ∧
    ∀ calls, ¬(handle.answerWithin sample.registry calls (boxed .null)).Finished := by
  obtain ⟨loads, faithful, built, own, ranked, body⟩ := computed
  refine ⟨Sample.loweredTypes loads faithful, Arena.guarded_of_isRankedBy ranked,
    Sample.builds built, (Sample.own own).1, fun calls => ?_⟩
  split at body
  · rename_i hbody
    obtain ⟨rfl, rfl, rfl, rfl, rfl⟩ := of_decide_eq_true body
    have hrun := transformCall_boxed hbody rfl calls
    exact fun ends => ends hrun
  · cases body

end Redeclared

end Typeforge
