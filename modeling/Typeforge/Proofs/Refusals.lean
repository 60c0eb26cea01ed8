/-
# `Typeforge.Proofs.Refusals` — which builds fail

A type with a part that has no instances, or that is a promise or a function, is no
type of data.  Encoders, decoders and emitters of such a type are never built,
wherever the part stands; nor are tests and reports, as long as no union on the way
to it has a member that all values are instances of.  A type without such a part
is always built, unless it is too deep or has a class that cannot be revived.

The exception is needed: where a member of a union has a test that always holds,
the test of the union is not compiled any further, and the members after it may be
anything.  `AnythingOrFunction.builds_tests` is a union of `any` and a function type.

`Engine.build_refused` states both directions.  The first one asks that identities are
faithful, as functions are told apart by them, and one that is registered is not built
again; and a node that stands for another is no place to build at, since its function
may come out as a call of itself.  The second one asks for neither.
-/
import Typeforge.Proofs.Compiling.Depth
import Typeforge.Proofs.Compiling.Refused
import Typeforge.Proofs.Sharing

namespace Typeforge

namespace Engine

variable {g : TypeGraph} {root : TypeId} {maxDepth : Nat} {a : Arena} {e : Engine} {r : Registry}
  {id : NodeId} {target : Target}

/-- Without a refused node below, a build fails for want of depth or of a reviver only. -/
theorem fails_of_not_refused (clean : ∀ last, a.Reaches id last → (a.node last).isRefused = false)
    {error : CompileError} (h : ((e.build a id target).run.run r).1 = .error error) :
    error.TooDeep ∨ target = .jsonDecode ∧ ∃ name, error = .unregisteredClass name := by
  let Allowed (error : CompileError) : Prop :=
    error.TooDeep ∨ target = .jsonDecode ∧ ∃ name, error = .unregisteredClass name
  have walk : Compile.Walkable (e.setting r a) Allowed (a.Reaches id) := {
    closed := fun _ reaches _ mem => reaches.tail mem
    refusable := fun last reaches hrefused => by cases (clean last reaches).symm.trans hrefused
    deep := fun _ => .inl trivial }
  have unregistered (htarget : target = .jsonDecode) (name : String) :
      Allowed (.unregisteredClass name) := .inr ⟨htarget, name, rfl⟩
  rw [run_build] at h
  cases hfunctions : Compile.functions (e.setting r a) id target with
  | ok fs =>
    rw [hfunctions] at h
    cases h
  | error error' =>
    rw [hfunctions] at h
    cases h
    exact Compile.failsAs_functions (walk.failsAs_defineEntry .refl unregistered) unregistered
      hfunctions

/-- **Which builds fail**: on the engine that is built with, after any builds of the same type, every
build of a node below which a refused one is met fails, for all five targets; and where none can be
reached, a build fails only for going too deep or, when decoding, for want of a reviver. -/
theorem build_refused (hlower : Arena.lower g root maxDepth = .ok a) (id : NodeId)
    (target : Target) :
    (Arena.FaithfulLowering g root maxDepth a → (a.node id).standsFor? = none →
      ∀ (r : Registry) (handles : List (NodeId × Handle)), e.Builds a r handles →
        (∀ x ∈ handles, (a.node x.1).standsFor? = none) → a.Meets target.isTest id →
          ∃ error, ((e.build a id target).run.run r).1 = .error error) ∧
    ((∀ last, a.Reaches id last → (a.node last).isRefused = false) →
      ∀ (r : Registry) (error : CompileError), ((e.build a id target).run.run r).1 = .error error →
        error.TooDeep ∨ target = .jsonDecode ∧ ∃ name, error = .unregisteredClass name) := by
  refine ⟨fun faithful hself r handles past own meets => ?_,
    fun clean r error => fails_of_not_refused clean⟩
  rcases hbuild : (e.build a id target).run.run r with ⟨answer, r'⟩
  cases answer with
  | error error => exact ⟨error, rfl⟩
  | ok h =>
    have built : e.Builds a r' ((id, h) :: handles) := .build past hbuild
    have grounded := built.grounded (List.forall_mem_cons.mpr ⟨hself, own⟩)
    have marked := Arena.marked_of_lower hlower faithful.merging
    obtain ⟨hmem, -, -⟩ := built.compiled.2 _ List.mem_cons_self
    obtain ⟨rfl, -⟩ := build_eq_ok hbuild
    exact absurd (Registry.contains_iff.mpr hmem) (Compile.not_contains_of_refused
      (Arena.membersInPlace_of_lower hlower) faithful.lowered grounded marked meets.unfolding)

end Engine

/-! ## Jobs that may be promised

A circular object with an array of strings and promises.  The promise is found from
the root, but not from the array of tags.
-/

namespace Jobs

def sample : Sample where
  graph := {
    nodes := #[
      ⟨.objectLiteral [⟨1⟩, ⟨2⟩, ⟨3⟩], some "Job"⟩,
      ⟨.property "next" ⟨0⟩ true false, none⟩,
      ⟨.property "work" ⟨4⟩ false false, none⟩,
      ⟨.property "tags" ⟨5⟩ false false, none⟩,
      ⟨.array ⟨6⟩, none⟩,
      ⟨.array ⟨7⟩, none⟩,
      ⟨.union [⟨7⟩, ⟨8⟩], none⟩,
      ⟨.string, none⟩,
      ⟨.promise ⟨7⟩, none⟩]
    roots := [("Job", ⟨0⟩)] }

/-- The array of tags. -/
def tags : NodeId := ⟨8⟩

/-- What is computed here: the type is lowered faithfully. The work of a job is an array of a union of
a string and a promise, its tags an array of that string. -/
theorem computed :
    sample.loads = true ∧ sample.isFaithful = true ∧
    [sample.node, ⟨2⟩, ⟨3⟩, ⟨4⟩].map (fun id => ((sample.arena.node id).children, sample.arena.isUnion id)) =
      [([⟨1⟩, ⟨2⟩, ⟨7⟩], false), ([⟨3⟩], false), ([⟨4⟩], false), ([⟨5⟩, ⟨6⟩], true)] ∧
    [⟨5⟩, ⟨6⟩].map (fun id => (sample.arena.unfolding id).label) = [some (.atom .string), some .promise] ∧
    [sample.node, ⟨6⟩].map (fun id => ((sample.arena.node id).standsFor?, (sample.arena.node id).isRefused)) =
      [(none, false), (none, true)] ∧
    (∀ id ∈ sample.arena.reachable tags, (sample.arena.node id).isRefused = false) ∧
    (∀ id ∈ sample.arena.ids, ∀ child ∈ (sample.arena.node id).children, child ∈ sample.arena.ids) := by
  decide +kernel

/-- Tests and reports look at the promise as well, since the other member is no type of all values. -/
theorem meets (tests : Bool) : sample.arena.Meets tests sample.node := by
  obtain ⟨-, -, nodes, labels, ends, -⟩ := computed
  simp only [List.map_cons, List.map_nil, List.cons.injEq, Prod.mk.injEq, and_true] at nodes labels ends
  obtain ⟨⟨root, rootOpens⟩, ⟨work, workOpens⟩, ⟨item, itemOpens⟩, members, -⟩ := nodes
  obtain ⟨string, promise⟩ := labels
  have opens : sample.arena.Opens tests ⟨4⟩ := by
    refine Arena.opens_of_children fun child hchild => ?_
    rw [members] at hchild
    simp only [List.mem_cons, List.not_mem_nil, or_false] at hchild
    rcases hchild with rfl | rfl
    · exact TypeTree.not_trivial_of_label string (by simp) nofun nofun
    · exact TypeTree.not_trivial_of_label promise nofun nofun nofun
  have refused : sample.arena.Meets tests ⟨6⟩ := .refused ends.2.2
  have union : sample.arena.Meets tests ⟨4⟩ := .child (by simp [members]) opens refused
  have array : sample.arena.Meets tests ⟨3⟩ :=
    .child (by simp [item]) (Arena.opens_of_not_isUnion itemOpens) union
  have property : sample.arena.Meets tests ⟨2⟩ :=
    .child (by simp [work]) (Arena.opens_of_not_isUnion workOpens) array
  exact .child (by simp [root]) (Arena.opens_of_not_isUnion rootOpens) property

theorem builds_refused :
    (∀ target, ∃ error, ((sample.engine.build sample.arena sample.node target).run.run .empty).1 = .error error) ∧
    ∀ target error, ((sample.engine.build sample.arena tags target).run.run .empty).1 = .error error →
      error.TooDeep ∨ target = .jsonDecode ∧ ∃ name, error = .unregisteredClass name := by
  obtain ⟨loads, isFaithful, -, -, ends, clean, closed⟩ := computed
  have hlower := Sample.lowered loads
  have faithful := Sample.faithfulLowering isFaithful
  have hclosed (id : NodeId) : ∀ child ∈ (sample.arena.node id).children, child ∈ sample.arena.ids := by
    by_cases hid : id ∈ sample.arena.ids
    · exact closed id hid
    · rw [Arena.node_eq_default hid]
      exact nofun
  refine ⟨fun target => ?_, fun target error => ?_⟩
  · have hself : (sample.arena.node sample.node).standsFor? = none := by
      simp only [List.map_cons, List.cons.injEq, Prod.mk.injEq] at ends
      exact ends.1.1
    exact (Engine.build_refused hlower sample.node target).1 faithful hself .empty [] .fresh nofun
      (meets target.isTest)
  · exact (Engine.build_refused hlower tags target).2
      (fun last reaches => clean last (Arena.mem_reachable hclosed reaches)) .empty error

end Jobs

/-! ## Anything, or a function -/

namespace AnythingOrFunction

def sample : Sample where
  graph := {
    nodes := #[
      ⟨.union [⟨1⟩, ⟨2⟩], none⟩,
      ⟨.any, none⟩,
      ⟨.function none [] ⟨3⟩, none⟩,
      ⟨.void, none⟩]
    roots := [("Root", ⟨0⟩)] }

/-- What is computed here: the function is reachable, tests and reports are built all the same, and the
three others are not. -/
theorem computed : sample.loads = true ∧
    ((sample.arena.node sample.node).children.any fun id => (sample.arena.node id).isRefused) = true ∧
    Target.all.map (fun target => ((sample.engine.build sample.arena sample.node target).run.run .empty).1.isOk) =
      [true, true, false, false, false] := by
  decide +kernel

/-- A function type is reachable from the union, but its test and its report are built. -/
theorem builds_tests : sample.engine.load sample.graph sample.root = .ok sample.arena ∧
    (∃ last, sample.arena.Reaches sample.node last ∧ (sample.arena.node last).isRefused = true) ∧
    ((sample.engine.build sample.arena sample.node .isType).run.run .empty).1.isOk = true ∧
    ((sample.engine.build sample.arena sample.node .typeErrors).run.run .empty).1.isOk = true ∧
    ((sample.engine.build sample.arena sample.node .jsonEncode).run.run .empty).1.isOk = false := by
  obtain ⟨loads, function, builds⟩ := computed
  obtain ⟨last, hmem, hlast⟩ := List.any_eq_true.mp function
  simp only [Target.all, List.map_cons, List.cons.injEq] at builds
  exact ⟨Sample.loaded loads, ⟨last, .single hmem, hlast⟩, builds.1, builds.2.1, builds.2.2.1⟩

end AnythingOrFunction

end Typeforge
