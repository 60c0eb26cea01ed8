/-
# `Typeforge.Proofs.Sharing` — registries that many engines fill

A build takes what it finds: a function that is registered already is called and
not compiled again, whoever compiled it, and from whichever arena.  Whether shared
types get functions of their own is each engine's choice.  Neither can be told from
what a built function answers, up to the names of unions in errors:
`Registry.History.answer_unnamed_eq_first` has any history of a registry against an
empty one, for one of five targets and any value.

  * `Arena.LoweredTypes`: identities are faithful among all types involved.  Functions
    are found by their identities, and `Patterns.answers_differ_for_one_identity` is what
    comes of one identity for two types;
  * a depth of at most 256, of every engine of the history.  From the 256th on the loops of
    a path share a number, and where shared types have no functions of their own a path
    passes through more loops in one function;
  * `Finished`, of both runs.  A function may call itself for ever
    (`OwnMember.never_accepted`), and what a run that is cut off leaves depends on how
    many calls it was allowed;
  * one table of revivers, since a decoder returns what they return.

The names are left out for a reason.  An encoder that finds no member of a union for a
value names the union by the node it was compiled from, and types may contain a union
under several names.  In `UnionNames` two histories of a registry differ in nothing but
this.
-/
import Typeforge.Proofs.Answers
import Typeforge.Proofs.Samples

namespace Typeforge

/-- Types that were lowered with faithful identities, faithful to one another as well. -/
structure Arena.LoweredTypes (arenas : Set Arena) : Prop where
  faithful : Arena.FaithfulAmong arenas
  lowered : ∀ a ∈ arenas, ∃ g root maxDepth,
    Arena.lower g root maxDepth = .ok a ∧ Arena.FaithfulLowering g root maxDepth a

/-- A single type, lowered with faithful identities. -/
theorem Arena.FaithfulLowering.loweredTypes {g : TypeGraph} {root : TypeId} {maxDepth : Nat}
    {a : Arena} (h : Arena.FaithfulLowering g root maxDepth a)
    (hlower : Arena.lower g root maxDepth = .ok a) : Arena.LoweredTypes {a} where
  faithful := h.lowered.among
  lowered := by
    rintro _ rfl
    exact ⟨g, root, maxDepth, hlower, h⟩

theorem Sample.loweredTypes {s : Sample} (loads : s.loads = true) (faithful : s.isFaithful = true) :
    Arena.LoweredTypes {s.arena} :=
  (Sample.faithfulLowering faithful).loweredTypes (Sample.lowered loads)

theorem Arena.LoweredTypes.marked {arenas : Set Arena} (types : LoweredTypes arenas) :
    ∀ a ∈ arenas, a.Marked := by
  intro a ha
  obtain ⟨g, root, maxDepth, hlower, hfaithful⟩ := types.lowered a ha
  exact marked_of_lower hlower hfaithful.merging

namespace Registry

/-- What a registry comes to that any number of engines have built into, each with settings and
revivers of its own; only the depth of their walks is limited. -/
inductive History (arenas : Set Arena) : Registry → Prop where
  | empty : History arenas .empty
  | build {e : Engine} {a : Arena} {r r' : Registry} {id target h} (past : History arenas r)
      (depth : e.config.maxDepth ≤ 256) (ha : a ∈ arenas)
      (hbuild : (e.build a id target).run.run r = (.ok h, r')) : History arenas r'

variable {arenas : Set Arena} {r : Registry}

theorem History.filledFrom (faithful : Arena.FaithfulAmong arenas) (past : History arenas r) :
    r.FilledFrom arenas 255 := by
  induction past with
  | empty => exact ⟨faithful, fun _ h => absurd h List.not_mem_nil⟩
  | build _ depth ha hbuild ih =>
    exact (Engine.filledFrom_of_build ih ha (by omega) hbuild).1

/-- What is built on a registry with a history is for the type of its node. -/
theorem History.for_of_build (types : Arena.LoweredTypes arenas) (past : History arenas r)
    {e : Engine} (depth : e.config.maxDepth ≤ 256) {a : Arena} (ha : a ∈ arenas) {id : NodeId}
    {target : Target} {r' : Registry} {h : Handle}
    (hbuild : (e.build a id target).run.run r = (.ok h, r')) :
    h.For arenas r' (a.unfolding id) := by
  obtain ⟨hfilled, hkey⟩ :=
    Engine.filledFrom_of_build (past.filledFrom types.faithful) ha (by omega) hbuild
  obtain ⟨rfl, -⟩ := Engine.build_eq_ok hbuild
  exact ⟨hfilled, types.marked, hkey, a, ha, id, rfl, rfl⟩

/-- **No history of a registry shows in what is built on it**, and neither does the choice to share
types: a function built after any number of other builds answers what it answers when it is built
first, up to the names of unions in errors. -/
theorem History.answer_unnamed_eq_first (types : Arena.LoweredTypes arenas) (past : History arenas r)
    {e plain : Engine} (depth : e.config.maxDepth ≤ 256) (plainDepth : plain.config.maxDepth ≤ 256)
    (revivers : e.revivers = plain.revivers) {a : Arena} (ha : a ∈ arenas) {id : NodeId}
    {target : Target} {r' fresh : Registry} {h first : Handle}
    (hbuild : (e.build a id target).run.run r = (.ok h, r'))
    (hfirst : (plain.build a id target).run.run .empty = (.ok first, fresh)) {v : Value}
    (ends : (h.answer r' v).Finished) (firstEnds : (first.answer fresh v).Finished) :
    (h.answer r' v).unnamed = (first.answer fresh v).unnamed := by
  have hfor := past.for_of_build types depth ha hbuild
  have hfor' := History.empty.for_of_build types plainDepth ha hfirst
  obtain ⟨rfl, -⟩ := Engine.build_eq_ok hbuild
  obtain ⟨rfl, -⟩ := Engine.build_eq_ok hfirst
  exact hfor.answer_unnamed hfor' rfl revivers ends firstEnds

end Registry

/-- What an engine builds from one of some arenas is a history of its registry. -/
theorem Engine.Builds.history {e : Engine} {a : Arena} {arenas : Set Arena} {r : Registry}
    {handles : List (NodeId × Handle)} (built : e.Builds a r handles)
    (depth : e.config.maxDepth ≤ 256) (ha : a ∈ arenas) : Registry.History arenas r := by
  induction built with
  | fresh => exact .empty
  | build _ hbuild ih => exact .build ih depth ha hbuild

/-! ## A union with two names

A named object type with an array of a union, of which the array and the object
are members.  An identity follows the references of its own node: where the union
is met below the object it is spelled from the array, and where it is met first,
as the type of an index signature, it is spelled from itself.
-/

deriving instance DecidableEq for Found
deriving instance DecidableEq for RunError
deriving instance DecidableEq for Halt

namespace UnionNames

def graph : TypeGraph where
  nodes := #[
    ⟨.objectLiteral [⟨1⟩], some "Named"⟩,
    ⟨.property "a" ⟨2⟩ false false, none⟩,
    ⟨.array ⟨3⟩, none⟩,
    ⟨.union [⟨2⟩, ⟨0⟩, ⟨4⟩], none⟩,
    ⟨.bigint, none⟩,
    ⟨.objectLiteral [⟨6⟩, ⟨7⟩], none⟩,
    ⟨.indexSignature ⟨8⟩ ⟨3⟩, none⟩,
    ⟨.property "named" ⟨0⟩ false false, none⟩,
    ⟨.string, none⟩]
  roots := [("Named", ⟨0⟩), ("Outer", ⟨5⟩)]

/-- The named type, in an engine that gives shared types functions of their own. -/
def named : Sample := { graph }

/-- The type around it, in another such engine. -/
def outer : Sample := { graph, root := ⟨5⟩, targets := [.jsonEncode] }

/-- An engine that gives shared types no functions. -/
def plain : Engine := { config := { shareNamedTypes := false } }

def handle : Handle := named.handle .jsonEncode

/-- The registry when the named type is built where the outer one was built before. -/
def after : Registry :=
  ((named.engine.build named.arena named.node .jsonEncode).run.run outer.registry).2

def fresh : Registry := ((plain.build named.arena named.node .jsonEncode).run.run .empty).2

/-- An object with an element that is no member of the union. -/
def value : Value := .object [("a", .array [.number 5])]

/-- The nodes of the two arenas that are of one type. -/
def same : List (NodeId × NodeId) :=
  [(⟨0⟩, ⟨4⟩), (⟨1⟩, ⟨5⟩), (⟨2⟩, ⟨3⟩), (⟨3⟩, ⟨2⟩), (⟨4⟩, ⟨6⟩)]

/-- What is computed here: both types are lowered faithfully, the three functions are built, and the
union is named in two ways. -/
theorem computed : named.loads = true ∧ named.isFaithful = true ∧
    outer.loads = true ∧ outer.isFaithful = true ∧ outer.isBuilt = true ∧
    (Compile.functions (named.engine.setting outer.registry named.arena) named.node
      .jsonEncode).isOk = true ∧
    (Compile.functions (plain.setting .empty named.arena) named.node .jsonEncode).isOk = true ∧
    (handle.transform after value).stop = some (.failed (.noUnionMember
      "union<array<$2>|\x7ba:array<union<$2|$4|bigint>>\x7d|bigint>")) ∧
    (handle.transform fresh value).stop = some (.failed (.noUnionMember
      "union<array<union<$2|\x7ba:array<union<$2|$4|bigint>>\x7d|bigint>>|\x7ba:array<union<$2|$4|bigint>>\x7d|bigint>")) := by
  decide +kernel

theorem types : Arena.LoweredTypes {named.arena, outer.arena} where
  faithful := Arena.faithfulAmong_pair same (by decide +kernel) (by decide +kernel)
    (by decide +kernel)
  lowered := by
    obtain ⟨namedLoads, namedFaithful, outerLoads, outerFaithful, -⟩ := computed
    rintro a (rfl | rfl)
    · exact ⟨_, _, _, Sample.lowered namedLoads, Sample.faithfulLowering namedFaithful⟩
    · exact ⟨_, _, _, Sample.lowered outerLoads, Sample.faithfulLowering outerFaithful⟩

theorem history : Registry.History {named.arena, outer.arena} outer.registry := by
  obtain ⟨-, -, -, -, built, -⟩ := computed
  exact (Sample.builds built).history (by decide) (.inr rfl)

theorem built_after :
    (named.engine.build named.arena named.node .jsonEncode).run.run outer.registry =
      (.ok handle, after) := by
  obtain ⟨-, -, -, -, -, compiles, -⟩ := computed
  exact Prod.ext (Engine.run_build_fst compiles) rfl

theorem built_first : (plain.build named.arena named.node .jsonEncode).run.run .empty =
    (.ok handle, fresh) := by
  obtain ⟨-, -, -, -, -, -, compiles, -⟩ := computed
  exact Prod.ext (Engine.run_build_fst compiles) rfl

theorem stop_after : (handle.transform after value).stop = some (.failed (.noUnionMember
    "union<array<$2>|\x7ba:array<union<$2|$4|bigint>>\x7d|bigint>")) := by
  obtain ⟨-, -, -, -, -, -, -, stop, -⟩ := computed
  exact stop

theorem stop_fresh : (handle.transform fresh value).stop = some (.failed (.noUnionMember
    "union<array<union<$2|\x7ba:array<union<$2|$4|bigint>>\x7d|bigint>>|\x7ba:array<union<$2|$4|bigint>>\x7d|bigint>")) := by
  obtain ⟨-, -, -, -, -, -, -, -, stop⟩ := computed
  exact stop

theorem unnamed_answers_agree :
    (handle.answer after value).unnamed = (handle.answer fresh value).unnamed := by
  have hrevivers : named.engine.revivers = plain.revivers := rfl
  refine Registry.History.answer_unnamed_eq_first types history (by decide) (by decide) hrevivers
    (.inl rfl) built_after built_first ?_ ?_
  · show (handle.transform after value).stop ≠ some .cutOff
    rw [stop_after]
    exact nofun
  · show (handle.transform fresh value).stop ≠ some .cutOff
    rw [stop_fresh]
    exact nofun

/-- The same function of the same type, built on the two registries, gives two errors. -/
theorem answers_differ : Registry.History {named.arena, outer.arena} outer.registry ∧
    (named.engine.build named.arena named.node .jsonEncode).run.run outer.registry =
      (.ok handle, after) ∧
    (plain.build named.arena named.node .jsonEncode).run.run .empty = (.ok handle, fresh) ∧
    handle.answer after value ≠ handle.answer fresh value := by
  refine ⟨history, built_after, built_first, fun hsame => ?_⟩
  have hchange : handle.transform after value = handle.transform fresh value := by
    injection hsame
  have hstop := congrArg Changed.stop hchange
  rw [stop_after, stop_fresh] at hstop
  revert hstop
  decide

end UnionNames

end Typeforge
