/-
# `Typeforge.Proofs.Restoring` — a stored registry answers as the one it was taken of

An engine compiles types one after the other and enters each under a name.  Its snapshot
holds all functions of the registry, in the order of their keys, and the identities the
names stand for; its text is read as the snapshot again.  Another engine that takes it up
has the same functions in another order, and the same names, so that the handles it gives
for a name answer as those the compiling engine gave (`Engine.Calls.restored_alike`).  The
other engine has the same revivers, which no snapshot holds, and no names of its own.

The reader sets a limit to this.  Code for a type is nested several arrays and objects deep
for each part inside a part, and while a compiler goes sixty-four parts deep, the reader
goes 127 levels deep.  `Nesting.snapshot_unread` has arrays within arrays whose snapshot
nobody reads.
-/
import Typeforge.Proofs.Closure
import Typeforge.Proofs.Running.Alike
import Typeforge.Proofs.Stored.Compiled
import Typeforge.Proofs.Stored.Snapshots

namespace Typeforge

namespace Registry

variable {r : Registry} {fs : List Function}

/-- Functions with keys of their own are all registered, in their order. -/
theorem functions_defineAll (distinct : (r.keys ++ fs.map (·.key)).Nodup) :
    (r.defineAll fs).functions = r.functions ++ fs := by
  induction fs generalizing r with
  | nil => exact (List.append_nil _).symm
  | cons f fs ih =>
    rw [List.map_cons] at distinct
    have fresh : f.key ∉ r.keys := fun hmem =>
      List.disjoint_of_nodup_append distinct hmem List.mem_cons_self
    have hfunctions : (r.define f).functions = r.functions ++ [f] := by
      rw [functions_define, if_neg fresh]
    have hdistinct : ((r.define f).keys ++ fs.map (·.key)).Nodup := by
      rw [keys, hfunctions, List.map_append, List.append_assoc]
      exact distinct
    have hall : ((r.define f).defineAll fs).functions = _ := ih hdistinct
    rw [hfunctions, List.append_assoc] at hall
    exact hall

/-- A fresh registry takes up all that another has. -/
theorem perm_defineAll_sorted (r : Registry) :
    r.functions.Perm (empty.defineAll r.sorted).functions := by
  have perm : r.sorted.Perm r.functions := List.mergeSort_perm _ _
  have distinct : (r.sorted.map (·.key)).Nodup := (perm.map (·.key)).nodup_iff.mpr r.distinct
  rw [functions_defineAll (r := empty) distinct]
  exact perm.symm

end Registry

namespace Engine

/-! ## Compiling one type after the other -/

/-- What an engine comes to that compiles types, each under a name: the engine, the registry, and the
functions answered, by their names.  Others that share the registry may register functions of their own
before, after and in between, as long as these can be stored. -/
inductive Calls (e : Engine) : Engine → Registry → Members TypeFunctions → Prop where
  | start : Calls e e .empty []
  | others {e₁ : Engine} {r r' : Registry} {answers : Members TypeFunctions} (past : Calls e e₁ r answers)
      (grown : r.functions ⊆ r'.functions) (code : ∀ f ∈ r'.functions, f.body.isStorable = true) :
      Calls e e₁ r' answers
  | compileAll {e₁ e₂ : Engine} {r r' : Registry} {answers : Members TypeFunctions} {name : String}
      {a : Arena} {functions : TypeFunctions} (past : Calls e e₁ r answers) (storable : a.Storable)
      (h : (e₁.compileAll name a).run.run r = (.ok (e₂, functions), r')) :
      Calls e e₂ r' (Members.put name functions answers)

variable {e e' : Engine} {a : Arena} {r r' : Registry} {answers : Members TypeFunctions}

/-- A build of a type that can be stored adds functions that can be stored. -/
theorem storable_of_build (storable : a.Storable) {id : NodeId} {target : Target} {h : Handle}
    (code : ∀ f ∈ r.functions, f.body.isStorable = true)
    (hbuild : (e.build a id target).run.run r = (.ok h, r')) :
    (∀ f ∈ r'.functions, f.body.isStorable = true) ∧ r.keys ⊆ r'.keys ∧
      ⟨(a.node id).identity, target⟩ ∈ r'.keys := by
  obtain ⟨hle, hkey, hfunctions⟩ := registered_of_build hbuild
  obtain ⟨rfl, -⟩ := build_eq_ok hbuild
  refine ⟨fun f hf => ?_, fun key hk => ?_, hkey⟩
  · rcases hfunctions f hf with hf | ⟨start, -, hof⟩
    · exact code f hf
    · exact hof.isStorable storable
  · exact Registry.contains_iff.mp (hle key (Registry.contains_iff.mpr hk))

/-- So does compiling all functions of it, which are then there for the name. -/
theorem storable_of_compileAll (storable : a.Storable) {name : String} {functions : TypeFunctions}
    (code : ∀ f ∈ r.functions, f.body.isStorable = true)
    (h : (e.compileAll name a).run.run r = (.ok (e', functions), r')) :
    (∀ f ∈ r'.functions, f.body.isStorable = true) ∧ r.keys ⊆ r'.keys ∧
      Keyed r'.keys (a.node a.root).identity ∧
      functions = .ofIdentity (a.node a.root).identity e.revivers := by
  obtain ⟨-, r₁, r₂, r₃, r₄, h₁, h₂, h₃, h₄, h₅⟩ := compileAll_eq_ok h
  obtain ⟨code₁, le₁, key₁⟩ := storable_of_build storable code h₁
  obtain ⟨code₂, le₂, key₂⟩ := storable_of_build storable code₁ h₂
  obtain ⟨code₃, le₃, key₃⟩ := storable_of_build storable code₂ h₃
  obtain ⟨code₄, le₄, key₄⟩ := storable_of_build storable code₃ h₄
  obtain ⟨code₅, le₅, key₅⟩ := storable_of_build storable code₄ h₅
  refine ⟨code₅, fun key hkey => le₅ (le₄ (le₃ (le₂ (le₁ hkey)))), fun target => ?_, ?_⟩
  · cases target with
    | isType => exact le₅ (le₄ (le₃ (le₂ key₁)))
    | typeErrors => exact le₅ (le₄ (le₃ key₂))
    | jsonEncode => exact le₅ (le₄ key₃)
    | jsonDecode => exact le₅ key₄
    | jsonStringify => exact key₅
  · obtain ⟨isType, typeErrors, jsonEncode, jsonDecode, jsonStringify⟩ := functions
    obtain ⟨rfl, -⟩ := build_eq_ok h₁
    obtain ⟨rfl, -⟩ := build_eq_ok h₂
    obtain ⟨rfl, -⟩ := build_eq_ok h₃
    obtain ⟨rfl, -⟩ := build_eq_ok h₄
    obtain ⟨rfl, -⟩ := build_eq_ok h₅
    rfl

/-- What holds of an engine after any calls: what it has compiled can be stored, and each name that was
answered is entered with the identity of the answer, all of whose functions are registered. -/
structure Kept (e : Engine) (e' : Engine) (r : Registry) (answers : Members TypeFunctions) : Prop where
  revivers : e'.revivers = e.revivers
  code : ∀ f ∈ r.functions, f.body.isStorable = true
  names : (e'.entries.map Prod.fst).Nodup
  entered : ∀ name functions, Members.get? name answers = some functions →
    ∃ identity, Members.get? name e'.entries = some identity ∧ Keyed r.keys identity ∧
      functions = .ofIdentity identity e.revivers

/-- **Every call keeps this.** -/
theorem Kept.compileAll {e₂ : Engine} (kept : e.Kept e' r answers) (storable : a.Storable)
    {name : String} {functions : TypeFunctions}
    (h : (e'.compileAll name a).run.run r = (.ok (e₂, functions), r')) :
    e.Kept e₂ r' (Members.put name functions answers) := by
  obtain ⟨code, grown, keyed, rfl⟩ := storable_of_compileAll storable kept.code h
  obtain ⟨rfl, -⟩ := compileAll_eq_ok h
  refine ⟨kept.revivers, code, Members.nodup_put kept.names, fun other functions hother => ?_⟩
  rw [Members.get?_put] at hother
  rw [Members.get?_put]
  split at hother
  · rename_i hname
    rw [← Option.some.inj hother, if_pos hname]
    exact ⟨_, rfl, keyed, by rw [kept.revivers]⟩
  · rename_i hname
    rw [if_neg hname]
    obtain ⟨identity, hentry, hkeyed, heq⟩ := kept.entered other functions hother
    exact ⟨identity, hentry, hkeyed.mono grown, heq⟩

theorem Calls.kept (fresh : e.entries = []) (calls : e.Calls e' r answers) :
    e.Kept e' r answers := by
  induction calls with
  | start =>
    refine ⟨rfl, fun _ h => absurd h List.not_mem_nil, ?_, fun name functions h => ?_⟩
    · rw [fresh]
      exact List.nodup_nil
    · cases h
  | others _ grown code ih =>
    refine ⟨ih.revivers, code, ih.names, fun name functions h => ?_⟩
    obtain ⟨identity, hentry, keyed, heq⟩ := ih.entered name functions h
    exact ⟨identity, hentry, keyed.mono (List.map_subset _ grown), heq⟩
  | compileAll _ storable h ih => exact ih.compileAll storable h

/-! ## Storing and restoring -/

theorem Kept.storable (kept : e.Kept e' r answers) : (e'.snapshot r).Storable :=
  ⟨fun f hf => kept.code f (Registry.mem_sorted.mp hf), kept.names⟩

/-- An engine that is fresh but for its revivers gives handles for a name that are as good as the ones
that were answered. -/
theorem Kept.exists_restored (kept : e.Kept e' r answers) {other : Engine}
    (fresh : other.entries = []) (revivers : other.revivers = e.revivers) {name : String}
    {functions : TypeFunctions} (h : Members.get? name answers = some functions) :
    ∃ restored, ((other.restore (e'.snapshot r)).run .empty).1.restored
        ((other.restore (e'.snapshot r)).run .empty).2 name = .ok restored ∧
      ∀ target, (restored.get target).Alike ((other.restore (e'.snapshot r)).run .empty).2
        (functions.get target) r := by
  obtain ⟨identity, hentry, keyed, rfl⟩ := kept.entered name functions h
  have perm : r.functions.Perm (Registry.empty.defineAll r.sorted).functions := r.perm_defineAll_sorted
  have hentries : Members.putAll other.entries (e'.snapshot r).entries = e'.entries := by
    rw [fresh]
    exact Json.ofList_eq kept.names
  have hkeys (target : Target) : ⟨identity, target⟩ ∈ (Registry.empty.defineAll r.sorted).keys :=
    (perm.map (·.key)).mem_iff.mp (keyed target)
  refine ⟨.ofIdentity identity e.revivers, ?_, fun target => ?_⟩
  · change ({ other with entries := Members.putAll other.entries (e'.snapshot r).entries } :
      Engine).restored (Registry.empty.defineAll r.sorted) name = _
    rw [hentries, restored, hentry]
    dsimp only
    rw [restoredById]
    have hnone : (Target.all.map (FunctionKey.mk identity)).find?
        (fun key => !(Registry.empty.defineAll r.sorted).contains key) = none := by
      refine List.find?_eq_none.mpr fun key hkey => ?_
      obtain ⟨target, -, rfl⟩ := List.mem_map.mp hkey
      rw [Registry.contains_iff.mpr (hkeys target)]
      exact Bool.false_ne_true
    rw [hnone, revivers]
  · exact Handle.alike_of_perm perm.symm _

/-- **Snapshots survive storing.** Whatever types an engine has compiled, the text of its snapshot is
read as a snapshot again, if it is not nested deeper than the reader goes.  A fresh engine that takes it
up has functions for each name, and they give the same results as those the engine has answered with
last, on every input. -/
theorem Calls.restored_alike (calls : e.Calls e' r answers) (fresh : e.entries = [])
    (shallow : (e'.snapshot r).toJson.depth ≤ Json.depthLimit) :
    ∃ s, Snapshot.ofText (e'.snapshot r).text = .ok s ∧
      ∀ other : Engine, other.entries = [] → other.revivers = e.revivers →
        ∀ name functions, Members.get? name answers = some functions →
          ∃ restored, ((other.restore s).run .empty).1.restored ((other.restore s).run .empty).2 name =
              .ok restored ∧
            ∀ target, (restored.get target).Alike ((other.restore s).run .empty).2
              (functions.get target) r := by
  have kept := calls.kept fresh
  refine ⟨e'.snapshot r, ?_, fun other fresh revivers name functions h =>
    kept.exists_restored fresh revivers h⟩
  exact (Snapshot.restores kept.storable shallow).text_eq shallow

/-! ## Calls with a known outcome -/

/-- What compiling a type comes to, when it succeeds. -/
def outcome (e : Engine) (name : String) (a : Arena) (r : Registry) :
    (Engine × TypeFunctions) × Registry :=
  let ran := (e.compileAll name a).run.run r
  (ran.1.toOption.getD (e, .ofIdentity "" []), ran.2)

theorem compileAll_eq_outcome {name : String}
    (h : ((e.compileAll name a).run.run r).1.isOk = true) :
    (e.compileAll name a).run.run r = (.ok (e.outcome name a r).1, (e.outcome name a r).2) :=
  Prod.ext (Except.eq_ok_getD h _) rfl

/-- The snapshot of a registry that was filled in the order of keys. -/
theorem snapshot_eq (h : r.functions.Pairwise fun f g => Registry.keyLe f.key g.key = true) :
    e.snapshot r = ⟨r.functions, e.entries⟩ := by
  rw [snapshot, Snapshot.ofRegistry, Registry.sorted, List.mergeSort_of_pairwise h]

end Engine

namespace Sightings

/-- Points that were seen at some time, and lists of them. -/
def graph : TypeGraph where
  nodes := #[
    ⟨.classType "Point" [⟨1⟩, ⟨2⟩], none⟩,
    ⟨.property "x" ⟨3⟩ false false, none⟩,
    ⟨.property "seen" ⟨4⟩ true false, none⟩,
    ⟨.number, none⟩, ⟨.classType "Date" [], none⟩, ⟨.array ⟨0⟩, none⟩]
  roots := [("Point", ⟨0⟩), ("Points", ⟨5⟩)]

def engine : Engine := { revivers := [("Point", id)] }

def point : Sample := { graph, engine }

def points : Sample := { graph, root := ⟨5⟩, engine }

def first : (Engine × TypeFunctions) × Registry := engine.outcome "Points" points.arena .empty

def second : (Engine × TypeFunctions) × Registry := first.1.1.outcome "Point" point.arena first.2

/-- What is computed here: both types can be stored and are compiled, and the snapshot is not too deep. -/
theorem computed :
    (∀ id ∈ points.arena.ids, (points.arena.node id).shape.isStorable = true) ∧
    (∀ id ∈ point.arena.ids, (point.arena.node id).shape.isStorable = true) ∧
    ((engine.compileAll "Points" points.arena).run.run .empty).1.isOk = true ∧
    ((first.1.1.compileAll "Point" point.arena).run.run first.2).1.isOk = true ∧
    second.2.functions.Pairwise (fun f g => Registry.keyLe f.key g.key = true) ∧
    (Snapshot.mk second.2.functions second.1.1.entries).toJson.depth ≤ Json.depthLimit := by
  decide +kernel

theorem points_restored : ∃ s, Snapshot.ofText (second.1.1.snapshot second.2).text = .ok s ∧
    ∃ restored, ((engine.restore s).run .empty).1.restored ((engine.restore s).run .empty).2 "Points" =
        .ok restored ∧
      ∀ target, (restored.get target).Alike ((engine.restore s).run .empty).2
        (first.1.2.get target) second.2 := by
  obtain ⟨storable, storable', compiles, compiles', sorted, shallow⟩ := computed
  have calls : engine.Calls first.1.1 first.2 (Members.put "Points" first.1.2 []) :=
    .compileAll .start (Arena.forall_node (P := fun n => n.shape.isStorable = true) storable rfl)
      (Engine.compileAll_eq_outcome compiles)
  have calls' : engine.Calls second.1.1 second.2
      (Members.put "Point" second.1.2 (Members.put "Points" first.1.2 [])) :=
    .compileAll calls (Arena.forall_node (P := fun n => n.shape.isStorable = true) storable' rfl)
      (Engine.compileAll_eq_outcome compiles')
  have hdepth : (second.1.1.snapshot second.2).toJson.depth ≤ Json.depthLimit := by
    rw [Engine.snapshot_eq sorted]
    exact shallow
  obtain ⟨s, hs, restores⟩ := Engine.Calls.restored_alike calls' rfl hdepth
  refine ⟨s, hs, restores engine rfl rfl "Points" first.1.2 ?_⟩
  rw [Members.get?_put, if_neg (by decide), Members.get?_put, if_pos rfl]

end Sightings

/-! ## Arrays within arrays -/

namespace Nesting

/-- Twenty arrays, one the item of the other. -/
def sample : Sample where
  graph := {
    nodes := ((List.range 20).map fun i => ⟨.array ⟨i + 1⟩, none⟩).toArray.push ⟨.string, none⟩
    roots := [("Root", ⟨0⟩)] }

def built : (Engine × TypeFunctions) × Registry := sample.engine.outcome "Root" sample.arena .empty

/-- What is computed here: the type is loaded and compiled, and can be stored, but what a reader finds
in the text of the snapshot is none. -/
theorem computed : sample.loads = true ∧
    (∀ id ∈ sample.arena.ids, (sample.arena.node id).shape.isStorable = true) ∧
    ((sample.engine.compileAll "Root" sample.arena).run.run .empty).1.isOk = true ∧
    built.2.functions.Pairwise (fun f g => Registry.keyLe f.key g.key = true) ∧
    (Snapshot.mk built.2.functions built.1.1.entries).toJson.isPrintable = true ∧
    (Snapshot.decode ⟨.cut Json.depthLimit
      (.ofJson (Snapshot.mk built.2.functions built.1.1.entries).toJson), false⟩).isOk = false := by
  decide +kernel

/-- An sample.engine with the default settings compiles the type, which has no literals at all, and nobody can
read the text of its snapshot. -/
theorem snapshot_unread : sample.engine.loadNamed sample.graph "Root" = .ok sample.arena ∧ sample.arena.Storable ∧
    (sample.engine.compileAll "Root" sample.arena).run.run .empty = (.ok built.1, built.2) ∧
    ∀ s, Snapshot.ofText (built.1.1.snapshot built.2).text ≠ .ok s := by
  obtain ⟨loads, storable, compiles, sorted, printable, fails⟩ := computed
  refine ⟨Sample.loaded loads,
    Arena.forall_node (P := fun n => n.shape.isStorable = true) storable rfl,
    Engine.compileAll_eq_outcome compiles, fun s => ?_⟩
  rw [Engine.snapshot_eq sorted]
  exact Decode.text_ne_ok printable fails s

end Nesting

end Typeforge
