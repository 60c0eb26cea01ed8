/-
# `Typeforge.Proofs.Closure` — registries are closed under calls, whoever fills them

Engines work at the same time, and some of them share a registry.  A build asks
its registry about functions while it compiles, and between two of its questions
others may register theirs; what it has compiled is registered all at once in the
end, or is lost if the build fails.  A restore takes up the entries of a snapshot
first and registers its functions later.

A `World` holds the registries and engines together with all that is on its way,
and `World.Step` is the smallest thing that can be observed to happen in it.  The
order of steps is not restricted: builds that race for a key, that fail halfway
through, or that overtake one another are all runs of the relation.  What every
step keeps is `World.Sound` (`Sound.step`, `Sound.run`); that registries are closed
under calls, that entries have their functions and that handles never miss one is
read off from there in `World.Run.closed_under_calls`.

Entries have their functions with one exception.  A snapshot may be taken of an engine
between the two halves of a restore, and then has entries without functions; so has
every engine that restores it.  The exception is needed: `Handover.entry_without_functions`
is a run of three engines that comes to one.
-/
import Mathlib.Logic.Function.Basic
import Mathlib.Logic.Relation
import Typeforge.Proofs.Answers
import Typeforge.Proofs.Members
import Typeforge.Proofs.Running.Found
import Typeforge.Proofs.Sharing

namespace Typeforge

/-! ## Entries and registered functions -/

theorem Target.mem_all (t : Target) : t ∈ all := by cases t <;> decide

/-- The functions of an identity for all targets have keys among the given ones. -/
def Keyed (keys : List FunctionKey) (identity : String) : Prop :=
  ∀ target, ⟨identity, target⟩ ∈ keys

theorem Keyed.mono {keys others : List FunctionKey} {identity : String} (h : keys ⊆ others) :
    Keyed keys identity → Keyed others identity := fun hkeyed target => h (hkeyed target)

namespace Registry

variable {r : Registry} {fs : List Function} {key : FunctionKey} {f : Function}

/-- Registering functions that call only one another, or what is registered already, keeps a
registry closed. -/
theorem closed_defineAll (closed : ClosedFunctions r.functions)
    (calls : ∀ f ∈ fs, Keys.Cover (· ∈ (r.defineAll fs).keys) f.calls)
    (targets : ∀ f ∈ fs, f.body.target = f.key.target) :
    ClosedFunctions (r.defineAll fs).functions where
  calls f hf := by
    rcases mem_defineAll hf with hf | hf
    · exact fun key hkey => keys_subset_defineAll (closed.calls f hf key hkey)
    · exact calls f hf
  targets f hf := (mem_defineAll hf).elim (closed.targets f) (targets f)

theorem mem_sorted : f ∈ r.sorted ↔ f ∈ r.functions := List.mem_mergeSort

theorem mem_map_key_sorted : key ∈ r.sorted.map (·.key) ↔ key ∈ r.keys := by
  simp only [keys, List.mem_map, mem_sorted]

theorem closed_sorted (closed : ClosedFunctions r.functions) : ClosedFunctions r.sorted where
  calls f hf key hkey := mem_map_key_sorted.mpr (closed.calls f (mem_sorted.mp hf) key hkey)
  targets f hf := closed.targets f (mem_sorted.mp hf)

end Registry

/-! ## Worlds -/

/-- A build on its way: of a function, or of all functions of a root that is to be entered. -/
structure Construction where
  engine : Nat
  arena : Arena
  node : NodeId
  /-- The targets still to be built for; the first is being compiled. -/
  targets : List Target
  /-- The name the node is entered under in the end. -/
  name : Option String
  /-- What the registry was at each question asked so far for this target. -/
  seen : List Registry := []

/-- The identity of the node a build is for. -/
def Construction.identity (c : Construction) : String := (c.arena.node c.node).identity

/-- What a build rests on: each question is answered from the registry as it was when asked, and
those still to come from the registry as it is. -/
def Construction.setting (c : Construction) (e : Engine) (r : Registry) : Setting :=
  { e.setting r c.arena with registered := fun question => (c.seen.getD question r).contains }

/-- A snapshot, and the registry its functions are of. -/
structure Taken where
  source : Nat
  snapshot : Snapshot
  /-- What its engine was restoring when the entries were read. -/
  amid : List Snapshot

/-- A restore on its way: the entries are taken up, the functions are still to be registered. -/
structure Restoration extends Taken where
  engine : Nat

/-- The entries of an engine as they were read for a snapshot; its functions are read later. -/
structure Draft where
  engine : Nat
  entries : Members String
  /-- What the engine was restoring. -/
  amid : List Snapshot

structure World where
  registry : Nat → Registry
  engine : Nat → Engine
  constructions : List Construction
  restorations : List Restoration
  drafts : List Draft
  /-- The snapshots that have been taken so far. -/
  snapshots : List Taken
  /-- The handles that builds have answered with, by the registry. -/
  handles : List (Nat × Handle)

namespace World

/-- Nothing has happened yet. The settings and revivers of engines may differ. -/
structure Fresh (w : World) : Prop where
  registry : ∀ k, w.registry k = .empty
  entries : ∀ i, (w.engine i).entries = []
  constructions : w.constructions = []
  restorations : w.restorations = []
  drafts : w.drafts = []
  snapshots : w.snapshots = []
  handles : w.handles = []

/-- Registers functions. -/
def register (w : World) (k : Nat) (fs : List Function) : World :=
  { w with registry := Function.update w.registry k ((w.registry k).defineAll fs) }

/-- Changes the entries of an engine. -/
def enter (w : World) (i : Nat) (entries : Members String) : World :=
  { w with engine := Function.update w.engine i { w.engine i with entries } }

section Updates

variable (w : World)

theorem registry_register (k : Nat) (fs : List Function) :
    (w.register k fs).registry k = (w.registry k).defineAll fs := Function.update_self ..

theorem registry_register_of_ne {j k : Nat} (h : j ≠ k) (fs : List Function) :
    (w.register k fs).registry j = w.registry j := Function.update_of_ne h ..

theorem entries_enter (i : Nat) (entries : Members String) :
    ((w.enter i entries).engine i).entries = entries := by
  simp only [enter, Function.update_self]

theorem entries_enter_of_ne {i j : Nat} (h : j ≠ i) (entries : Members String) :
    ((w.enter i entries).engine j).entries = (w.engine j).entries := by
  simp only [enter, Function.update_of_ne h]

end Updates

section Steps

variable (home : Nat → Nat)

/-- What an engine is restoring, of another registry than its own. -/
def restoring (w : World) (i : Nat) : List Snapshot :=
  (w.restorations.filter fun x => x.engine = i ∧ x.source ≠ home i).map (·.snapshot)

/-- No restore is in progress in an engine, of a snapshot of another registry than its own. -/
def Settled (w : World) (i : Nat) : Prop := w.restoring home i = []

/-- What can happen next. An engine `i` builds into the registry `home i`. -/
inductive Step (w : World) : World → Prop where
  /-- The build of a function begins. -/
  | build (i : Nat) (a : Arena) (id : NodeId) (target : Target) :
      Step w { w with constructions := ⟨i, a, id, [target], none, []⟩ :: w.constructions }
  /-- The build of all functions of a root begins, that is to be entered under a name. -/
  | compileAll (i : Nat) (name : String) (a : Arena) :
      Step w { w with
        constructions := ⟨i, a, a.root, Target.all, some name, []⟩ :: w.constructions }
  /-- A build asks its registry about a function. -/
  | ask {before c after} (h : w.constructions = before ++ c :: after) :
      Step w { w with
        constructions :=
          before ++ { c with seen := c.seen ++ [w.registry (home c.engine)] } :: after }
  /-- A build has compiled what its target needs, and registers it. -/
  | define {before c after target targets fs} (h : w.constructions = before ++ c :: after)
      (htargets : c.targets = target :: targets)
      (hfs : Compile.functions (c.setting (w.engine c.engine) (w.registry (home c.engine)))
        c.node target = .ok fs) :
      Step w { w.register (home c.engine) fs with
        constructions := before ++ { c with targets, seen := [] } :: after
        handles := (home c.engine, ⟨⟨c.identity, target⟩, (w.engine c.engine).revivers⟩) ::
          w.handles }
  /-- A build ends. It may have failed, at any point; what it has registered stays. -/
  | leave {before c after} (h : w.constructions = before ++ c :: after) :
      Step w { w with constructions := before ++ after }
  /-- All functions of a root are built, and it is entered. -/
  | record {before c after name} (h : w.constructions = before ++ c :: after)
      (htargets : c.targets = []) (hname : c.name = some name) :
      Step w { w.enter c.engine (Members.put name c.identity (w.engine c.engine).entries) with
        constructions := before ++ after }
  /-- The entries of an engine are read for a snapshot, whatever it is restoring. -/
  | draft (i : Nat) :
      Step w { w with drafts := ⟨i, (w.engine i).entries, w.restoring home i⟩ :: w.drafts }
  /-- The functions for a snapshot are read. -/
  | snapshot (d : Draft) (h : d ∈ w.drafts) :
      Step w { w with
        snapshots := ⟨home d.engine, .ofRegistry (w.registry (home d.engine)) d.entries, d.amid⟩ ::
          w.snapshots }
  /-- A restore takes up the entries of a snapshot, of whichever engine. -/
  | restore (i : Nat) {x} (h : x ∈ w.snapshots) :
      Step w { w.enter i (Members.putAll (w.engine i).entries x.snapshot.entries) with
        restorations := ⟨x, i⟩ :: w.restorations }
  /-- A restore registers the functions. -/
  | settle {before x after} (h : w.restorations = before ++ x :: after) :
      Step w { w.register (home x.engine) x.snapshot.functions with
        restorations := before ++ after }

/-- Any number of steps. -/
abbrev Run : World → World → Prop := Relation.ReflTransGen (Step home)

end Steps

/-! ## What steps keep -/

section Sound

variable {home : Nat → Nat}

/-- What registries have, others have as well. -/
def Grown (r r' : Nat → Registry) : Prop := ∀ k, (r k).keys ⊆ (r' k).keys

theorem grown_register (w : World) (k : Nat) (fs : List Function) :
    Grown w.registry (w.register k fs).registry := by
  intro j
  by_cases hj : j = k
  · subst hj
    rw [registry_register]
    exact Registry.keys_subset_defineAll
  · rw [registry_register_of_ne w hj]
    exact List.Subset.refl _

end Sound

end World

/-- What a build has seen is still there, and an entry is made of built functions only. -/
structure Construction.Sound (r : Registry) (c : Construction) : Prop where
  seen : ∀ s ∈ c.seen, s.keys ⊆ r.keys
  built : c.name.isSome → ∀ target, target ∉ c.targets → ⟨c.identity, target⟩ ∈ r.keys

theorem Construction.Sound.mono {r r' : Registry} {c : Construction} (h : r.keys ⊆ r'.keys)
    (sound : c.Sound r) : c.Sound r' where
  seen s hs := List.Subset.trans (sound.seen s hs) h
  built hname target htarget := h (sound.built hname target htarget)

/-- Whether a snapshot has an entry without all of its functions, because it was taken in the middle
of a restore. -/
structure Taken.Lacks (x : Taken) (e : String × String) : Prop where
  amid : x.amid ≠ []
  entry : e ∈ x.snapshot.entries
  functions : ¬Keyed (x.snapshot.functions.map (·.key)) e.2

/-- An entry that some snapshot has without its functions. -/
def World.Orphaned (w : World) (e : String × String) : Prop := ∃ x ∈ w.snapshots, x.Lacks e

/-- A snapshot that is closed under calls, has the functions of its entries as far as they are not
lost, and is of functions that its source has. -/
structure Taken.Sound (r : Nat → Registry) (lost : String × String → Prop) (x : Taken) : Prop where
  closed : ClosedFunctions x.snapshot.functions
  entries : ∀ e ∈ x.snapshot.entries, Keyed (x.snapshot.functions.map (·.key)) e.2 ∨ lost e
  known : x.snapshot.functions.map (·.key) ⊆ (r x.source).keys

theorem Taken.Sound.mono {r r' : Nat → Registry} {lost lost' : String × String → Prop} {x : Taken}
    (h : World.Grown r r') (hlost : ∀ e, lost e → lost' e) (sound : x.Sound r lost) :
    x.Sound r' lost' where
  closed := sound.closed
  entries e he := (sound.entries e he).imp_right (hlost e)
  known := List.Subset.trans sound.known (h x.source)

namespace World

variable {home : Nat → Nat}

/-- The functions of an identity are registered for an engine, or a restore is about to register
them. -/
def Backed (home : Nat → Nat) (w : World) (i : Nat) (identity : String) : Prop :=
  Keyed (w.registry (home i)).keys identity ∨
    ∃ x ∈ w.restorations, x.engine = i ∧ x.source ≠ home i ∧
      Keyed (x.snapshot.functions.map (·.key)) identity

/-- What holds of a world at any time. -/
structure Sound (home : Nat → Nat) (w : World) : Prop where
  closed : ∀ k, ClosedFunctions (w.registry k).functions
  constructions : ∀ c ∈ w.constructions, c.Sound (w.registry (home c.engine))
  restorations : ∀ x ∈ w.restorations, x.toTaken.Sound w.registry w.Orphaned
  drafts : ∀ d ∈ w.drafts, d.amid = [] → ∀ e ∈ d.entries,
    Keyed (w.registry (home d.engine)).keys e.2 ∨ w.Orphaned e
  snapshots : ∀ x ∈ w.snapshots, x.Sound w.registry w.Orphaned
  handles : ∀ x ∈ w.handles, x.2.key ∈ (w.registry x.1).keys
  entries : ∀ i, ∀ e ∈ (w.engine i).entries, w.Backed home i e.2 ∨ w.Orphaned e

variable {w w' : World}

theorem Fresh.sound (fresh : w.Fresh) : w.Sound home where
  closed k := by
    rw [fresh.registry]
    exact ⟨fun _ h => absurd h List.not_mem_nil, fun _ h => absurd h List.not_mem_nil⟩
  constructions c hc := by simp [fresh.constructions] at hc
  restorations x hx := by simp [fresh.restorations] at hx
  drafts x hx := by simp [fresh.drafts] at hx
  snapshots x hx := by simp [fresh.snapshots] at hx
  handles x hx := by simp [fresh.handles] at hx
  entries i e he := by simp [fresh.entries] at he

/-- The entries of a settled engine have their functions, or were lost to some snapshot. -/
theorem Sound.keyed_of_settled (sound : w.Sound home) {i : Nat} (settled : w.Settled home i) :
    ∀ e ∈ (w.engine i).entries, Keyed (w.registry (home i)).keys e.2 ∨ w.Orphaned e := by
  intro e he
  refine (sound.entries i e he).imp_left ?_
  rintro (h | ⟨x, hx, hi, hforeign, -⟩)
  · exact h
  · have hmem : x ∈ w.restorations.filter fun x => x.engine = i ∧ x.source ≠ home i :=
      List.mem_filter.mpr ⟨hx, decide_eq_true ⟨hi, hforeign⟩⟩
    rw [List.map_eq_nil_iff.mp settled] at hmem
    exact absurd hmem List.not_mem_nil

/-- Registering functions that keep the registry closed breaks nothing. -/
theorem Sound.register (sound : w.Sound home) {k : Nat} {fs : List Function}
    (closed : ClosedFunctions ((w.registry k).defineAll fs).functions) :
    (w.register k fs).Sound home := by
  have grown := grown_register w k fs
  exact {
    closed := fun j => by
      by_cases hj : j = k
      · subst hj
        rwa [registry_register]
      · rw [registry_register_of_ne w hj]
        exact sound.closed j
    constructions := fun c hc => (sound.constructions c hc).mono (grown _)
    restorations := fun x hx => (sound.restorations x hx).mono grown fun _ => id
    drafts := fun d hd settled e he => (sound.drafts d hd settled e he).imp_left (Keyed.mono (grown _))
    snapshots := fun x hx => (sound.snapshots x hx).mono grown fun _ => id
    handles := fun x hx => grown _ (sound.handles x hx)
    entries := fun i e he =>
      (sound.entries i e he).imp_left fun h => h.imp_left (Keyed.mono (grown _)) }

/-- So does another list of builds that are each in order. -/
theorem Sound.withConstructions (sound : w.Sound home) {cs : List Construction}
    (hcs : ∀ c ∈ cs, c.Sound (w.registry (home c.engine))) :
    { w with constructions := cs }.Sound home :=
  { sound with constructions := hcs }

/-- So does a restore of a snapshot that is in order. -/
theorem Sound.withRestoration (sound : w.Sound home) {x : Restoration}
    (hx : x.toTaken.Sound w.registry w.Orphaned) :
    { w with restorations := x :: w.restorations }.Sound home :=
  { sound with
    restorations := List.forall_mem_cons.mpr ⟨hx, sound.restorations⟩
    entries := fun i e he => (sound.entries i e he).imp_left fun h => h.imp_right
      fun ⟨y, hy, hpending⟩ => ⟨y, List.mem_cons_of_mem x hy, hpending⟩ }

/-- So does a snapshot that is in order, its own losses counted. -/
theorem Sound.withSnapshot (sound : w.Sound home) {x : Taken}
    (hx : x.Sound w.registry { w with snapshots := x :: w.snapshots }.Orphaned) :
    { w with snapshots := x :: w.snapshots }.Sound home := by
  have lost (e : String × String) : w.Orphaned e → { w with snapshots := x :: w.snapshots }.Orphaned e :=
    fun ⟨y, hy, lacks⟩ => ⟨y, List.mem_cons_of_mem x hy, lacks⟩
  have same : Grown w.registry w.registry := fun _ => List.Subset.refl _
  exact { sound with
    restorations := fun y hy => (sound.restorations y hy).mono same lost
    drafts := fun d hd settled e he => (sound.drafts d hd settled e he).imp_right (lost e)
    snapshots := List.forall_mem_cons.mpr ⟨hx, fun y hy => (sound.snapshots y hy).mono same lost⟩
    entries := fun i e he => (sound.entries i e he).imp_right (lost e) }

/-- Entries that have their functions may be made at any time, and lost ones are handed on. -/
theorem Sound.enter (sound : w.Sound home) {i : Nat} {entries : Members String}
    (h : ∀ e ∈ entries, e ∈ (w.engine i).entries ∨ w.Backed home i e.2 ∨ w.Orphaned e) :
    (w.enter i entries).Sound home :=
  { sound with
    entries := fun j e he => by
      by_cases hj : j = i
      · subst hj
        rw [entries_enter] at he
        exact (h e he).elim (sound.entries j e) id
      · rw [entries_enter_of_ne w hj] at he
        exact sound.entries j e he }

/-- What a build compiles may be registered: it calls what it defines itself, or has seen. -/
theorem Sound.closed_of_functions (sound : w.Sound home) {c : Construction}
    (hc : c.Sound (w.registry (home c.engine))) {target : Target} {fs : List Function}
    (hfs : Compile.functions (c.setting (w.engine c.engine) (w.registry (home c.engine)))
      c.node target = .ok fs) :
    ClosedFunctions ((w.registry (home c.engine)).defineAll fs).functions ∧
      ⟨c.identity, target⟩ ∈ ((w.registry (home c.engine)).defineAll fs).keys := by
  obtain ⟨hknown, hof⟩ := Compile.functions_sound hfs
  have hle : Compile.known (c.setting (w.engine c.engine) (w.registry (home c.engine))) fs ≤
      (· ∈ ((w.registry (home c.engine)).defineAll fs).keys) := by
    rintro key (hkey | ⟨question, hkey⟩)
    · exact Registry.mem_keys_defineAll.mpr (.inr hkey)
    · refine Registry.keys_subset_defineAll ?_
      have hkey : key ∈ (c.seen.getD question (w.registry (home c.engine))).keys :=
        Registry.contains_iff.mp hkey
      rw [List.getD_eq_getElem?_getD] at hkey
      cases hseen : c.seen[question]? with
      | none => rwa [hseen] at hkey
      | some s =>
        rw [hseen] at hkey
        exact hc.seen s (List.mem_of_getElem? hseen) hkey
  refine ⟨Registry.closed_defineAll (sound.closed _) (fun f hf => ?_) fun f hf => ?_, hle _ hknown⟩
  · obtain ⟨id, -, hof⟩ := hof f hf
    exact (Compile.FunctionOf.mono _ id f hle hof).cover_calls
  · obtain ⟨id, -, hof⟩ := hof f hf
    exact hof.target_eq

section Splits

variable {α : Type} {P : α → Prop} {xs before after : List α} {x : α}

theorem forall_of_split (h : xs = before ++ x :: after) (hxs : ∀ y ∈ xs, P y) :
    P x ∧ ∀ y ∈ before ++ after, P y := by
  subst h
  refine ⟨hxs x (by simp), fun y hy => hxs y ?_⟩
  rcases List.mem_append.mp hy with hy | hy
  · exact List.mem_append_left _ hy
  · exact List.mem_append_right _ (List.mem_cons_of_mem x hy)

theorem forall_insert (hx : P x) (h : ∀ y ∈ before ++ after, P y) :
    ∀ y ∈ before ++ x :: after, P y := by
  intro y hy
  rcases List.mem_append.mp hy with hy | hy
  · exact h y (List.mem_append_left _ hy)
  · rcases List.mem_cons.mp hy with rfl | hy
    · exact hx
    · exact h y (List.mem_append_right _ hy)

end Splits

/-- **What holds of a world holds after any step.** -/
theorem Sound.step (sound : w.Sound home) (step : w.Step home w') : w'.Sound home := by
  cases step with
  | build i a id target =>
    refine sound.withConstructions (List.forall_mem_cons.mpr ⟨?_, sound.constructions⟩)
    exact ⟨fun _ h => absurd h List.not_mem_nil, nofun⟩
  | compileAll i name a =>
    refine sound.withConstructions (List.forall_mem_cons.mpr ⟨?_, sound.constructions⟩)
    exact ⟨fun _ h => absurd h List.not_mem_nil, fun _ target h => absurd target.mem_all h⟩
  | ask h =>
    obtain ⟨hc, others⟩ := forall_of_split h sound.constructions
    refine sound.withConstructions (forall_insert ⟨fun s hs => ?_, hc.built⟩ others)
    rcases List.mem_append.mp hs with hs | hs
    · exact hc.seen s hs
    · rw [List.mem_singleton.mp hs]
      exact List.Subset.refl _
  | @define before c after target targets fs h htargets hfs =>
    obtain ⟨hc, -⟩ := forall_of_split h sound.constructions
    obtain ⟨closed, hkey⟩ := sound.closed_of_functions hc hfs
    have registered := sound.register closed
    obtain ⟨hc, others⟩ := forall_of_split h registered.constructions
    have hkey : ⟨c.identity, target⟩ ∈
        ((w.register (home c.engine) fs).registry (home c.engine)).keys := by
      rwa [registry_register]
    refine { registered.withConstructions (forall_insert ⟨fun _ h => ?_, fun hname t ht => ?_⟩
      others) with handles := List.forall_mem_cons.mpr ⟨hkey, registered.handles⟩ }
    · exact absurd h List.not_mem_nil
    · by_cases htarget : t = target
      · exact htarget ▸ hkey
      · refine hc.built hname t ?_
        rw [htargets]
        exact List.not_mem_cons_of_ne_of_not_mem htarget ht
  | leave h =>
    exact sound.withConstructions (forall_of_split h sound.constructions).2
  | @record before c after name h htargets hname =>
    obtain ⟨hc, others⟩ := forall_of_split h sound.constructions
    refine Sound.withConstructions (w := w.enter _ _) (sound.enter fun e he => ?_) others
    refine (Members.mem_put he).symm.imp_right ?_
    rintro rfl
    refine .inl (.inl fun target => ?_)
    refine hc.built (by rw [hname]; rfl) target ?_
    rw [htargets]
    exact List.not_mem_nil
  | draft i =>
    exact { sound with
      drafts := List.forall_mem_cons.mpr ⟨sound.keyed_of_settled, sound.drafts⟩ }
  | snapshot d h =>
    refine sound.withSnapshot ⟨Registry.closed_sorted (sound.closed _), fun e he => ?_,
      fun key hkey => Registry.mem_map_key_sorted.mp hkey⟩
    by_cases hkeyed : Keyed ((w.registry (home d.engine)).sorted.map (·.key)) e.2
    · exact .inl hkeyed
    -- the functions are missing: they were lost before, or are lost here
    refine .inr ?_
    by_cases settled : d.amid = []
    · rcases sound.drafts d h settled e he with hkeys | ⟨x, hx, lacks⟩
      · exact absurd (hkeys.mono fun _ => Registry.mem_map_key_sorted.mpr) hkeyed
      · exact ⟨x, List.mem_cons_of_mem _ hx, lacks⟩
    · exact ⟨_, List.mem_cons_self, settled, he, hkeyed⟩
  | @restore i x h =>
    have hx := sound.snapshots x h
    refine (sound.withRestoration (x := ⟨x, i⟩) hx).enter fun e he => ?_
    refine (Members.mem_putAll he).symm.imp_right fun he => (hx.entries e he).imp_left fun hkeyed => ?_
    by_cases hsource : x.source = home i
    · exact .inl (Keyed.mono (hsource ▸ hx.known) hkeyed)
    · exact .inr ⟨⟨x, i⟩, List.mem_cons_self, rfl, hsource, hkeyed⟩
  | @settle before x after h =>
    obtain ⟨hx, -⟩ := forall_of_split h sound.restorations
    have closed : ClosedFunctions
        ((w.registry (home x.engine)).defineAll x.snapshot.functions).functions :=
      Registry.closed_defineAll (sound.closed _)
        (fun f hf key hkey => Registry.mem_keys_defineAll.mpr (.inr (hx.closed.calls f hf key hkey)))
        hx.closed.targets
    have registered := sound.register closed
    refine { registered with
      restorations := (forall_of_split h registered.restorations).2
      entries := fun i e he => ?_ }
    refine (registered.entries i e he).imp_left ?_
    rintro (hkeyed | ⟨y, hy, hi, hforeign, hkeyed⟩)
    · exact .inl hkeyed
    · have hy : y ∈ before ++ x :: after := h ▸ hy
      rcases List.mem_append.mp hy with hy | hy
      · exact .inr ⟨y, List.mem_append_left _ hy, hi, hforeign, hkeyed⟩
      rcases List.mem_cons.mp hy with rfl | hy
      · refine .inl (Keyed.mono (fun key hkey => ?_) hkeyed)
        rw [← hi, registry_register]
        exact Registry.mem_keys_defineAll.mpr (.inr hkey)
      · exact .inr ⟨y, List.mem_append_right _ hy, hi, hforeign, hkeyed⟩

theorem Sound.run (sound : w.Sound home) (run : Run home w w') : w'.Sound home := by
  induction run with
  | refl => exact sound
  | tail _ step ih => exact ih.step step

/-- No step changes a registered function, or takes back a handle. -/
theorem Step.keeps (step : w.Step home w') :
    (∀ k key f, (w.registry k).get? key = some f → (w'.registry k).get? key = some f) ∧
      w.handles ⊆ w'.handles := by
  have kept : ∀ (k : Nat) (fs : List Function) (j : Nat) (key : FunctionKey) (f : Function),
      (w.registry j).get? key = some f → ((w.register k fs).registry j).get? key = some f := by
    intro k fs j key f h
    by_cases hj : j = k
    · subst hj
      rw [registry_register]
      exact Registry.get?_defineAll h
    · rwa [registry_register_of_ne w hj]
  cases step with
  | define => exact ⟨kept _ _, List.subset_cons_self _ _⟩
  | settle => exact ⟨kept _ _, List.Subset.refl _⟩
  | _ => exact ⟨fun _ _ _ h => h, List.Subset.refl _⟩

theorem Run.keeps (run : Run home w w') :
    (∀ k key f, (w.registry k).get? key = some f → (w'.registry k).get? key = some f) ∧
      w.handles ⊆ w'.handles := by
  induction run with
  | refl => exact ⟨fun _ _ _ h => h, List.Subset.refl _⟩
  | tail _ step ih =>
    obtain ⟨functions, handles⟩ := step.keeps
    exact ⟨fun k key f h => functions k key f (ih.1 k key f h), List.Subset.trans ih.2 handles⟩

end World

/-! ## Engines on their own

What an engine does when nothing comes in between is a run.
-/

namespace Engine

variable {e : Engine} {r r' : Registry}

/-- Compiling all functions of a root is building one after the other, and entering the root. -/
theorem compileAll_eq_ok {a : Arena} {name : String} {e' : Engine} {f : TypeFunctions}
    (h : (e.compileAll name a).run.run r = (.ok (e', f), r')) :
    e' = { e with entries := Members.put name (a.node a.root).identity e.entries } ∧
    ∃ r₁ r₂ r₃ r₄, (e.build a a.root .isType).run.run r = (.ok f.isType, r₁) ∧
      (e.build a a.root .typeErrors).run.run r₁ = (.ok f.typeErrors, r₂) ∧
      (e.build a a.root .jsonEncode).run.run r₂ = (.ok f.jsonEncode, r₃) ∧
      (e.build a a.root .jsonDecode).run.run r₃ = (.ok f.jsonDecode, r₄) ∧
      (e.build a a.root .jsonStringify).run.run r₄ = (.ok f.jsonStringify, r') := by
  obtain ⟨_, r₅, hall, hdone⟩ := Registering.run_bind_eq_ok.mp h
  obtain ⟨r₁, r₂, r₃, r₄, h₁, h₂, h₃, h₄, h₅⟩ := buildAll_eq_ok hall
  cases hdone
  have hidentity : f.identity = (a.node a.root).identity := by
    rw [TypeFunctions.identity, (build_eq_ok h₁).1]
  exact ⟨by rw [hidentity], r₁, r₂, r₃, r₄, h₁, h₂, h₃, h₄, h₅⟩

end Engine

namespace World

variable {home : Nat → Nat} {w : World}

/-- The world while a build goes on that has come to a registry and some handles. -/
def during (home : Nat → Nat) (w : World) (c : Construction) (r : Registry)
    (handles : List Handle) : World :=
  { w with
    registry := Function.update w.registry (home c.engine) r
    constructions := c :: w.constructions
    handles := handles.map (home c.engine, ·) ++ w.handles }

/-- The world once the build has ended. -/
def done (home : Nat → Nat) (w : World) (i : Nat) (r : Registry) (handles : List Handle) : World :=
  { w with
    registry := Function.update w.registry (home i) r
    handles := handles.map (home i, ·) ++ w.handles }

theorem during_start (c : Construction) :
    w.during home c (w.registry (home c.engine)) [] =
      { w with constructions := c :: w.constructions } := by
  rw [during, Function.update_eq_self]
  rfl

/-- Building for the next target is a step. -/
theorem Step.of_build {i : Nat} {a : Arena} {id : NodeId} {name : Option String} {target : Target}
    {targets : List Target} {handles : List Handle} {h : Handle} {r r' : Registry}
    (hbuild : ((w.engine i).build a id target).run.run r = (.ok h, r')) :
    Step home (w.during home ⟨i, a, id, target :: targets, name, []⟩ r handles)
      (w.during home ⟨i, a, id, targets, name, []⟩ r' (h :: handles)) := by
  obtain ⟨rfl, fs, hfs, rfl⟩ := Engine.build_eq_ok hbuild
  have hregistry : (w.during home ⟨i, a, id, target :: targets, name, []⟩ r handles).registry
      (home i) = r := Function.update_self ..
  have step := @Step.define home (w.during home ⟨i, a, id, target :: targets, name, []⟩ r handles)
    [] _ _ _ _ fs rfl rfl
  simp only [hregistry, register] at step
  have step := step hfs
  simp only [during, Function.update_idem] at step
  exact step

/-- Building a function is a run. -/
theorem Run.of_build {i : Nat} {a : Arena} {id : NodeId} {target : Target} {h : Handle}
    {r : Registry} (hbuild : ((w.engine i).build a id target).run.run (w.registry (home i)) =
      (.ok h, r)) : Run home w (w.done home i r [h]) := by
  have begun : w.Step home _ := .build i a id target
  rw [← during_start] at begun
  have built := (Relation.ReflTransGen.single begun).tail (.of_build hbuild)
  have left := @Step.leave home (w.during home ⟨i, a, id, [], none, []⟩ r [h]) [] _ _ rfl
  exact built.tail left

/-- Compiling all functions of a root is a run. -/
theorem Run.of_compileAll {i : Nat} {name : String} {a : Arena} {e : Engine} {f : TypeFunctions}
    {r : Registry} (h : ((w.engine i).compileAll name a).run.run (w.registry (home i)) =
      (.ok (e, f), r)) :
    Run home w { w.done home i r (Target.all.reverse.map f.get) with
      engine := Function.update w.engine i e } := by
  obtain ⟨rfl, r₁, r₂, r₃, r₄, h₁, h₂, h₃, h₄, h₅⟩ := Engine.compileAll_eq_ok h
  have begun : w.Step home _ := .compileAll i name a
  rw [← during_start] at begun
  have built := (((((Relation.ReflTransGen.single begun).tail (.of_build h₁)).tail
    (.of_build h₂)).tail (.of_build h₃)).tail (.of_build h₄)).tail (.of_build h₅)
  have recorded := @Step.record home (w.during home ⟨i, a, a.root, [], some name, []⟩ r
    (Target.all.reverse.map f.get)) [] _ _ _ rfl rfl rfl
  exact built.tail recorded

/-- Restoring a snapshot is a run. -/
theorem Run.of_restore {i : Nat} {x : Taken} (h : x ∈ w.snapshots) :
    Run home w { w with
      registry := Function.update w.registry (home i)
        (((w.engine i).restore x.snapshot).run (w.registry (home i))).2
      engine := Function.update w.engine i
        (((w.engine i).restore x.snapshot).run (w.registry (home i))).1 } := by
  have begun : w.Step home _ := .restore i h
  have settled := @Step.settle home
    { w.enter i (Members.putAll (w.engine i).entries x.snapshot.entries) with
      restorations := ⟨x, i⟩ :: w.restorations } [] ⟨x, i⟩ w.restorations rfl
  exact (Relation.ReflTransGen.single begun).tail settled

end World

/-! ## Handles miss no function -/

/-- An answer, or an error other than a missing function. -/
def Answer.MissesNone : Answer → Prop
  | test passed => Typeforge.MissesNone passed
  | report errors => Typeforge.MissesNone errors
  | change changed => changed.MissesNone
  | text written => Typeforge.MissesNone written

/-- The handle of a function in a closed registry misses no function. -/
theorem Handle.missesNone_answer {h : Handle} {r : Registry} (closed : ClosedFunctions r.functions)
    (hkey : h.key ∈ r.keys) (v : Value) : (h.answer r v).MissesNone := by
  have closed : ClosedFunctions (h.program r).functions := closed
  unfold answer
  obtain ⟨⟨identity, target⟩, revivers⟩ := h
  cases target with
  | isType => exact Program.missesNone_isType closed hkey v
  | typeErrors => exact Program.missesNone_reportCall closed _ hkey [] v
  | jsonEncode => exact Program.missesNone_transformCall closed (.inl rfl) _ hkey v
  | jsonDecode => exact Program.missesNone_transformCall closed (.inr rfl) _ hkey v
  | jsonStringify => exact Program.missesNone_stringify closed hkey v

namespace World

variable {home : Nat → Nat}

/-- **Registries are closed under calls, forever.** However many engines build, enter, store and
restore, in whatever order: what registered functions call is registered, for the target it is called
for; the entries of an engine that is not about to restore functions have all of theirs, but for such
as a snapshot has without them that was taken in the middle of a restore; no registered function is
ever changed or removed; and no handle ever misses a function. -/
theorem Run.closed_under_calls {start w : World} (fresh : start.Fresh) (run : Run home start w) :
    (∀ k, ClosedFunctions (w.registry k).functions) ∧
    (∀ i, w.Settled home i → ∀ e ∈ (w.engine i).entries,
      (∀ target, ⟨e.2, target⟩ ∈ (w.registry (home i)).keys) ∨ ∃ x ∈ w.snapshots, x.Lacks e) ∧
    ∀ {later}, Run home w later →
      (∀ k key f, (w.registry k).get? key = some f → (later.registry k).get? key = some f) ∧
      ∀ x ∈ w.handles, ∀ v, (x.2.answer (later.registry x.1) v).MissesNone := by
  have sound := fresh.sound.run run
  refine ⟨sound.closed, fun i settled e he => sound.keyed_of_settled settled e he, ?_⟩
  intro later further
  have soundLater := sound.run further
  obtain ⟨functions, handles⟩ := further.keeps
  refine ⟨functions, fun x hx v => ?_⟩
  exact Handle.missesNone_answer (soundLater.closed x.1) (soundLater.handles x (handles hx)) v

end World

/-! ## A snapshot handed over

One engine compiles all functions of a recursive type; others, with registries of their own, restore
them.
-/

namespace Handover

open UnionNames World

def start : World := ⟨fun _ => .empty, fun _ => named.engine, [], [], [], [], []⟩

def compiling : Except CompileError (Engine × TypeFunctions) × Registry :=
  (named.engine.compileAll "Named" named.arena).run.run .empty

def compiled : Engine × TypeFunctions :=
  (compiling.1.toOption).getD (named.engine, .ofIdentity "" [])

/-- The first engine has compiled the type. -/
def built : World :=
  { start.done id 0 compiling.2 (Target.all.reverse.map compiled.2.get) with
    engine := Function.update start.engine 0 compiled.1 }

def taken : Taken := ⟨0, .ofRegistry (built.registry 0) (built.engine 0).entries, []⟩

/-- A snapshot of it is taken. -/
def stored : World :=
  { built with drafts := [⟨0, (built.engine 0).entries, []⟩], snapshots := [taken] }

/-- A world in which an engine has restored a snapshot. -/
def restoredIn (w : World) (i : Nat) (x : Taken) : World :=
  { w with
    registry := Function.update w.registry i (((w.engine i).restore x.snapshot).run (w.registry i)).2
    engine := Function.update w.engine i
      (((w.engine i).restore x.snapshot).run (w.registry i)).1 }

/-- The second engine has restored it. -/
def restored : World := restoredIn stored 1 taken

theorem fresh : start.Fresh := ⟨fun _ => rfl, fun _ => rfl, rfl, rfl, rfl, rfl, rfl⟩

/-- What is computed here: the type compiles, and its entry is restored. -/
theorem computed : compiling.1.isOk = true ∧
    ("Named", handle.key.identity) ∈ (restored.engine 1).entries := by
  decide +kernel

theorem run_built : Run id start built :=
  Run.of_compileAll (Prod.ext (Except.eq_ok_getD computed.1 _) rfl)

theorem run_stored : Run id start stored := by
  have drafted : Run id start { built with drafts := [⟨0, (built.engine 0).entries, []⟩] } :=
    run_built.tail (.draft 0)
  exact drafted.tail (.snapshot ⟨0, (built.engine 0).entries, []⟩ List.mem_cons_self)

/-- The second engine has all functions of the entry, and they are closed under calls; the handles
of the first one work on. -/
theorem restored_closed : start.Fresh ∧ Run id start restored ∧
    ("Named", handle.key.identity) ∈ (restored.engine 1).entries ∧
    ClosedFunctions (restored.registry 1).functions ∧
    (∀ target, ⟨handle.key.identity, target⟩ ∈ (restored.registry 1).keys) ∧
    ∀ x ∈ restored.handles, ∀ v, (x.2.answer (restored.registry x.1) v).MissesNone := by
  have run : Run id start restored := run_stored.trans (Run.of_restore List.mem_cons_self)
  obtain ⟨closed, entries, later⟩ := Run.closed_under_calls fresh run
  refine ⟨fresh, run, computed.2, closed 1, ?_, (later .refl).2⟩
  -- the only snapshot there is was not taken in the middle of a restore
  refine (entries 1 rfl _ computed.2).resolve_right ?_
  rintro ⟨x, hx, lacks⟩
  rw [List.mem_singleton.mp hx] at lacks
  exact lacks.amid rfl

/-! ### A snapshot taken too early

The second engine has taken up the entry, and a snapshot of it is taken before it registers the
functions.
-/

def restoring : World :=
  { stored.enter 1 (Members.putAll (stored.engine 1).entries taken.snapshot.entries) with
    restorations := [⟨taken, 1⟩] }

def early : Taken :=
  ⟨1, .ofRegistry (restoring.registry 1) (restoring.engine 1).entries, [taken.snapshot]⟩

def copied : World :=
  { restoring with
    drafts := ⟨1, (restoring.engine 1).entries, [taken.snapshot]⟩ :: restoring.drafts
    snapshots := early :: restoring.snapshots }

/-- The third engine has restored the early snapshot. -/
def orphaned : World := restoredIn copied 2 early

theorem run_orphaned : Run id start orphaned := by
  have begun : Run id start restoring := run_stored.tail (.restore 1 List.mem_cons_self)
  have drafted : Run id start { restoring with drafts := copied.drafts } := begun.tail (.draft 1)
  have copied : Run id start copied := drafted.tail
    (.snapshot ⟨1, (restoring.engine 1).entries, [taken.snapshot]⟩ List.mem_cons_self)
  exact copied.trans (Run.of_restore List.mem_cons_self)

/-- The third engine is done with its restore, but the entry it has made has no function. -/
theorem entry_without_functions : start.Fresh ∧ Run id start orphaned ∧ orphaned.Settled id 2 ∧
    ("Named", handle.key.identity) ∈ (orphaned.engine 2).entries ∧
    (∀ target, ⟨handle.key.identity, target⟩ ∉ (orphaned.registry 2).keys) ∧
    ((orphaned.engine 2).restored (orphaned.registry 2) "Named").isOk = false := by
  have found : ("Named", handle.key.identity) ∈ (orphaned.engine 2).entries ∧
      (∀ target ∈ Target.all, ⟨handle.key.identity, target⟩ ∉ (orphaned.registry 2).keys) ∧
      ((orphaned.engine 2).restored (orphaned.registry 2) "Named").isOk = false := by
    decide +kernel
  obtain ⟨entry, missing, refused⟩ := found
  exact ⟨fresh, run_orphaned, rfl, entry, fun target => missing target target.mem_all, refused⟩

end Handover

end Typeforge
