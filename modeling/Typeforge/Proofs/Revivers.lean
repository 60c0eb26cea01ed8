/-
# `Typeforge.Proofs.Revivers` — classes are revived by whom they were promised to be

A decoder is built only for types all of whose classes can be revived: the classes
are looked for in the whole type, whether or not some or all of the functions it
needs are registered already.  The handle keeps the revivers that were known when it
was built.  The code that it runs may be that of other engines, compiled from other
arenas, and more of it may be registered later; but functions of one identity are
functions of one unfolded type, so that no code ever asks for the reviver of a class
that was not looked for.

`Workshop.Run.never_misses_reviver` has any number of engines at work on one registry,
before the build and after it.  Identities have to be faithful among all of their types
(`Arena.LoweredTypes`): a function of another type under the same identity may ask for
any class.
-/
import Mathlib.Logic.Function.Basic
import Typeforge.Proofs.Lowering.Cycles
import Typeforge.Proofs.Lowering.Reaching
import Typeforge.Proofs.Running.Stops
import Typeforge.Proofs.Sharing
import Typeforge.Proofs.Types.Orderly

namespace Typeforge

/-! ## Classes of a type -/

/-- The class whose instances a node describes, other than the native dates. -/
def Node.className? (n : Node) : Option String :=
  match n.shape with
  | .object _ _ className => className
  | _ => none

namespace TypeTree

/-- All classes in a type have revivers. -/
def Revives (revivers : Revivers) (t : TypeTree) : Prop :=
  ∀ place props index name, t place = some (.object props index (some name)) →
    Members.has name revivers = true

theorem Revives.part {revivers : Revivers} {t : TypeTree} (h : t.Revives revivers) (i : Nat) :
    (t.part i).Revives revivers := fun place => h (i :: place)

end TypeTree

namespace Arena

variable {a : Arena} {id last : NodeId} {name : String}

/-- A label in the unfolding of a node is that of a node that can be reached. -/
theorem exists_reaches_of_labelAlong {place : List Nat} {l : Label}
    (h : a.labelAlong place id = some l) : ∃ last, a.Reaches id last ∧
      a.labelOf (a.node last) = some l := by
  induction place generalizing id with
  | nil =>
    obtain ⟨core, hcore, hl⟩ := Option.bind_eq_some_iff.mp h
    exact ⟨core, reaches_core hcore, hl⟩
  | cons i place ih =>
    obtain ⟨core, hcore, h⟩ := Option.bind_eq_some_iff.mp h
    obtain ⟨child, hchild, h⟩ := Option.bind_eq_some_iff.mp h
    obtain ⟨last, reaches, hl⟩ := ih h
    exact ⟨last, (reaches_core hcore).trans (.head (List.mem_of_getElem? hchild) reaches), hl⟩

theorem className?_of_labelOf {n : Node} {props : List (Option String)} {index : Option KeyFilter}
    (h : a.labelOf n = some (.object props index (some name))) : n.className? = some name := by
  unfold labelOf at h
  unfold Node.className?
  cases hshape : n.shape <;> rw [hshape] at h <;> cases h
  rfl

/-- The classes of an unfolded type are among those of the nodes that can be reached. -/
theorem revives_unfolding {revivers : Revivers} (h : ∀ last name, a.Reaches id last →
    (a.node last).className? = some name → Members.has name revivers = true) :
    (a.unfolding id).Revives revivers := by
  intro place props index name hlabel
  obtain ⟨last, reaches, hl⟩ := exists_reaches_of_labelAlong hlabel
  exact h last name reaches (className?_of_labelOf hl)

/-- What one step enters into a list that only grows is there in the end. -/
theorem mem_foldl_of_grows {α β : Type} {f : List β → α → List β} {xs : List α} {x : α} {y : β}
    (grows : ∀ ys x, ys ⊆ f ys x) (hx : x ∈ xs) (hy : ∀ ys, y ∈ f ys x) (ys : List β) :
    y ∈ xs.foldl f ys := by
  have stays (xs : List α) (ys : List β) : ys ⊆ xs.foldl f ys := by
    induction xs generalizing ys with
    | nil => exact List.Subset.refl ys
    | cons x xs ih => exact List.Subset.trans (grows ys x) (ih (f ys x))
  obtain ⟨before, after, rfl⟩ := List.append_of_mem hx
  rw [List.foldl_append, List.foldl_cons]
  exact stays after _ (hy _)

/-- Every class that can be reached is looked for. -/
theorem mem_classNames (closed : ∀ id, ∀ child ∈ (a.node id).children, child ∈ a.ids)
    (reaches : a.Reaches id last) (h : (a.node last).className? = some name) :
    name ∈ a.classNames id := by
  refine mem_foldl_of_grows (fun names x => ?_) (mem_reachable closed reaches) (fun names => ?_) []
  · split
    · split
      · exact List.Subset.refl names
      · exact List.subset_append_left names _
    · exact List.Subset.refl names
  · unfold Node.className? at h
    split at h
    · rename_i hshape
      subst h
      rw [hshape]
      dsimp only
      split
      · rename_i hmem
        exact List.contains_iff_mem.mp hmem
      · exact List.mem_append_right names (List.mem_singleton_self name)
    · cases h

end Arena

/-! ## Decoding a type whose classes have revivers -/

/-- Whether a run was stopped by anything but a class without a reviver. -/
def Halt.Revived (h : Halt) : Prop := ∀ name, h ≠ .failed (.missingReviver name)

theorem Halt.revived_cutOff : Halt.cutOff.Revived := nofun

theorem Halt.revived_decode (expected : String) (found : Typeforge.Found) :
    (Halt.failed (.decode expected found)).Revived := nofun

theorem Halt.revived_badUnionTag (i arms : Nat) : (Halt.failed (.badUnionTag i arms)).Revived := nofun

theorem Halt.revived_noUnionMember (union : String) :
    (Halt.failed (.noUnionMember union)).Revived := nofun

namespace TypeTree

variable {w : Way} {revivers : Revivers} {f : TypeTree → Value → Changed} {t : TypeTree}

theorem revived_carry (codec : Codec) (v : Value) : (w.carry codec v).StopsAs Halt.Revived := by
  cases w with
  | encode => exact .done _
  | decode =>
    rw [Way.carry]
    cases h : codec.decode v with
    | ok x => exact .done x
    | error e =>
      obtain ⟨expected, found, rfl⟩ := codec.exists_decode_of_error h
      exact .failed (Halt.revived_decode expected found)

theorem revived_tagFirst (v : Value) (members : List TypeTree)
    (h : ∀ u ∈ members, ∀ v, (f u v).StopsAs Halt.Revived) (i : Nat) :
    (tagFirst f v i members).StopsAs Halt.Revived := by
  induction members generalizing i with
  | nil => exact .failed (Halt.revived_noUnionMember _)
  | cons u rest ih =>
    obtain ⟨hu, hrest⟩ := List.forall_mem_cons.mp h
    rw [tagFirst]
    split
    · exact (hu v).andThen fun w => .done _
    · exact ih hrest (i + 1)

theorem revived_untagged (members : List TypeTree)
    (h : ∀ u ∈ members, ∀ v, (f u v).StopsAs Halt.Revived) (v : Value) :
    (untagged f members v).StopsAs Halt.Revived := by
  unfold untagged
  split
  · split
    · exact .failed (Halt.revived_decode _ _)
    · split
      · exact .failed (Halt.revived_badUnionTag _ _)
      · rename_i inner _ _ _ _ u hu
        have hinner := h u (List.mem_of_getElem? hu) inner
        split
        · exact .done _
        · rename_i halt hf
          rw [hf] at hinner
          exact .stopped (hinner halt rfl)
  · exact .failed (Halt.revived_decode _ _)

/-- The last step with an object, if it has a class. -/
theorem revived_revive {className : Option String}
    (h : ∀ name, className = some name → Members.has name revivers = true) :
    ∀ step ∈ w.revive revivers className, ∀ v, (step v).StopsAs Halt.Revived := by
  unfold Way.revive
  split
  · rename_i name
    intro step hstep v
    obtain rfl := List.mem_singleton.mp hstep
    obtain ⟨reviver, hreviver⟩ := Option.isSome_iff_exists.mp (h name rfl)
    dsimp only
    rw [hreviver]
    exact .done _
  · exact nofun

/-- The first step with a fixed position. -/
theorem revived_restore {slot : Slot} {i : Nat} :
    ∀ step ∈ w.restore slot i, ∀ v, (step v).StopsAs Halt.Revived := by
  unfold Way.restore
  split
  · exact List.forall_mem_singleton.mpr (Value.stopsAs_changePart _ fun v => .done _)
  · exact nofun

theorem exists_part_of_mem_properties {props : List (Option String)} {p : Property}
    (h : p ∈ t.properties props) : ∃ i, t.part i = p.tree := by
  obtain ⟨⟨name, i⟩, -, h⟩ := List.mem_filterMap.mp h
  obtain ⟨name, -, rfl⟩ := Option.map_eq_some_iff.mp h
  exact ⟨i, rfl⟩

/-- A step misses no reviver if the changes of the parts miss none. -/
theorem revived_steps (h : t.Revives revivers)
    (hf : ∀ i v, (f (t.part i) v).StopsAs Halt.Revived) :
    ∀ step ∈ t.steps w revivers f, ∀ v, (step v).StopsAs Halt.Revived := by
  unfold steps
  split
  · exact List.forall_mem_singleton.mpr fun v => .stopped Halt.revived_cutOff
  · exact List.forall_mem_singleton.mpr fun v => .stopped Halt.revived_cutOff
  · exact List.forall_mem_singleton.mpr fun v => .stopped Halt.revived_cutOff
  · split
    · exact List.forall_mem_singleton.mpr fun v => .stopped Halt.revived_cutOff
    · intro step hstep
      obtain ⟨codec, -, rfl⟩ := List.mem_map.mp hstep
      exact revived_carry codec
  · exact List.forall_mem_singleton.mpr (Value.stopsAs_changeFrom 0 (hf 0))
  · exact List.forall_mem_singleton.mpr (Value.stopsAs_changePresent _ _ (hf 0))
  · rename_i props index className hlabel
    refine List.forall_mem_append.mpr ⟨List.forall_mem_append.mpr ⟨fun step hstep => ?_, ?_⟩, ?_⟩
    · obtain ⟨p, hp, rfl⟩ := List.mem_map.mp hstep
      obtain ⟨i, hi⟩ := exists_part_of_mem_properties hp
      exact hi ▸ hf i
    · cases index with
      | none => exact nofun
      | some filter =>
        exact List.forall_mem_singleton.mpr (Value.stopsAs_changeCovered _ (hf props.length))
    · exact revived_revive fun name hname => h [] props index name (hname ▸ hlabel)
  · rename_i slots rest hlabel
    refine List.forall_mem_append.mpr ⟨fun step hstep => ?_, fun step hstep => ?_⟩
    · obtain ⟨p, hp, hstep⟩ := List.mem_flatMap.mp hstep
      obtain ⟨⟨slot, i⟩, -, rfl⟩ := List.mem_map.mp hp
      rcases List.mem_append.mp hstep with hstep | hstep
      · exact revived_restore step hstep
      · obtain rfl := List.mem_singleton.mp hstep
        exact Value.stopsAs_changePresent _ _ (hf i)
    · split at hstep
      · obtain rfl := List.mem_singleton.mp hstep
        exact Value.stopsAs_changeFrom _ (hf slots.length)
      · cases hstep
  · rename_i members hlabel
    refine List.forall_mem_singleton.mpr fun v => ?_
    have hmembers : ∀ u ∈ (List.range members).map t.part, ∀ v, (f u v).StopsAs Halt.Revived := by
      intro u hu
      obtain ⟨i, -, rfl⟩ := List.mem_map.mp hu
      exact hf i
    cases w with
    | encode => exact revived_tagFirst v _ hmembers 0
    | decode => exact revived_untagged _ hmembers v

/-- **Decoding a type misses no reviver of a class that is not among those of the type.** -/
theorem revived_alter (h : t.Revives revivers) (n : Nat) (v : Value) :
    (alter w revivers n t v).StopsAs Halt.Revived := by
  classical
  induction n generalizing t v with
  | zero => exact .stopped Halt.revived_cutOff
  | succ n ih =>
    by_cases needs : t.Needs w
    · rw [alter_of_needs needs]
      exact .inTurn (revived_steps h fun i v => ih (h.part i) v) v
    · rw [alter_of_not_needs needs]
      exact .done v

end TypeTree

/-! ## Engines that share a registry -/

namespace Engine

variable {e : Engine} {a : Arena} {r r' : Registry} {id : NodeId} {h : Handle}

/-- A decoder is built only if all classes that can be met have revivers, even if all its functions are
registered already. -/
theorem revives_of_build (hbuild : (e.build a id .jsonDecode).run.run r = (.ok h, r')) :
    ∀ name ∈ a.classNames id, Members.has name e.revivers = true := by
  obtain ⟨-, fs, hfs, -⟩ := build_eq_ok hbuild
  intro name hname
  by_contra hmissing
  have hcheck : ∃ missing, Compile.checkRevivers (e.setting r a) id =
      .error (.unregisteredClass missing) := by
    unfold Compile.checkRevivers
    split
    · rename_i missing _
      exact ⟨missing, rfl⟩
    · rename_i hnone
      exact absurd (List.find?_eq_none.mp hnone name hname) (by simpa [setting] using hmissing)
  obtain ⟨missing, hcheck⟩ := hcheck
  rw [Compile.functions, if_pos rfl, hcheck] at hfs
  cases hfs

end Engine

/-- Engines with settings and classes of their own, and the registry they all build into. -/
structure Workshop where
  engine : Nat → Engine
  registry : Registry

namespace Workshop

/-- What can happen next: a class is registered with an engine, or an engine builds a function of a
node of one of some arenas. A build may fail. -/
inductive Step (arenas : Set Arena) (s : Workshop) : Workshop → Prop where
  | register (i : Nat) (name : String) (reviver : Reviver) :
      Step arenas s
        { s with engine := Function.update s.engine i ((s.engine i).registerClass name reviver) }
  | build (i : Nat) {a : Arena} (ha : a ∈ arenas) (id : NodeId) (target : Target) :
      Step arenas s
        { s with registry := (((s.engine i).build a id target).run.run s.registry).2 }

/-- Any number of steps. -/
abbrev Run (arenas : Set Arena) : Workshop → Workshop → Prop := Relation.ReflTransGen (Step arenas)

variable {arenas : Set Arena} {s s' : Workshop}

/-- The registry holds functions of the arenas, compiled by walks of whatever depth. -/
def Filled (arenas : Set Arena) (s : Workshop) : Prop :=
  ∃ limit, s.registry.FilledFrom arenas limit

theorem Filled.step (filled : s.Filled arenas) (step : Step arenas s s') :
    s'.Filled arenas ∧ s.registry.keys ⊆ s'.registry.keys := by
  cases step with
  | register => exact ⟨filled, List.Subset.refl _⟩
  | @build i a ha id target =>
    obtain ⟨limit, hfilled⟩ := filled
    dsimp only [Filled]
    rcases hbuild : ((s.engine i).build a id target).run.run s.registry with ⟨answer, r⟩
    cases answer with
    | ok h =>
      obtain ⟨-, fs, -, rfl⟩ := Engine.build_eq_ok hbuild
      have deep : s.registry.FilledFrom arenas (max limit ((s.engine i).config.maxDepth - 1)) :=
        hfilled.deepen (le_max_left _ _)
      exact ⟨⟨_, (Engine.filledFrom_of_build deep ha (le_max_right _ _) hbuild).1⟩,
        Registry.keys_subset_defineAll⟩
    | error error =>
      obtain rfl := Engine.build_eq_error hbuild
      exact ⟨⟨limit, hfilled⟩, List.Subset.refl _⟩

theorem Filled.run (filled : s.Filled arenas) (run : Run arenas s s') :
    s'.Filled arenas ∧ s.registry.keys ⊆ s'.registry.keys := by
  induction run with
  | refl => exact ⟨filled, List.Subset.refl _⟩
  | tail _ step ih =>
    obtain ⟨hfilled, hkeys⟩ := ih.1.step step
    exact ⟨hfilled, List.Subset.trans ih.2 hkeys⟩

/-- **Revivers are settled when a decoder is built**: it is built only if every class that can be
reached has a reviver in the engine that builds it, and from then on, whatever is registered or built
later by whomever, it never fails for want of one. -/
theorem Run.never_misses_reviver (types : Arena.LoweredTypes arenas) (fresh : s.registry = .empty)
    (past : Run arenas s s') {i : Nat} {a : Arena} (ha : a ∈ arenas) {id : NodeId} {h : Handle}
    {r : Registry}
    (hbuild : ((s'.engine i).build a id .jsonDecode).run.run s'.registry = (.ok h, r)) :
    (∀ last name, a.Reaches id last → (a.node last).className? = some name →
      Members.has name (s'.engine i).revivers = true) ∧
    ∀ later, Run arenas { s' with registry := r } later → ∀ name,
      (∀ v, (h.transform later.registry v).stop ≠ some (.failed (.missingReviver name))) ∧
      ∀ text, h.parse later.registry text ≠ .error (.failed (.missingReviver name)) := by
  obtain ⟨g, root, maxDepth, hlower, -⟩ := types.lowered a ha
  have revives (last : NodeId) (name : String) (reaches : a.Reaches id last)
      (hname : (a.node last).className? = some name) :
      Members.has name (s'.engine i).revivers = true :=
    Engine.revives_of_build hbuild name
      (Arena.mem_classNames (Arena.mem_ids_of_lower hlower) reaches hname)
  refine ⟨revives, fun later run name => ?_⟩
  -- the registry is still filled from the arenas, and the function is still there
  have start : s.Filled arenas := by
    refine ⟨0, types.faithful, fun f hf => ?_⟩
    rw [fresh] at hf
    cases hf
  obtain ⟨limit, hfilled⟩ := (start.run past).1
  have built := Engine.filledFrom_of_build (hfilled.deepen (le_max_left limit _)) ha
    (le_max_right _ _) hbuild
  obtain ⟨⟨limit', hlater⟩, hkeys⟩ := Filled.run ⟨_, built.1⟩ run
  have hkey := hkeys built.2
  obtain ⟨rfl, -⟩ := Engine.build_eq_ok hbuild
  have transforms (v : Value) :
      (Handle.transform ⟨⟨(a.node id).identity, .jsonDecode⟩, (s'.engine i).revivers⟩
        later.registry v).stop ≠ some (.failed (.missingReviver name)) := by
    intro hstop
    obtain ⟨n, hn⟩ := Program.within_transform (w := .decode) (s'.engine i).revivers hlater
      types.marked ha hkey v
    rcases hn n le_rfl with hcut | hsame
    · cases hcut.symm.trans hstop
    · have hrevived := TypeTree.revived_alter (w := .decode) (Arena.revives_unfolding revives) n v
      rw [← hsame] at hrevived
      exact hrevived _ (congrArg (Option.map Halt.unnamed) hstop) name rfl
  refine ⟨transforms, fun text hparse => ?_⟩
  unfold Handle.parse at hparse
  split at hparse
  · rename_i j _
    refine transforms (.ofJson j) ?_
    unfold Handle.decode Changed.toExcept at hparse
    split at hparse
    · cases hparse
    · rename_i halt hstop
      cases hparse
      exact hstop
  · cases hparse

end Workshop

/-! ## Points

A class of linked points.  One engine registers the class and builds the decoder;
another registers it as well, and builds the decoder once more, whose function is
there already.
-/

namespace Points

/-- An engine that knows the class of points. -/
def sample : Sample where
  graph := {
    nodes := #[
      ⟨.classType "Point" [⟨1⟩, ⟨2⟩], none⟩,
      ⟨.property "x" ⟨3⟩ false false, none⟩,
      ⟨.property "next" ⟨0⟩ true false, none⟩,
      ⟨.number, none⟩]
    roots := [("Point", ⟨0⟩)] }
  engine := Engine.registerClass {} "Point" id
  targets := [.jsonDecode]

def begun : Workshop := ⟨fun _ => {}, .empty⟩

/-- The first engine has registered the class. -/
def registered : Workshop := { begun with engine := Function.update begun.engine 0 sample.engine }

/-- The first engine has built the decoder. -/
def built : Workshop := { registered with registry := sample.registry }

/-- The second engine has registered the class as well. -/
def shared : Workshop := { built with engine := Function.update built.engine 1 sample.engine }

def handle : Handle := sample.handle .jsonDecode

/-- What is computed here: the type is lowered faithfully, the root is of the class, and its decoder is
built a second time without a new function. -/
theorem computed : sample.loads = true ∧ sample.isFaithful = true ∧
    (sample.arena.node sample.node).className? = some "Point" ∧
    built.registry.contains handle.key = true ∧
    (Compile.functions (sample.engine.setting built.registry sample.arena) sample.node
      .jsonDecode).isOk = true := by
  decide +kernel

theorem run_shared : Workshop.Run {sample.arena} begun shared := by
  have first : Workshop.Step {sample.arena} begun registered := .register 0 "Point" id
  have second : Workshop.Step {sample.arena} registered built :=
    .build 0 (Set.mem_singleton sample.arena) sample.node .jsonDecode
  have third : Workshop.Step {sample.arena} built shared := .register 1 "Point" id
  exact ((Relation.ReflTransGen.single first).tail second).tail third

theorem shared_never_misses_reviver :
    Members.has "Point" (shared.engine 1).revivers = true ∧
    ∀ later, Workshop.Run {sample.arena} { shared with registry :=
        (((shared.engine 1).build sample.arena sample.node .jsonDecode).run.run
          shared.registry).2 } later →
      ∀ v, (handle.transform later.registry v).stop ≠ some (.failed (.missingReviver "Point")) := by
  obtain ⟨loads, faithful, hclass, -, functions⟩ := computed
  have hbuild : ((shared.engine 1).build sample.arena sample.node .jsonDecode).run.run
      shared.registry = (.ok handle, _) := Prod.ext (Engine.run_build_fst functions) rfl
  obtain ⟨revives, never⟩ := Workshop.Run.never_misses_reviver (Sample.loweredTypes loads faithful)
    rfl run_shared rfl hbuild
  exact ⟨revives sample.node "Point" .refl hclass, fun later run => (never later run "Point").1⟩

end Points

end Typeforge
