/-
# `Typeforge.Proofs.Compiling.Built` — registries that builds have filled

An engine that starts with an empty registry and builds functions of the nodes
of one arena, in whatever order and however often, comes to registries of a
certain kind: all functions in them are functions of nodes of the arena, and
call only functions that are registered too.
-/
import Typeforge.Engine
import Typeforge.Proofs.Compiling.Inversion

namespace Typeforge

/-! ## Registering -/

namespace Registry

theorem contains_iff {r : Registry} {key : FunctionKey} : r.contains key = true ↔ key ∈ r.keys :=
  List.contains_iff_mem

theorem functions_define (r : Registry) (f : Function) :
    (r.define f).functions =
      if f.key ∈ r.keys then r.functions else r.functions ++ [f] := by
  unfold define keys
  split <;> rfl

theorem mem_define {r : Registry} {f g : Function} (h : g ∈ (r.define f).functions) :
    g ∈ r.functions ∨ g = f := by
  rw [functions_define] at h
  split at h
  · exact .inl h
  · simpa using h

theorem mem_keys_define {r : Registry} {f : Function} {key : FunctionKey} :
    key ∈ (r.define f).keys ↔ key ∈ r.keys ∨ key = f.key := by
  rw [keys, functions_define]
  split
  · rename_i hmem
    exact ⟨.inl, fun h => h.elim id fun h => h ▸ hmem⟩
  · simp [keys]

/-- What is registered is one of the functions there were, or one of the new ones. -/
theorem mem_defineAll {fs : List Function} {r : Registry} {g : Function}
    (h : g ∈ (r.defineAll fs).functions) : g ∈ r.functions ∨ g ∈ fs := by
  induction fs generalizing r with
  | nil => exact .inl h
  | cons f fs ih =>
    rcases ih (r := r.define f) h with h | h
    · rcases mem_define h with h | rfl
      · exact .inl h
      · exact .inr List.mem_cons_self
    · exact .inr (List.mem_cons_of_mem f h)

/-- No key is lost, and each of the new ones is there. -/
theorem mem_keys_defineAll {fs : List Function} {r : Registry} {key : FunctionKey} :
    key ∈ (r.defineAll fs).keys ↔ key ∈ r.keys ∨ key ∈ fs.map (·.key) := by
  induction fs generalizing r with
  | nil => simp [defineAll]
  | cons f fs ih =>
    have := ih (r := r.define f)
    rw [mem_keys_define] at this
    rw [List.map_cons, List.mem_cons, ← or_assoc]
    exact this

theorem keys_subset_defineAll {fs : List Function} {r : Registry} : r.keys ⊆ (r.defineAll fs).keys :=
  fun _ h => mem_keys_defineAll.mpr (.inl h)

/-- A function once registered stays. -/
theorem get?_defineAll {r : Registry} {fs : List Function} {key : FunctionKey} {f : Function}
    (h : r.get? key = some f) : (r.defineAll fs).get? key = some f := by
  induction fs generalizing r with
  | nil => exact h
  | cons g fs ih =>
    refine ih (r := r.define g) ?_
    rw [get?] at h ⊢
    rw [functions_define]
    split
    · exact h
    · rw [List.find?_append, h, Option.some_or]

theorem exists_get? {r : Registry} {key : FunctionKey} (hkey : key ∈ r.keys) :
    ∃ f ∈ r.functions, f.key = key ∧ r.get? key = some f := by
  obtain ⟨g, hg, hgkey⟩ := List.mem_map.mp hkey
  have hsome : (r.functions.find? (·.key == key)).isSome := by
    rw [List.find?_isSome]
    exact ⟨g, hg, beq_iff_eq.mpr hgkey⟩
  obtain ⟨f, hf⟩ := Option.isSome_iff_exists.mp hsome
  have hfkey : (f.key == key) = true := by simpa using List.find?_some hf
  exact ⟨f, List.mem_of_find?_eq_some hf, beq_iff_eq.mp hfkey, hf⟩

/-- A registry has the functions of another. -/
def Keeps (r r' : Registry) : Prop := ∀ key f, r.get? key = some f → r'.get? key = some f

theorem Keeps.refl (r : Registry) : r.Keeps r := fun _ _ h => h

theorem Keeps.trans {r r' r'' : Registry} (h : r.Keeps r') (h' : r'.Keeps r'') : r.Keeps r'' :=
  fun key f hf => h' key f (h key f hf)

/-- The functions of a registry are those of nodes of an arena, and call only one another. -/
def Compiled (a : Arena) (limit : Nat) (r : Registry) : Prop :=
  ∀ f ∈ r.functions, ∃ id, Compile.FunctionOf a (r.contains · = true) limit id f

theorem Compiled.empty (a : Arena) (limit : Nat) : Compiled a limit .empty :=
  fun _ h => absurd h List.not_mem_nil

/-- The functions of a registry are those of nodes of some arenas, whose identities are faithful to
one another, and call only one another. -/
structure FilledFrom (arenas : Set Arena) (limit : Nat) (r : Registry) : Prop where
  faithful : Arena.FaithfulAmong arenas
  compiled : ∀ f ∈ r.functions, ∃ a ∈ arenas, ∃ id,
    Compile.FunctionOf a (r.contains · = true) limit id f

/-- A registry of functions of one arena. -/
theorem Compiled.filledFrom {a : Arena} {limit : Nat} {r : Registry} (h : r.Compiled a limit)
    (faithful : a.Faithful) : r.FilledFrom {a} limit :=
  ⟨faithful.among, fun f hf => ⟨a, rfl, h f hf⟩⟩

theorem FilledFrom.deepen {arenas : Set Arena} {limit limit' : Nat} {r : Registry}
    (h : r.FilledFrom arenas limit) (hle : limit ≤ limit') : r.FilledFrom arenas limit' where
  faithful := h.faithful
  compiled f hf := by
    obtain ⟨a, ha, id, hof⟩ := h.compiled f hf
    exact ⟨a, ha, id, hof.deepen hle⟩

end Registry

/-! ## Runs that register -/

namespace Registering

variable {α β : Type} {r r' : Registry}

/-- A run that registers comes to a result if all of its parts do, one after the other. -/
theorem run_bind_eq_ok {m : Registering α} {f : α → Registering β} {y : β} :
    (m >>= f).run.run r = (.ok y, r') ↔
      ∃ x r₁, m.run.run r = (.ok x, r₁) ∧ (f x).run.run r₁ = (.ok y, r') := by
  show (ExceptT.bindCont f (m.run.run r).1) (m.run.run r).2 = _ ↔ _
  obtain ⟨outcome, r₁⟩ := m.run.run r
  cases outcome with
  | ok x => exact ⟨fun h => ⟨x, r₁, rfl, h⟩, fun ⟨_, _, h, hf⟩ => by cases h; exact hf⟩
  | error error => exact ⟨nofun, fun ⟨_, _, h, _⟩ => nomatch h⟩

theorem run_pure_eq_ok {x y : α} :
    (pure x : Registering α).run.run r = (.ok y, r') ↔ x = y ∧ r = r' := by
  show (Except.ok x, r) = _ ↔ _
  simp

end Registering

/-! ## Building -/

namespace Engine

variable {e : Engine} {a : Arena} {r r' : Registry} {id : NodeId} {target : Target} {h : Handle}

theorem run_build (e : Engine) (a : Arena) (id : NodeId) (target : Target) (r : Registry) :
    (e.build a id target).run.run r =
      match Compile.functions (e.setting r a) id target with
      | .ok fs => (.ok ⟨⟨(a.node id).identity, target⟩, e.revivers⟩, r.defineAll fs)
      | .error error => (.error error, r) := by
  change (match Compile.functions (e.setting r a) id target with
    | .ok fs => _
    | .error error => throw error : Registering Handle).run.run r = _
  cases Compile.functions (e.setting r a) id target <;> rfl

/-- A build answers with a handle if the compiler finds no error. -/
theorem run_build_fst (h : (Compile.functions (e.setting r a) id target).isOk = true) :
    ((e.build a id target).run.run r).1 =
      .ok ⟨⟨(a.node id).identity, target⟩, e.revivers⟩ := by
  rw [run_build]
  cases hfs : Compile.functions (e.setting r a) id target with
  | ok fs => rfl
  | error error =>
    rw [hfs] at h
    cases h

/-- A build that succeeds registers the functions of the compiler, and answers with the key of the
function it was for. -/
theorem build_eq_ok (hbuild : (e.build a id target).run.run r = (.ok h, r')) :
    h = ⟨⟨(a.node id).identity, target⟩, e.revivers⟩ ∧
      ∃ fs, Compile.functions (e.setting r a) id target = .ok fs ∧ r' = r.defineAll fs := by
  rw [run_build] at hbuild
  split at hbuild
  · rename_i fs hfs
    cases hbuild
    exact ⟨rfl, fs, hfs, rfl⟩
  · cases hbuild

theorem target_of_build (hbuild : (e.build a id target).run.run r = (.ok h, r')) :
    h.key.target = target := by
  obtain ⟨rfl, -⟩ := build_eq_ok hbuild
  rfl

/-- The functions for all targets are built one after the other. -/
theorem buildAll_eq_ok {f : TypeFunctions} (hbuild : (e.buildAll a id).run.run r = (.ok f, r')) :
    ∃ r₁ r₂ r₃ r₄, (e.build a id .isType).run.run r = (.ok f.isType, r₁) ∧
      (e.build a id .typeErrors).run.run r₁ = (.ok f.typeErrors, r₂) ∧
      (e.build a id .jsonEncode).run.run r₂ = (.ok f.jsonEncode, r₃) ∧
      (e.build a id .jsonDecode).run.run r₃ = (.ok f.jsonDecode, r₄) ∧
      (e.build a id .jsonStringify).run.run r₄ = (.ok f.jsonStringify, r') := by
  simp only [buildAll, Registering.run_bind_eq_ok, Registering.run_pure_eq_ok] at hbuild
  obtain ⟨_, r₁, h₁, _, r₂, h₂, _, r₃, h₃, _, r₄, h₄, _, r₅, h₅, rfl, rfl⟩ := hbuild
  exact ⟨r₁, r₂, r₃, r₄, h₁, h₂, h₃, h₄, h₅⟩

theorem keeps_of_build (hbuild : (e.build a id target).run.run r = (.ok h, r')) : r.Keeps r' := by
  obtain ⟨-, fs, -, rfl⟩ := build_eq_ok hbuild
  exact fun _ _ => Registry.get?_defineAll

theorem keeps_of_buildAll {f : TypeFunctions}
    (hbuild : (e.buildAll a id).run.run r = (.ok f, r')) : r.Keeps r' := by
  obtain ⟨r₁, r₂, r₃, r₄, build₁, build₂, build₃, build₄, build₅⟩ := buildAll_eq_ok hbuild
  exact ((((keeps_of_build build₁).trans (keeps_of_build build₂)).trans
    (keeps_of_build build₃)).trans (keeps_of_build build₄)).trans (keeps_of_build build₅)

/-- A build that fails registers nothing. -/
theorem build_eq_error {error : CompileError}
    (hbuild : (e.build a id target).run.run r = (.error error, r')) : r' = r := by
  rw [run_build] at hbuild
  split at hbuild
  · cases hbuild
  · cases hbuild
    rfl

/-- What an engine comes to that starts with an empty registry: the registry, and the handles of
the functions it has built for nodes of the arena. -/
inductive Builds (e : Engine) (a : Arena) : Registry → List (NodeId × Handle) → Prop where
  | fresh : Builds e a .empty []
  | build {r r' id target h handles} (past : Builds e a r handles)
      (hbuild : (e.build a id target).run.run r = (.ok h, r')) :
      Builds e a r' ((id, h) :: handles)

/-- What a build registers: a function for its handle, and functions of its node and of nodes that
may have one, that call only registered ones, besides those that were there. -/
theorem registered_of_build (hbuild : (e.build a id target).run.run r = (.ok h, r')) :
    (r.contains · = true) ≤ (r'.contains · = true) ∧ h.key ∈ r'.keys ∧
    ∀ f ∈ r'.functions, f ∈ r.functions ∨ ∃ start, Compile.Starts a id start ∧
      Compile.FunctionOf a (r'.contains · = true) (e.config.maxDepth - 1) start f := by
  obtain ⟨rfl, fs, hfs, rfl⟩ := build_eq_ok hbuild
  obtain ⟨hknown, sound⟩ := Compile.functions_sound hfs
  have hle : Compile.known (e.setting r a) fs ≤ ((r.defineAll fs).contains · = true) := by
    intro key hkey
    rw [Registry.contains_iff, Registry.mem_keys_defineAll]
    rcases hkey with hkey | ⟨_, hkey⟩
    · exact .inr hkey
    · exact .inl (Registry.contains_iff.mp hkey)
  refine ⟨fun key hkey => ?_, Registry.contains_iff.mp (hle _ hknown), fun f hf => ?_⟩
  · have hmem := Registry.contains_iff.mp hkey
    exact Registry.contains_iff.mpr (Registry.mem_keys_defineAll.mpr (.inl hmem))
  · refine (Registry.mem_defineAll hf).imp_right fun hf => ?_
    obtain ⟨start, hstart, hof⟩ := sound f hf
    exact ⟨start, hstart, Compile.FunctionOf.mono _ start f hle hof⟩

/-- A build keeps the functions there are functions of nodes that call only one another. -/
theorem compiled_of_build (hr : r.Compiled a (e.config.maxDepth - 1))
    (hbuild : (e.build a id target).run.run r = (.ok h, r')) :
    r'.Compiled a (e.config.maxDepth - 1) ∧ h.key ∈ r'.keys := by
  obtain ⟨hle, hkey, hfunctions⟩ := registered_of_build hbuild
  refine ⟨fun f hf => ?_, hkey⟩
  rcases hfunctions f hf with hf | ⟨start, -, hof⟩
  · obtain ⟨start, hof⟩ := hr f hf
    exact ⟨start, Compile.FunctionOf.mono _ start f hle hof⟩
  · exact ⟨start, hof⟩

/-- A build of a node of one of some arenas keeps a registry filled from these. -/
theorem filledFrom_of_build {arenas : Set Arena} {limit : Nat} (filled : r.FilledFrom arenas limit)
    (ha : a ∈ arenas) (depth : e.config.maxDepth - 1 ≤ limit)
    (hbuild : (e.build a id target).run.run r = (.ok h, r')) :
    r'.FilledFrom arenas limit ∧ h.key ∈ r'.keys := by
  obtain ⟨hle, hkey, hfunctions⟩ := registered_of_build hbuild
  refine ⟨⟨filled.faithful, fun f hf => ?_⟩, hkey⟩
  rcases hfunctions f hf with hf | ⟨start, -, hof⟩
  · obtain ⟨b, hb, start, hof⟩ := filled.compiled f hf
    exact ⟨b, hb, start, Compile.FunctionOf.mono _ start f hle hof⟩
  · exact ⟨a, ha, start, hof.deepen depth⟩

/-- Whatever an engine builds, its functions are functions of nodes that call only one another,
and those it has handles of are among them. -/
theorem Builds.compiled {handles : List (NodeId × Handle)} (hb : e.Builds a r handles) :
    r.Compiled a (e.config.maxDepth - 1) ∧ ∀ x ∈ handles,
      x.2.key ∈ r.keys ∧ x.2.key.identity = (a.node x.1).identity ∧ x.2.revivers = e.revivers := by
  induction hb with
  | fresh => exact ⟨.empty a _, fun _ hx => absurd hx List.not_mem_nil⟩
  | build past hbuild ih =>
    obtain ⟨hr, hhandles⟩ := ih
    obtain ⟨hr', hkey⟩ := compiled_of_build hr hbuild
    obtain ⟨rfl, fs, -, rfl⟩ := build_eq_ok hbuild
    refine ⟨hr', fun x hx => ?_⟩
    rcases List.mem_cons.mp hx with rfl | hx
    · exact ⟨hkey, rfl, rfl⟩
    · obtain ⟨hmem, hid, hrev⟩ := hhandles x hx
      exact ⟨Registry.mem_keys_defineAll.mpr (.inl hmem), hid, hrev⟩

/-- A handle of a build is that of a registered function of its node. -/
theorem Builds.registered {handles : List (NodeId × Handle)} (hb : e.Builds a r handles)
    (hmem : (id, h) ∈ handles) (htarget : h.key.target = target) :
    h.key.identity = (a.node id).identity ∧ ⟨(a.node id).identity, target⟩ ∈ r.keys := by
  obtain ⟨hkey, hidentity, -⟩ := hb.compiled.2 (id, h) hmem
  refine ⟨hidentity, ?_⟩
  rw [← hidentity, ← htarget]
  exact hkey

end Engine

/-! ## Bodies of registered functions -/

namespace Program

/-- The body of a registered function, wherever it is kept. -/
theorem exists_body?_of_keeps {r r' : Registry} (kept : r.Keeps r') (revivers : Revivers)
    {key : FunctionKey} (hkey : key ∈ r.keys) :
    ∃ f ∈ r.functions, f.key = key ∧
      (Program.mk r'.functions revivers).body? key = some f.body := by
  obtain ⟨f, hf, hfkey, hget⟩ := Registry.exists_get? hkey
  exact ⟨f, hf, hfkey, congrArg (Option.map Function.body) (kept key f hget)⟩

/-- The body of a registered function. -/
theorem exists_body? {r : Registry} (revivers : Revivers) {key : FunctionKey} (hkey : key ∈ r.keys) :
    ∃ f ∈ r.functions, f.key = key ∧
      (Program.mk r.functions revivers).body? key = some f.body :=
  exists_body?_of_keeps (.refl r) revivers hkey

/-- The body of a registered function is what its node was compiled to. -/
theorem body?_of_mem {r : Registry} (revivers : Revivers) {arenas : Set Arena} {limit : Nat}
    {key : FunctionKey} (filled : r.FilledFrom arenas limit) (hkey : key ∈ r.keys) :
    ∃ f, f.key = key ∧ (Program.mk r.functions revivers).body? key = some f.body ∧
      ∃ a ∈ arenas, ∃ id, Compile.FunctionOf a (r.contains · = true) limit id f := by
  obtain ⟨f, hf, hfkey, hbody⟩ := exists_body? revivers hkey
  exact ⟨f, hfkey, hbody, filled.compiled f hf⟩

end Program

end Typeforge
