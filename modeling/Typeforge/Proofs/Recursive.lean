/-
# `Typeforge.Proofs.Recursive` — recursive types compile

A build goes round a cycle of references until it meets a function that is under
construction.  Lowering sees to it that every cycle has a circular node, and a circular
node gets a function of its own if it is an object, a tuple, a union or an array.  Then
no build of the type goes too deep, as long as the engine may go deep enough for its
functions and for the paths between them: `Engine.build_not_tooDeep`.

Two hypotheses stand between that and a promise for all types.

* `Arena.Cut`: a circular node without a function of its own is on no cycle but such as
  pass another one that has a function.  A property never has a function, and where two
  objects share one, the cycle through it may be entered there.  `SharedMember` is a type
  of three nodes, with a property for its only circular node, whose build goes round the
  cycle until it has gone as deep as it may.
* The depth counts functions, and not nodes alone.  A function counts as often as it may
  be under construction: once for its target, and once more for its test, which unions
  ask for.  What lies below a function that is finished is walked again by the next one,
  as far as it has no functions of its own, and so the walk that is to end below one
  union may pass through every function there is.  Room for two paths of references is
  not enough: `Descents.report_too_deep`.
-/
import Typeforge.Proofs.Compiling.Depth
import Typeforge.Proofs.Lowering.Cycles
import Typeforge.Proofs.Samples

namespace Typeforge

/-! ## Simple paths -/

namespace Arena

variable {a : Arena}

/-- A path of references that meets no node twice. -/
structure SimplePath (a : Arena) (path : List NodeId) : Prop where
  chain : path.IsChain fun id child => child ∈ (a.node id).children
  nodup : path.Nodup

/-- No simple path is longer than its arena. -/
theorem SimplePath.length_le {path : List NodeId} (h : a.SimplePath path)
    (closed : ∀ id ∈ a.ids, ∀ child ∈ (a.node id).children, child ∈ a.ids) (nonempty : 0 < a.size) :
    path.length ≤ a.size := by
  have hids : a.ids.length = a.size := by rw [ids, List.length_map, List.length_range]
  have hmem {id child : NodeId} (hchild : child ∈ (a.node id).children) : id ∈ a.ids := by
    by_contra hid
    rw [node_eq_default hid] at hchild
    exact absurd hchild List.not_mem_nil
  -- the nodes after the first one are children, and so is the first one's successor
  have hrest : ∀ (id : NodeId) (rest : List NodeId),
      (id :: rest).IsChain (fun id child => child ∈ (a.node id).children) → ∀ x ∈ rest, x ∈ a.ids := by
    intro id rest
    induction rest generalizing id with
    | nil => exact fun _ _ hx => absurd hx List.not_mem_nil
    | cons child rest ih =>
      intro hchain
      obtain ⟨hchild, hchain⟩ := List.isChain_cons_cons.mp hchain
      exact List.forall_mem_cons.mpr ⟨closed id (hmem hchild) child hchild, ih child hchain⟩
  cases path with
  | nil => exact Nat.zero_le _
  | cons id rest =>
    cases rest with
    | nil => exact nonempty
    | cons child rest =>
      have hid := hmem (List.isChain_cons_cons.mp h.chain).1
      have hsubset : id :: child :: rest ⊆ a.ids :=
        List.forall_mem_cons.mpr ⟨hid, hrest id (child :: rest) h.chain⟩
      rw [← hids]
      exact (List.subperm_of_subset h.nodup hsubset).length_le

/-! ## Cycles that are cut -/

/-- Whether a child of a node has no function of its own for being circular. -/
def InPlace (a : Arena) (id child : NodeId) : Prop :=
  child ∈ (a.node id).children ∧ ¬((a.node child).isCircular = true ∧ (a.node child).hasBody = true)

/-- Every cycle through a circular node passes a circular node that may have a function. -/
def Cut (a : Arena) : Prop :=
  ∀ id, (a.node id).isCircular = true → ¬Relation.TransGen a.InPlace id id

/-- A way through nodes that are compiled in place leads down, or past a circular node. -/
theorem RankedBy.lt_or_circular {rank : NodeId → Nat} (ranked : a.RankedBy rank) {id last : NodeId}
    (way : Relation.TransGen a.InPlace id last) : rank last < rank id ∨
      ∃ mid, (a.node mid).isCircular = true ∧ Relation.TransGen a.InPlace id mid ∧
        Relation.ReflTransGen a.InPlace mid last := by
  induction way with
  | @single child step =>
    cases circular : (a.node child).isCircular with
    | true => exact .inr ⟨child, circular, .single step, .refl⟩
    | false => exact .inl (ranked id child step.1 circular)
  | @tail last child way step ih =>
    cases circular : (a.node child).isCircular with
    | true => exact .inr ⟨child, circular, way.tail step, .refl⟩
    | false =>
      have hlt := ranked last child step.1 circular
      exact ih.imp hlt.trans fun ⟨mid, hmid, first, further⟩ =>
        ⟨mid, hmid, first, further.tail step⟩

/-- Where cycles are cut, none is compiled in place all the way round. -/
theorem RankedBy.acyclic {rank : NodeId → Nat} (ranked : a.RankedBy rank) (cut : a.Cut)
    (id : NodeId) : ¬Relation.TransGen a.InPlace id id := by
  intro way
  rcases ranked.lt_or_circular way with hlt | ⟨mid, circular, first, further⟩
  · exact Nat.lt_irrefl _ hlt
  · exact cut mid circular (.trans_right further first)

/-- Cycles are cut where all circular nodes may have functions. -/
theorem cut_of_bodies
    (bodies : ∀ id ∈ a.ids, (a.node id).isCircular = true → (a.node id).hasBody = true) : a.Cut := by
  intro id circular way
  have hbody : (a.node id).hasBody = true := by
    by_cases hid : id ∈ a.ids
    · exact bodies id hid circular
    · rw [node_eq_default hid] at circular
      cases circular
  obtain ⟨_, -, step⟩ := Relation.TransGen.tail'_iff.mp way
  exact step.2 ⟨circular, hbody⟩

end Arena

namespace Setting

variable {s : Setting}

/-- Where no cycle is compiled in place all the way round, a strand is a simple path. -/
theorem Strand.exists_path (acyclic : ∀ id, ¬Relation.TransGen s.arena.InPlace id id) {k : Nat}
    {id : NodeId} (strand : s.Strand k id) : ∃ path, s.arena.SimplePath path ∧ path.length = k := by
  suffices h : ∃ older, older.length + 1 = k ∧
      (id :: older).IsChain (fun child id => s.arena.InPlace id child) by
    obtain ⟨older, hlength, hchain⟩ := h
    have hways : (id :: older).IsChain (fun child id => Relation.TransGen s.arena.InPlace id child) :=
      hchain.imp fun _ _ step => .single step
    have trans : IsTrans NodeId fun child id => Relation.TransGen s.arena.InPlace id child :=
      ⟨fun _ _ _ h h' => h'.trans h⟩
    have hnodup : (id :: older).Nodup := hways.pairwise.imp fun way heq => by
      rw [heq] at way
      exact acyclic _ way
    refine ⟨(id :: older).reverse, ⟨List.isChain_reverse.mpr ?_, ?_⟩, ?_⟩
    · exact hchain.imp fun _ _ step => step.1
    · exact List.nodup_reverse.mpr hnodup
    · rw [List.length_reverse, List.length_cons, hlength]
  induction strand with
  | start id => exact ⟨[], rfl, .singleton id⟩
  | @next k id child strand mem inPlace ih =>
    obtain ⟨older, hlength, hchain⟩ := ih
    have step : s.arena.InPlace id child := by
      refine ⟨mem, fun ⟨circular, body⟩ => ?_⟩
      rw [ownFunction, body, circular] at inPlace
      cases inPlace
    exact ⟨id :: older, congrArg (· + 1) hlength, List.isChain_cons_cons.mpr ⟨step, hchain⟩⟩

end Setting

/-! ## Builds -/

/-- **Recursive types compile**: where every cycle passes a circular node that may have a function, no
build of any node for any target goes too deep, whatever is registered. -/
theorem Engine.build_not_tooDeep {e : Engine} {g : TypeGraph} {root : TypeId} {a : Arena}
    (hload : e.load g root = .ok a) (cut : a.Cut) {height : Nat}
    (paths : ∀ path, a.SimplePath path → path.length ≤ height) (r : Registry)
    (depth : (2 * (e.setting r a).ownIdentities.card + 1) * height < e.config.maxDepth)
    (id : NodeId) (target : Target) :
    ∀ error, ((e.build a id target).run.run r).1 = .error error → ¬error.TooDeep := by
  obtain ⟨-, -, hlower⟩ := Except.bind_eq_ok.mp hload
  obtain ⟨rank, ranked⟩ := Arena.exists_rankedBy_of_lower hlower
  have strands (k : Nat) (id : NodeId) (strand : (e.setting r a).Strand k id) : k ≤ height := by
    obtain ⟨path, simple, rfl⟩ := strand.exists_path (ranked.acyclic cut)
    exact paths path simple
  intro error herror
  rw [Engine.run_build] at herror
  cases hfunctions : Compile.functions (e.setting r a) id target with
  | ok fs =>
    rw [hfunctions] at herror
    cases herror
  | error error' =>
    rw [hfunctions] at herror
    cases herror
    exact Compile.functions_not_tooDeep strands depth hfunctions

/-! ## A recursive list -/

namespace Links

def graph : TypeGraph where
  nodes := #[
    ⟨.objectLiteral [⟨1⟩, ⟨2⟩], some "Link"⟩,
    ⟨.property "next" ⟨0⟩ true false, none⟩,
    ⟨.property "item" ⟨3⟩ false false, none⟩,
    ⟨.union [⟨4⟩, ⟨0⟩], none⟩,
    ⟨.classType "Date" [], none⟩]
  roots := [("Link", ⟨0⟩)]

def sample : Sample := { graph }

/-- What is computed here: the type is lowered to five nodes, of which a link is circular; circular
nodes have functions, and the engine may go deep enough for them. -/
theorem computed : sample.loads = true ∧ sample.arena.size = 5 ∧
    (∀ id ∈ sample.arena.ids, ∀ child ∈ (sample.arena.node id).children, child ∈ sample.arena.ids) ∧
    (sample.arena.node sample.node).isCircular = true ∧
    (∀ id ∈ sample.arena.ids, (sample.arena.node id).isCircular = true →
      (sample.arena.node id).hasBody = true) ∧
    (2 * (sample.engine.setting .empty sample.arena).ownIdentities.card + 1) * 5 < sample.maxDepth := by
  decide +kernel

theorem builds_not_tooDeep : (sample.arena.node sample.node).isCircular = true ∧ ∀ target error,
    ((sample.engine.build sample.arena sample.node target).run.run .empty).1 = .error error →
      ¬error.TooDeep := by
  obtain ⟨loads, size, closed, circular, bodies, depth⟩ := computed
  have paths (path : List NodeId) (h : sample.arena.SimplePath path) : path.length ≤ 5 :=
    (h.length_le closed (by omega)).trans size.le
  exact ⟨circular, Engine.build_not_tooDeep (Sample.loaded loads) (Arena.cut_of_bodies bodies) paths
    .empty depth sample.node⟩

end Links

/-! ## A shared member

Two objects with one property, whose type is the second of them.  The walk of lowering comes to the
property first, so that it is the property that is found to be circular.
-/

namespace SharedMember

def graph : TypeGraph where
  nodes := #[
    ⟨.objectLiteral [⟨1⟩], none⟩,
    ⟨.property "next" ⟨2⟩ true false, none⟩,
    ⟨.objectLiteral [⟨1⟩], none⟩]
  roots := [("Root", ⟨0⟩)]

def sample : Sample := { graph }

/-- What is computed here: the type is lowered to three nodes, of which the property alone is
circular, and its build stops. -/
theorem computed : sample.loads = true ∧ sample.arena.size = 3 ∧
    (∀ id ∈ sample.arena.ids, ∀ child ∈ (sample.arena.node id).children, child ∈ sample.arena.ids) ∧
    Except.error? ((sample.engine.build sample.arena sample.node .isType).run.run .empty).1 =
      some (.maxDepth 64 ("$" ++ String.join (List.replicate 32 ".next"))) := by
  decide +kernel

/-- Of three nodes none is met twice on a simple path, but the build goes round until it has gone as
deep as it may. -/
theorem too_deep : sample.engine.load graph ⟨0⟩ = .ok sample.arena ∧
    (∀ path, sample.arena.SimplePath path → path.length ≤ sample.maxDepth / 2) ∧
    ((sample.engine.build sample.arena sample.node .isType).run.run .empty).1 =
      .error (.maxDepth 64 ("$" ++ String.join (List.replicate 32 ".next"))) := by
  obtain ⟨loads, size, closed, stop⟩ := computed
  refine ⟨Sample.loaded loads, fun path h => ?_, Except.error?_eq_some.mp stop⟩
  have hle := h.length_le closed (by omega)
  have hdepth : 3 ≤ sample.maxDepth / 2 := by decide
  exact (hle.trans size.le).trans hdepth

end SharedMember

/-! ## Walks through several functions

Three objects, one inside the other, and below all of them an array of the three. The
test that the array's union asks for comes to the innermost object first, goes down
to the union from there, comes to the object around it, and so on.
-/

namespace Descents

def graph : TypeGraph where
  nodes := #[
    ⟨.objectLiteral [⟨1⟩, ⟨5⟩], none⟩,
    ⟨.property "a" ⟨2⟩ false false, none⟩,
    ⟨.objectLiteral [⟨3⟩, ⟨5⟩], none⟩,
    ⟨.property "a" ⟨4⟩ false false, none⟩,
    ⟨.objectLiteral [⟨5⟩], none⟩,
    ⟨.property "b" ⟨6⟩ false false, none⟩,
    ⟨.array ⟨7⟩, none⟩,
    ⟨.union [⟨4⟩, ⟨2⟩, ⟨0⟩], none⟩]
  roots := [("Root", ⟨0⟩)]

/-- The engine may go deep enough for two paths through all eight nodes. -/
def sample : Sample := { graph, engine := { config := { maxDepth := 20 } } }

/-- What is computed here: the type is lowered to eight nodes, circular ones have functions, and
the build of the report stops. -/
theorem computed : sample.loads = true ∧ sample.arena.size = 8 ∧
    (∀ id ∈ sample.arena.ids, ∀ child ∈ (sample.arena.node id).children, child ∈ sample.arena.ids) ∧
    (∀ id ∈ sample.arena.ids, (sample.arena.node id).isCircular = true →
      (sample.arena.node id).hasBody = true) ∧
    Except.error? ((sample.engine.build sample.arena sample.node .typeErrors).run.run .empty).1 =
      some (.maxDepth 20 "$.a.a.b[*].b[*].b[*].b[*]") := by
  decide +kernel

/-- Of eight nodes none is met twice on a simple path, and all cycles are cut, but the build of the
report passes through the array once for each object, and once more. -/
theorem report_too_deep : sample.engine.load graph ⟨0⟩ = .ok sample.arena ∧ sample.arena.Cut ∧
    (∀ path, sample.arena.SimplePath path → path.length ≤ sample.maxDepth / 2) ∧
    ((sample.engine.build sample.arena sample.node .typeErrors).run.run .empty).1 =
      .error (.maxDepth 20 "$.a.a.b[*].b[*].b[*].b[*]") := by
  obtain ⟨loads, size, closed, bodies, stop⟩ := computed
  refine ⟨Sample.loaded loads, Arena.cut_of_bodies bodies, fun path h => ?_,
    Except.error?_eq_some.mp stop⟩
  have hle := h.length_le closed (by omega)
  have hdepth : 8 ≤ sample.maxDepth / 2 := by decide
  exact (hle.trans size.le).trans hdepth

end Descents

end Typeforge
