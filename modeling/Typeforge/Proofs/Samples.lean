/-
# `Typeforge.Proofs.Samples` — types to try theorems on

The theorems about built functions ask that a type was lowered, that identities are
faithful, and that the functions were built one after the other.  For a type given by a
graph all of this can be computed.  A `Sample` is such a type, together with an engine
and with the targets that its root is built for, and what is found by computing is
turned into the hypotheses here: `Sample.loaded`, `Sample.faithfulLowering` and
`Sample.builds`, and of a function `Sample.exists_signature`.
-/
import Typeforge.Proofs.Compiling.Built
import Typeforge.Proofs.Lowering.Merging
import Typeforge.Proofs.Types.Faithful
import Typeforge.Signature

namespace Typeforge

/-- A type, and an engine that builds functions of it. -/
structure Sample where
  graph : TypeGraph
  root : TypeId := ⟨0⟩
  engine : Engine := {}
  /-- What functions of the root are built for, the last one first. -/
  targets : List Target := []

/-- A lowering whose two arenas are found to be faithful. -/
theorem Arena.faithfulLowering_of_isFaithful {g : TypeGraph} {root : TypeId} {maxDepth : Nat}
    {a : Arena} (before : (((Arena.beforeMerging g root maxDepth).toOption).getD
      ⟨#[], ⟨0⟩⟩).isFaithful = true) (faithful : a.isFaithful = true) :
    Arena.FaithfulLowering g root maxDepth a := by
  refine ⟨fun b hb => ?_, faithful_of_isFaithful faithful⟩
  rw [hb] at before
  exact faithful_of_isFaithful before

namespace Sample

variable (s : Sample)

/-! ## Lowering -/

def maxDepth : Nat := s.engine.config.maxDepth

/-- The type as it is lowered. -/
def arena : Arena := ((s.engine.load s.graph s.root).toOption).getD ⟨#[], ⟨0⟩⟩

/-- The node of the type itself. -/
def node : NodeId := s.arena.root

/-- The type as it is before index signatures are merged. -/
def unmerged : Arena :=
  ((Arena.beforeMerging s.graph s.root s.maxDepth).toOption).getD ⟨#[], ⟨0⟩⟩

def loads : Bool := (s.engine.load s.graph s.root).isOk

/-- Whether identities are found to be faithful whenever they are compared. -/
def isFaithful : Bool := s.unmerged.isFaithful && s.arena.isFaithful

variable {s}

theorem loaded (h : s.loads = true) : s.engine.load s.graph s.root = .ok s.arena :=
  Except.eq_ok_getD h _

theorem lowered (h : s.loads = true) : Arena.lower s.graph s.root s.maxDepth = .ok s.arena := by
  obtain ⟨-, -, hlower⟩ := Except.bind_eq_ok.mp (loaded h)
  exact hlower

theorem faithfulLowering (h : s.isFaithful = true) :
    Arena.FaithfulLowering s.graph s.root s.maxDepth s.arena := by
  obtain ⟨before, faithful⟩ := Bool.and_eq_true_iff.mp h
  exact Arena.faithfulLowering_of_isFaithful before faithful

theorem faithful (h : s.isFaithful = true) : s.arena.Faithful := (faithfulLowering h).lowered

variable (s)

/-- Whether a node is a type by itself, neither a property nor a node that stands for another. -/
def isOwnAt (id : NodeId) : Bool :=
  (s.arena.node id).standsFor?.isNone && (s.arena.propertyName? id).isNone

/-- Whether the node of the type is one by itself. -/
def isOwn : Bool := s.isOwnAt s.node

variable {s}

theorem ownAt {id : NodeId} (h : s.isOwnAt id = true) :
    (s.arena.node id).standsFor? = none ∧ s.arena.propertyName? id = none := by
  obtain ⟨stands, property⟩ := Bool.and_eq_true_iff.mp h
  exact ⟨Option.isNone_iff_eq_none.mp stands, Option.isNone_iff_eq_none.mp property⟩

theorem own (h : s.isOwn = true) :
    (s.arena.node s.node).standsFor? = none ∧ s.arena.propertyName? s.node = none := ownAt h

/-! ## Building -/

variable (s)

/-- The function of a node for a target. -/
def handleAt (id : NodeId) (target : Target) : Handle :=
  ⟨⟨(s.arena.node id).identity, target⟩, s.engine.revivers⟩

/-- The registry when functions have been built of some nodes, the last one first. -/
def registryOf : List (NodeId × Target) → Registry
  | [] => .empty
  | (id, target) :: earlier => ((s.engine.build s.arena id target).run.run (registryOf earlier)).2

/-- Whether functions are built of all of some nodes, the last one first. -/
def buildsOf : List (NodeId × Target) → Bool
  | [] => true
  | (id, target) :: earlier => buildsOf earlier &&
      (Compile.functions (s.engine.setting (s.registryOf earlier) s.arena) id target).isOk

variable {s}

theorem builds_registryOf {parts : List (NodeId × Target)} (h : s.buildsOf parts = true) :
    s.engine.Builds s.arena (s.registryOf parts) (parts.map fun x => (x.1, s.handleAt x.1 x.2)) := by
  induction parts with
  | nil => exact .fresh
  | cons part earlier ih =>
    obtain ⟨hearlier, compiles⟩ := Bool.and_eq_true_iff.mp h
    exact .build (ih hearlier) (Prod.ext (Engine.run_build_fst compiles) rfl)

variable (s)

/-- The function of the type for a target. -/
def handle (target : Target) : Handle := s.handleAt s.node target

def registry : Registry := s.registryOf (s.targets.map fun target => (s.node, target))

def isBuilt : Bool := s.buildsOf (s.targets.map fun target => (s.node, target))

/-- The functions that are built, the last one first. -/
def handles : List (NodeId × Handle) := s.targets.map fun target => (s.node, s.handle target)

variable {s}

theorem builds (h : s.isBuilt = true) : s.engine.Builds s.arena s.registry s.handles := by
  have := builds_registryOf h
  rwa [List.map_map] at this

theorem mem_handles {target : Target} (h : target ∈ s.targets) :
    (s.node, s.handle target) ∈ s.handles := List.mem_map_of_mem h

/-- All functions that are built are of one node. -/
theorem forall_handles {P : NodeId → Prop} (h : P s.node) : ∀ x ∈ s.handles, P x.1 :=
  List.forall_mem_map.mpr fun _ _ => h

variable (s)

/-- The signature of the type, which is a function, and the registry that it is built in. -/
def signature (skip : Nat) : Except CompileError Signature × Registry :=
  (Signature.build s.engine s.arena skip).run.run .empty

variable {s}

/-- A signature that is found to be built, and to pass a test. -/
theorem exists_signature {skip : Nat} {test : Signature → Bool}
    (h : (s.signature skip).1.toOption.any test = true) :
    ∃ sig, s.signature skip = (.ok sig, (s.signature skip).2) ∧ test sig = true := by
  obtain ⟨sig, built, passed⟩ := Except.exists_of_any h
  exact ⟨sig, Prod.ext built rfl, passed⟩

end Sample

end Typeforge
