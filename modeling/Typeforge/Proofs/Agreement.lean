/-
# `Typeforge.Proofs.Agreement` — the two ways to validate agree

A value passes the test of a type exactly when the report of the type finds no
errors in it.  Neither function is compiled from the other: what they share is
the unfolded type, which the test judges the value by and of which the report
finds the faults.

`Handle.isType_iff_typeErrors_eq_nil` says so of two functions that one engine has
built for a node, among whatever else.  Identities have to be faithful, since either
function may call functions of other types by theirs, and both runs have to come to
an end, since one that is cut off says neither yes nor no.
-/
import Typeforge.Proofs.Running.Reports
import Typeforge.Proofs.Samples

namespace Typeforge

namespace Handle

variable {e : Engine} {a : Arena} {r : Registry} {handles : List (NodeId × Handle)}

/-- **A value passes the test of a type exactly when its report has no errors.** The two functions
are built for a node of any arena, among whatever else the engine builds into its registry, and
both finish on the value. -/
theorem isType_iff_typeErrors_eq_nil (faithful : a.Faithful) (built : e.Builds a r handles)
    {id : NodeId} {check report : Handle} (hcheck : (id, check) ∈ handles)
    (checks : check.key.target = .isType) (hreport : (id, report) ∈ handles)
    (reports : report.key.target = .typeErrors) {v : Value}
    (checkEnds : (check.program r).isType check.key.identity v ≠ .error .cutOff)
    (reportEnds : (report.program r).typeErrors report.key.identity v ≠ .error .cutOff)
    (base : List PathItem) :
    check.isType r v = true ↔ report.typeErrors r v base = [] := by
  obtain ⟨hr, hhandles⟩ := built.compiled
  obtain ⟨hckey, hcid, -⟩ := hhandles _ hcheck
  obtain ⟨hrkey, hrid, -⟩ := hhandles _ hreport
  dsimp only at hckey hcid hrkey hrid
  have hckey : ⟨(a.node id).identity, .isType⟩ ∈ r.keys := by
    rw [← hcid, ← checks]
    exact hckey
  have hrkey : ⟨(a.node id).identity, .typeErrors⟩ ∈ r.keys := by
    rw [← hrid, ← reports]
    exact hrkey
  rw [hcid] at checkEnds
  rw [hrid] at reportEnds
  obtain ⟨b, hb, hjudges⟩ := Program.judges_of_isType faithful hr hckey checkEnds
  obtain ⟨errors, faults, herrors, hfaults, hreported⟩ :=
    Program.reported_of_typeErrors report.revivers False faithful hr False.elim hrkey reportEnds
  have hisType : check.isType r v = b := by
    rw [isType, hcid, program, hb]
  have htypeErrors : report.typeErrors r v base =
      errors.map fun e => { e with path := base ++ e.path } := by
    rw [typeErrors, hrid, program, herrors]
  rw [hisType, htypeErrors, List.map_eq_nil_iff, ← List.isEmpty_iff, hreported.isEmpty_eq,
    hjudges.unique hfaults.judges]

end Handle

/-! ## Trees with a next tree

A class that is recursive through an array, a union and an optional element of
a tuple, so that both of its functions call themselves.
-/

namespace TreeClass

def sample : Sample where
  graph := {
    nodes := #[
      ⟨.classType "Tree" [⟨1⟩, ⟨3⟩, ⟨5⟩], some "Tree"⟩,
      ⟨.property "name" ⟨2⟩ false false, none⟩,
      ⟨.string, none⟩,
      ⟨.property "parts" ⟨4⟩ true false, none⟩,
      ⟨.array ⟨0⟩, none⟩,
      ⟨.property "next" ⟨6⟩ false false, none⟩,
      ⟨.tuple [⟨7⟩, ⟨9⟩], none⟩,
      ⟨.tupleMember ⟨8⟩ false none, none⟩,
      ⟨.union [⟨0⟩, ⟨10⟩], none⟩,
      ⟨.tupleMember ⟨4⟩ true none, none⟩,
      ⟨.null, none⟩]
    roots := [("Tree", ⟨0⟩)] }
  targets := [.typeErrors, .isType]

def check : Handle := sample.handle .isType

def report : Handle := sample.handle .typeErrors

/-- A tree whose next tree has a part without a next. -/
def value : Value :=
  let leaf : Value := .object [("name", .string "leaf"), ("next", .array [.null, .array []])]
  let stub : Value := .object [("name", .string "stub")]
  let inner : Value := .object [("next", .array [.null]), ("name", .string "inner"),
    ("parts", .array [leaf, stub])]
  .object [("name", .string "outer"), ("parts", .array [leaf]), ("next", .array [inner, .undefined])]

/-- What is computed here: the type is lowered, its functions are built and end. -/
theorem computed : sample.loads = true ∧ sample.isFaithful = true ∧ sample.isBuilt = true ∧
    ((check.program sample.registry).isType check.key.identity value).isOk = true ∧
    ((report.program sample.registry).typeErrors report.key.identity value).isOk = true := by
  decide +kernel

theorem isType_iff_no_errors :
    sample.engine.load sample.graph sample.root = .ok sample.arena ∧ sample.arena.Faithful ∧
    (check.isType sample.registry value = true ↔
      report.typeErrors sample.registry value [] = []) := by
  obtain ⟨loads, faithful, built, checkEnds, reportEnds⟩ := computed
  have faithful := Sample.faithful faithful
  refine ⟨Sample.loaded loads, faithful, Handle.isType_iff_typeErrors_eq_nil faithful
    (Sample.builds built) ?_ rfl (Sample.mem_handles List.mem_cons_self) rfl
    (Except.ne_error_of_isOk checkEnds _) (Except.ne_error_of_isOk reportEnds _) []⟩
  exact Sample.mem_handles (List.mem_cons_of_mem _ List.mem_cons_self)

end TreeClass

end Typeforge
