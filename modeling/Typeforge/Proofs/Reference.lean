/-
# `Typeforge.Proofs.Reference` — built reports and the plain validator

A built report finds out where errors are in two stages: while it is compiled,
where it stands below the function under construction, with a number for each
loop; while it runs, what those loops have come to, and how the caller's path
begins.  All that comes to nothing more than writing down each step on the way:
what a report answers is what the validator that recurses over the arena answers,
errors, paths and order alike.

`Handle.arrives_validate_typeErrors` has the two side by side, for any value and below
any path.  Loops have no more than 256 numbers, and so the depth of the walk must be
kept below that.  The validator does not go by identities, so that they must be
faithful for the report to be of the same type.  It has no answer where it would go
round for ever, and so the run of the report has to end.
-/
import Typeforge.Proofs.Running.Reports
import Typeforge.Proofs.Samples
import Typeforge.Proofs.Types.Validator

namespace Typeforge

namespace Handle

variable {e : Engine} {a : Arena} {r : Registry} {handles : List (NodeId × Handle)}

/-- **A built report answers what the validator answers**, for every value on which it comes to an
end, and below every path. -/
theorem arrives_validate_typeErrors (faithful : a.Faithful) (built : e.Builds a r handles)
    (depth : e.config.maxDepth ≤ 256) {id : NodeId} {report : Handle}
    (hreport : (id, report) ∈ handles) (reports : report.key.target = .typeErrors) {v : Value}
    (ends : (report.program r).typeErrors report.key.identity v ≠ .error .cutOff)
    (base : List PathItem) :
    Arrives (fun n => a.validate n id base v) (report.typeErrors r v base) := by
  obtain ⟨hr, hhandles⟩ := built.compiled
  obtain ⟨hkey, hid, -⟩ := hhandles _ hreport
  dsimp only at hkey hid
  have hkey : ⟨(a.node id).identity, .typeErrors⟩ ∈ r.keys := by
    rw [← hid, ← reports]
    exact hkey
  have room : True → e.config.maxDepth - 1 < 256 := fun _ => by omega
  rw [hid] at ends
  obtain ⟨errors, faults, herrors, hfaults, hreported⟩ :=
    Program.reported_of_typeErrors report.revivers True faithful hr room hkey ends
  have herrors : report.typeErrors r v base = faults.map (.below base) := by
    have hsame : errors = faults := by
      rw [hreported.eq_map_below trivial, ValidationError.map_below_nil]
    rw [typeErrors, hid, program, herrors, hsame]
    rfl
  rw [herrors]
  exact Arena.arrives_validate rfl base hfaults

end Handle

/-! ## Shelves of boxes

An object type that is recursive through arrays of tuples, below a property and
below an index signature, so that loops are entered in several functions and a
path is put together from all of them.
-/

namespace Shelves

def sample : Sample where
  graph := {
    nodes := #[
      ⟨.objectLiteral [⟨1⟩, ⟨3⟩, ⟨8⟩], some "Box"⟩,
      ⟨.property "label" ⟨2⟩ false false, none⟩,
      ⟨.string, none⟩,
      ⟨.property "rows" ⟨4⟩ true false, none⟩,
      ⟨.array ⟨5⟩, none⟩,
      ⟨.tuple [⟨6⟩, ⟨9⟩], none⟩,
      ⟨.tupleMember ⟨7⟩ false none, none⟩,
      ⟨.number, none⟩,
      ⟨.indexSignature ⟨2⟩ ⟨4⟩, none⟩,
      ⟨.rest ⟨0⟩, none⟩]
    roots := [("Box", ⟨0⟩)] }
  targets := [.typeErrors]

def handle : Handle := sample.handle .typeErrors

/-- A box with a box in a row of its own, in which a label and a row are wrong. -/
def value : Value :=
  let inner : Value := .object [("label", .null), ("side", .array [.array [.string "two"], .null])]
  .object [("rows", .array [.array [.number 1, inner]]), ("label", .string "outer")]

/-- What is computed here: the type is lowered, its function is built and reports the value. -/
theorem computed : sample.loads = true ∧ sample.isFaithful = true ∧ sample.isBuilt = true ∧
    ((handle.program sample.registry).typeErrors handle.key.identity value).isOk = true ∧
    handle.typeErrors sample.registry value [] =
      [⟨[.key "rows", .index 0, .index 1, .key "label"], "string"⟩,
        ⟨[.key "rows", .index 0, .index 1, .key "side", .index 0, .index 0], "number"⟩,
        ⟨[.key "rows", .index 0, .index 1, .key "side", .index 1], "tuple"⟩] := by
  decide +kernel

theorem arrives_validate_value :
    sample.engine.load sample.graph sample.root = .ok sample.arena ∧ sample.arena.Faithful ∧
    Arrives (fun n => sample.arena.validate n sample.node [] value)
      [⟨[.key "rows", .index 0, .index 1, .key "label"], "string"⟩,
        ⟨[.key "rows", .index 0, .index 1, .key "side", .index 0, .index 0], "number"⟩,
        ⟨[.key "rows", .index 0, .index 1, .key "side", .index 1], "tuple"⟩] := by
  obtain ⟨loads, isFaithful, built, ends, typeErrors_value⟩ := computed
  have faithful := Sample.faithful isFaithful
  refine ⟨Sample.loaded loads, faithful, ?_⟩
  rw [← typeErrors_value]
  exact Handle.arrives_validate_typeErrors faithful (Sample.builds built) (by decide)
    (Sample.mem_handles List.mem_cons_self) rfl (Except.ne_error_of_isOk ends _) []

end Shelves

end Typeforge
