/-
# `Typeforge.Proofs.Running.Alike` — programs that find the same functions run alike

Code finds functions by their keys and revivers by the names of classes, and of all else that
a program is, a run depends on the number of its functions only, which bounds the calls in it.
In what order the functions stand makes no difference.
-/
import Mathlib.Data.List.Nodup
import Typeforge.Handle

namespace Typeforge

namespace Program

/-- Programs that code cannot tell apart. -/
structure Alike (p q : Program) : Prop where
  body : ∀ key, p.body? key = q.body? key
  size : p.functions.length = q.functions.length
  revivers : p.revivers = q.revivers

namespace Alike

variable {p q : Program}

theorem steps_eq (h : p.Alike q) (v : Value) : p.steps v = q.steps v := by
  rw [steps, steps, h.size]

/-! ## Tests -/

theorem checkCall_eq (h : p.Alike q) (steps : Nat) : p.checkCall steps = q.checkCall steps := by
  induction steps with
  | zero => rfl
  | succ steps ih =>
    funext identity v
    rw [checkCall, checkCall, h.body, ih]

theorem check_eq (h : p.Alike q) : p.check = q.check := by
  funext c v
  rw [check, check, h.steps_eq, h.checkCall_eq]

theorem isType_eq (h : p.Alike q) : p.isType = q.isType := by
  funext identity v
  rw [isType, isType, h.body, h.check_eq]

/-! ## Reports -/

theorem reportCall_eq (h : p.Alike q) (steps : Nat) : p.reportCall steps = q.reportCall steps := by
  induction steps with
  | zero => rfl
  | succ steps ih =>
    funext identity base v
    rw [reportCall, reportCall, h.body, h.check_eq, ih]

theorem typeErrors_eq (h : p.Alike q) : p.typeErrors = q.typeErrors := by
  funext identity v
  rw [typeErrors, typeErrors, h.steps_eq, h.reportCall_eq]

/-! ## Encoders and decoders -/

theorem transformCall_eq (h : p.Alike q) (target : Target) (steps : Nat) :
    p.transformCall target steps = q.transformCall target steps := by
  induction steps with
  | zero => rfl
  | succ steps ih =>
    funext identity v
    rw [transformCall, transformCall, h.body, h.check_eq, h.revivers, ih]

theorem transform_eq (h : p.Alike q) : p.transform = q.transform := by
  funext identity target v
  rw [transform, transform, h.steps_eq, h.transformCall_eq]

/-! ## Emitters -/

theorem omitsCall_eq (h : p.Alike q) (steps : Nat) : p.omitsCall steps = q.omitsCall steps := by
  induction steps with
  | zero => rfl
  | succ steps ih =>
    funext identity v
    rw [omitsCall, omitsCall, h.body, ih]

theorem omits_eq (h : p.Alike q) : p.omits = q.omits := by
  funext identity v
  rw [omits, omits, h.steps_eq, h.omitsCall_eq]

theorem emitCall_eq (h : p.Alike q) (steps : Nat) : p.emitCall steps = q.emitCall steps := by
  induction steps with
  | zero => rfl
  | succ steps ih =>
    funext identity v
    rw [emitCall, emitCall, h.body, h.check_eq, h.omits_eq, ih]

theorem stringify_eq (h : p.Alike q) : p.stringify = q.stringify := by
  funext identity v
  rw [stringify, stringify, h.body, h.check_eq, h.omits_eq, h.steps_eq, h.emitCall_eq]

end Alike

end Program

/-! ## Registries -/

namespace Registry

variable {r r' : Registry} {f : Function} {key : FunctionKey}

/-- The function that is found by a key is the one that has it. -/
theorem find?_key_iff : r.functions.find? (·.key == key) = some f ↔ f ∈ r.functions ∧ f.key = key := by
  constructor
  · intro h
    exact ⟨List.mem_of_find?_eq_some h, by simpa using List.find?_some h⟩
  · rintro ⟨hf, rfl⟩
    cases hfound : r.functions.find? (·.key == f.key) with
    | none => exact absurd (beq_self_eq_true f.key) (List.find?_eq_none.mp hfound f hf)
    | some g =>
      have hkey : g.key = f.key := by simpa using List.find?_some hfound
      rw [List.inj_on_of_nodup_map r.distinct (List.mem_of_find?_eq_some hfound) hf hkey]

/-- Registries with the same functions in any order are alike to code. -/
theorem alike_of_perm (h : r.functions.Perm r'.functions) (revivers : Revivers) :
    Program.Alike ⟨r.functions, revivers⟩ ⟨r'.functions, revivers⟩ := by
  refine ⟨fun key => congrArg (Option.map Function.body) (Option.ext fun f => ?_), h.length_eq, rfl⟩
  rw [find?_key_iff, find?_key_iff, h.mem_iff]

end Registry

namespace Handle

/-- Two handles, each in its registry, that give the same results whatever they are called with. -/
structure Alike (h : Handle) (r : Registry) (h' : Handle) (r' : Registry) : Prop where
  isType : h.isType r = h'.isType r'
  typeErrors : h.typeErrors r = h'.typeErrors r'
  transform : h.transform r = h'.transform r'
  encode : h.encode r = h'.encode r'
  decode : h.decode r = h'.decode r'
  parse : h.parse r = h'.parse r'
  stringify : h.stringify r = h'.stringify r'

/-- **A handle gives the same results in any registry of the same functions.** -/
theorem alike_of_perm {r r' : Registry} (perm : r.functions.Perm r'.functions) (h : Handle) :
    h.Alike r h r' := by
  have same : (h.program r).Alike (h.program r') := Registry.alike_of_perm perm h.revivers
  have transform : h.transform r = h.transform r' := by
    funext v
    rw [Handle.transform, Handle.transform, same.transform_eq]
  have decode : h.decode r = h.decode r' := by
    funext j
    rw [Handle.decode, Handle.decode, transform]
  refine ⟨?_, ?_, transform, ?_, decode, ?_, ?_⟩
  · funext v
    rw [Handle.isType, Handle.isType, same.isType_eq]
  · funext v base
    rw [Handle.typeErrors, Handle.typeErrors, same.typeErrors_eq]
  · funext v
    rw [encode, encode, transform]
  · funext text
    rw [parse, parse, decode]
  · funext v
    rw [Handle.stringify, Handle.stringify, same.stringify_eq]

end Handle

end Typeforge
