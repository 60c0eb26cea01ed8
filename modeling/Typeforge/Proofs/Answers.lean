/-
# `Typeforge.Proofs.Answers` — what a handle answers rests on its type alone

Two handles may lead to very different code: inlined or called, compiled from
this arena or that one, in a registry of one function or of hundreds.  As long
as both are for one unfolded type, and know the same revivers, their callers
cannot tell them apart — but for one thing.  A value that is no member of a
union is reported with the union's name, and the name is that of the node the
code was compiled from, which the unfolded type does not determine.
-/
import Typeforge.Proofs.Running.Emits
import Typeforge.Proofs.Running.Reports
import Typeforge.Proofs.Types.Validator

namespace Typeforge

/-! ## Answers -/

/-- What the function of a handle answers, whatever it was built for. -/
inductive Answer where
  | test (passed : Except Halt Bool)
  | report (errors : Except Halt (List ValidationError))
  | change (changed : Changed)
  | text (written : Except Halt String)

namespace Answer

/-- Whether a run has come to its end. -/
def Finished : Answer → Prop
  | test passed => passed ≠ .error .cutOff
  | report errors => errors ≠ .error .cutOff
  | change changed => changed.stop ≠ some .cutOff
  | text written => written ≠ .error .cutOff

/-- An answer, without the names of unions in its errors. -/
def unnamed : Answer → Answer
  | change changed => change changed.unnamed
  | text written => text (written.mapError Halt.unnamed)
  | answer => answer

end Answer

namespace Handle

/-- What the function of a handle makes of a value. -/
def answer (h : Handle) (r : Registry) (v : Value) : Answer :=
  match h.key.target with
  | .isType => .test ((h.program r).isType h.key.identity v)
  | .typeErrors => .report ((h.program r).typeErrors h.key.identity v)
  | .jsonEncode | .jsonDecode => .change (h.transform r v)
  | .jsonStringify => .text (h.stringify r v)

/-- A handle of a registered function for a type: the registry is filled from lowered arenas, in
which a node with the handle's identity has the type. -/
structure For (arenas : Set Arena) (r : Registry) (t : TypeTree) (h : Handle) : Prop where
  filled : r.FilledFrom arenas 255
  marked : ∀ a ∈ arenas, a.Marked
  registered : h.key ∈ r.keys
  type : ∃ a ∈ arenas, ∃ id, h.key.identity = (a.node id).identity ∧ a.unfolding id = t

/-! ## One type, one answer -/

section Answers

variable {arenas arenas' : Set Arena} {r r' : Registry} {t : TypeTree} {h h' : Handle} {v : Value}

/-- The node a handle is for, once its target is known. -/
theorem For.exists_node (hfor : h.For arenas r t) {target : Target} (htarget : h.key.target = target) :
    ∃ a ∈ arenas, ∃ id, h.key.identity = (a.node id).identity ∧ a.unfolding id = t ∧
      ⟨(a.node id).identity, target⟩ ∈ r.keys := by
  obtain ⟨a, ha, id, hid, htree⟩ := hfor.type
  refine ⟨a, ha, id, hid, htree, ?_⟩
  rw [← hid, ← htarget]
  exact hfor.registered

/-- A test answers as its type judges. -/
theorem For.judges (hfor : h.For arenas r t) (htarget : h.key.target = .isType)
    (ends : (h.program r).isType h.key.identity v ≠ .error .cutOff) :
    ∃ b, (h.program r).isType h.key.identity v = .ok b ∧ Judges t v b := by
  obtain ⟨a, ha, id, hid, rfl, hkey⟩ := hfor.exists_node htarget
  rw [hid] at ends ⊢
  exact Program.judges_of_isType_among h.revivers hfor.filled ha hkey ends

/-- A report answers with the faults of its type. -/
theorem For.faults (hfor : h.For arenas r t) (htarget : h.key.target = .typeErrors)
    (ends : (h.program r).typeErrors h.key.identity v ≠ .error .cutOff) :
    ∃ errors, (h.program r).typeErrors h.key.identity v = .ok errors ∧ Faults t v errors := by
  obtain ⟨a, ha, id, hid, rfl, hkey⟩ := hfor.exists_node htarget
  rw [hid] at ends ⊢
  obtain ⟨errors, faults, herrors, hfaults, hreported⟩ :=
    Program.reported_of_typeErrors_among h.revivers True hfor.filled ha (fun _ => by decide) hkey
      ends
  have hsame : errors = faults := by
    rw [hreported.eq_map_below trivial, ValidationError.map_below_nil]
  exact ⟨errors, herrors, hsame ▸ hfaults⟩

/-- An encoder or decoder does what its type does. -/
theorem For.alters (hfor : h.For arenas r t) {w : Way} (htarget : h.key.target = w.target)
    (ends : (h.transform r v).stop ≠ some .cutOff) :
    ∃ n, ∀ m, n ≤ m → (h.transform r v).unnamed = TypeTree.alter w h.revivers m t v := by
  obtain ⟨a, ha, id, hid, rfl, hkey⟩ := hfor.exists_node htarget
  rw [transform, hid, htarget] at ends ⊢
  obtain ⟨n, hn⟩ := Program.within_transform h.revivers hfor.filled hfor.marked ha hkey v
  exact ⟨n, fun m hm => (hn m hm).resolve_left ends⟩

/-- An emitter writes what its type says. -/
theorem For.writes (hfor : h.For arenas r t) (htarget : h.key.target = .jsonStringify)
    (ends : h.stringify r v ≠ .error .cutOff) :
    ∃ n, ∀ m, n ≤ m → (h.stringify r v).mapError Halt.unnamed =
      (TypeTree.placed (TypeTree.leavesOut m) (TypeTree.written m) t v).map (·.getD "null") := by
  obtain ⟨a, ha, id, hid, rfl, hkey⟩ := hfor.exists_node htarget
  rw [stringify, hid] at ends ⊢
  obtain ⟨n, hn⟩ := Program.settles_stringify h.revivers hfor.filled hfor.marked ha hkey v
  exact ⟨n, fun m hm => (hn m hm).resolve_left ends⟩

/-- A value has one list of faults at most. -/
theorem For.faults_unique (hfor : h.For arenas r t) {errors errors' : List ValidationError}
    (hfaults : Faults t v errors) (hfaults' : Faults t v errors') : errors = errors' := by
  obtain ⟨a, -, id, -, rfl⟩ := hfor.type
  have hsame := (Arena.arrives_validate rfl [] hfaults).unique
    (Arena.arrives_validate rfl [] hfaults')
  rwa [ValidationError.map_below_nil, ValidationError.map_below_nil] at hsame

/-- Encoders and decoders of one type make the same of a value. -/
theorem For.change_unnamed (hfor : h.For arenas r t) (hfor' : h'.For arenas' r' t)
    (hrevivers : h.revivers = h'.revivers) {w : Way} (htarget : h.key.target = w.target)
    (htarget' : h'.key.target = w.target) (ends : (h.transform r v).stop ≠ some .cutOff)
    (ends' : (h'.transform r' v).stop ≠ some .cutOff) :
    (h.transform r v).unnamed = (h'.transform r' v).unnamed := by
  obtain ⟨n, hn⟩ := hfor.alters htarget ends
  obtain ⟨k, hk⟩ := hfor'.alters htarget' ends'
  rw [hn (max n k) (le_max_left n k), hk (max n k) (le_max_right n k), hrevivers]

/-- **Handles of one type have one answer**, up to the names of unions in errors. -/
theorem For.answer_unnamed (hfor : h.For arenas r t) (hfor' : h'.For arenas' r' t)
    (targets : h.key.target = h'.key.target) (hrevivers : h.revivers = h'.revivers)
    (ends : (h.answer r v).Finished) (ends' : (h'.answer r' v).Finished) :
    (h.answer r v).unnamed = (h'.answer r' v).unnamed := by
  cases htarget : h.key.target with
  | isType =>
    have htarget' : h'.key.target = .isType := targets ▸ htarget
    simp only [answer, htarget, htarget', Answer.Finished] at ends ends' ⊢
    obtain ⟨b, hb, hjudges⟩ := hfor.judges htarget ends
    obtain ⟨b', hb', hjudges'⟩ := hfor'.judges htarget' ends'
    rw [hb, hb', hjudges.unique hjudges']
  | typeErrors =>
    have htarget' : h'.key.target = .typeErrors := targets ▸ htarget
    simp only [answer, htarget, htarget', Answer.Finished] at ends ends' ⊢
    obtain ⟨errors, herrors, hfaults⟩ := hfor.faults htarget ends
    obtain ⟨errors', herrors', hfaults'⟩ := hfor'.faults htarget' ends'
    rw [herrors, herrors', hfor.faults_unique hfaults hfaults']
  | jsonEncode =>
    have htarget' : h'.key.target = .jsonEncode := targets ▸ htarget
    simp only [answer, htarget, htarget', Answer.Finished, Answer.unnamed] at ends ends' ⊢
    rw [For.change_unnamed (w := .encode) hfor hfor' hrevivers htarget htarget' ends ends']
  | jsonDecode =>
    have htarget' : h'.key.target = .jsonDecode := targets ▸ htarget
    simp only [answer, htarget, htarget', Answer.Finished, Answer.unnamed] at ends ends' ⊢
    rw [For.change_unnamed (w := .decode) hfor hfor' hrevivers htarget htarget' ends ends']
  | jsonStringify =>
    have htarget' : h'.key.target = .jsonStringify := targets ▸ htarget
    simp only [answer, htarget, htarget', Answer.Finished, Answer.unnamed] at ends ends' ⊢
    obtain ⟨n, hn⟩ := hfor.writes htarget ends
    obtain ⟨k, hk⟩ := hfor'.writes htarget' ends'
    rw [hn (max n k) (le_max_left n k), hk (max n k) (le_max_right n k)]

end Answers

end Handle

end Typeforge
