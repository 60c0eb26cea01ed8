/-
# `Typeforge.Proofs.Compiling.Parameters` — the functions of a signature are built

A signature is built parameter by parameter, and for each of them target by target, all of it
into one registry.  None of these builds is special: what an engine has once it has built a
signature, it could have built step by step.  So whatever is known of the functions that an
engine builds is known of those of a signature.
-/
import Typeforge.Proofs.Compiling.Built
import Typeforge.Signature

namespace Typeforge

/-! ## What is built -/

variable {e : Engine} {a : Arena} {r r' : Registry} {handles handles' : List (NodeId × Handle)}
  {id : NodeId}

/-- Whether functions are those that an engine has built for a node, one for each target. -/
def TypeFunctions.BuiltFor (f : TypeFunctions) (handles : List (NodeId × Handle)) (id : NodeId) :
    Prop :=
  ∀ target, (id, f.get target) ∈ handles ∧ (f.get target).key.target = target

/-- Whether a parameter is that of a node, with functions for the type of one argument. -/
structure Parameter.BuiltFor (p : Parameter) (a : Arena) (handles : List (NodeId × Handle))
    (id : NodeId) : Prop where
  optional : p.optional = (a.node id).optional
  functions : ∃ child, (a.node id).shape = .parameter p.name child p.rest ∧
    p.functions.BuiltFor handles child

/-- Whether a signature is that of an arena's root, with the functions of the parameters that are
left in. -/
structure Signature.BuiltFor (s : Signature) (a : Arena) (skip : Nat)
    (handles : List (NodeId × Handle)) : Prop where
  arena : s.arena = a
  root : a.rootNode.shape = .function s.shape
  skip_eq : s.skip = skip
  params : List.Forall₂ (fun id p => p.BuiltFor a handles id) (s.shape.params.drop skip) s.params

theorem TypeFunctions.BuiltFor.mono {f : TypeFunctions} (h : f.BuiltFor handles id)
    (hle : handles ⊆ handles') : f.BuiltFor handles' id := by
  intro target
  obtain ⟨hmem, htarget⟩ := h target
  exact ⟨hle hmem, htarget⟩

theorem Parameter.BuiltFor.mono {p : Parameter} (h : p.BuiltFor a handles id)
    (hle : handles ⊆ handles') : p.BuiltFor a handles' id := by
  obtain ⟨child, hshape, hfunctions⟩ := h.functions
  exact ⟨h.optional, child, hshape, hfunctions.mono hle⟩

/-! ## How it is built -/

/-- The functions for all targets are among those that the engine has built, and it has built no
others on the way. -/
theorem Engine.Builds.buildAll {f : TypeFunctions} (past : e.Builds a r handles)
    (h : (e.buildAll a id).run.run r = (.ok f, r')) :
    ∃ handles', handles ⊆ handles' ∧ e.Builds a r' handles' ∧ f.BuiltFor handles' id ∧
      ∀ x ∈ handles', x ∈ handles ∨ x.1 = id := by
  obtain ⟨r₁, r₂, r₃, r₄, build₁, build₂, build₃, build₄, build₅⟩ := buildAll_eq_ok h
  refine ⟨(id, f.jsonStringify) :: (id, f.jsonDecode) :: (id, f.jsonEncode) ::
    (id, f.typeErrors) :: (id, f.isType) :: handles, ?_,
    ((((past.build build₁).build build₂).build build₃).build build₄).build build₅, ?_, ?_⟩
  · intro x hx
    simp [hx]
  · intro target
    cases target with
    | isType => exact ⟨by simp [TypeFunctions.get], target_of_build build₁⟩
    | typeErrors => exact ⟨by simp [TypeFunctions.get], target_of_build build₂⟩
    | jsonEncode => exact ⟨by simp [TypeFunctions.get], target_of_build build₃⟩
    | jsonDecode => exact ⟨by simp [TypeFunctions.get], target_of_build build₄⟩
    | jsonStringify => exact ⟨by simp [TypeFunctions.get], target_of_build build₅⟩
  · intro x hx
    simp only [List.mem_cons] at hx
    obtain rfl | rfl | rfl | rfl | rfl | hx := hx
    · exact .inr rfl
    · exact .inr rfl
    · exact .inr rfl
    · exact .inr rfl
    · exact .inr rfl
    · exact .inl hx

namespace Signature

theorem exists_built_params {ids : List NodeId} {params : List Parameter} {position : Nat}
    (past : e.Builds a r handles)
    (h : (buildParams e a position ids).run.run r = (.ok params, r')) :
    ∃ handles', handles ⊆ handles' ∧ e.Builds a r' handles' ∧
      List.Forall₂ (fun id p => p.BuiltFor a handles' id) ids params ∧
      ∀ x ∈ handles', x ∈ handles ∨ x.1 ∈ ids.flatMap fun id => (a.node id).children := by
  induction ids generalizing position params r handles with
  | nil =>
    obtain ⟨rfl, rfl⟩ := Registering.run_pure_eq_ok.mp h
    exact ⟨handles, List.Subset.refl _, past, .nil, fun x hx => .inl hx⟩
  | cons id ids ih =>
    rw [buildParams] at h
    split at h
    · rename_i name child rest hshape
      simp only [Registering.run_bind_eq_ok, Registering.run_pure_eq_ok] at h
      obtain ⟨f, r₁, hfirst, more, r₂, hothers, rfl, rfl⟩ := h
      obtain ⟨handles₁, hle₁, past₁, hf, own₁⟩ := past.buildAll hfirst
      obtain ⟨handles₂, hle₂, past₂, hmore, own₂⟩ := ih past₁ hothers
      refine ⟨handles₂, List.Subset.trans hle₁ hle₂, past₂,
        .cons ⟨rfl, child, hshape, hf.mono hle₂⟩ hmore, fun x hx => ?_⟩
      rw [List.flatMap_cons, List.mem_append]
      rcases own₂ x hx with hx | hx
      · refine (own₁ x hx).imp_right fun hchild => .inl ?_
        rw [hchild, Node.children, hshape]
        exact List.mem_singleton_self child
      · exact .inr (.inr hx)
    · cases h

/-- The functions of the parameters are built first, and nothing but them; those of the result come
after them. -/
theorem exists_built_first {skip : Nat} {s : Signature} (past : e.Builds a r handles)
    (h : (Signature.build e a skip).run.run r = (.ok s, r')) :
    ∃ r₁ handles₁, e.Builds a r₁ handles₁ ∧ s.BuiltFor a skip handles₁ ∧
      (∀ x ∈ handles₁, x ∈ handles ∨
        x.1 ∈ (s.shape.params.drop skip).flatMap fun id => (a.node id).children) ∧
      ∃ id, (e.buildAll a id).run.run r₁ = (.ok s.result, r') := by
  rw [Signature.build] at h
  split at h
  · rename_i f hroot
    dsimp only at h
    split at h
    · cases h
    · simp only [Registering.run_bind_eq_ok] at h
      obtain ⟨params, r₁, hparams, result, r₂, hresult, h⟩ := h
      obtain ⟨handles₁, -, past₁, hbuilt, own₁⟩ := exists_built_params past hparams
      split at h
      · cases h
      · obtain ⟨rfl, rfl⟩ := Registering.run_pure_eq_ok.mp h
        exact ⟨r₁, handles₁, past₁, ⟨rfl, hroot, rfl, hbuilt⟩, own₁, _, hresult⟩
  · cases h

/-- **A signature that is built has the functions of its parameters**, built as any others are. -/
theorem exists_built {skip : Nat} {s : Signature} (past : e.Builds a r handles)
    (h : (Signature.build e a skip).run.run r = (.ok s, r')) :
    ∃ handles', e.Builds a r' handles' ∧ s.BuiltFor a skip handles' := by
  obtain ⟨r₁, handles₁, past₁, built, -, id, hresult⟩ := exists_built_first past h
  obtain ⟨handles₂, hle, past₂, -⟩ := past₁.buildAll hresult
  exact ⟨handles₂, past₂, built.arena, built.root, built.skip_eq,
    built.params.imp fun _ _ hp => hp.mono hle⟩

end Signature

end Typeforge
