/-
# `Typeforge.Proofs.Lowering.Errors` — errors that a walk does not end with

A walk fails on its own account when a declaration is out of place, when types nest
too deeply, or at an intersection; and it fails with what looking up a declaration
fails with.  Two errors are neither its own: that a reference leads nowhere, and that
index signatures conflict, which is found out later.  A walk ends with none of these
as long as no reference that it follows does, and it follows the references of the
declarations it comes by, and those of their members.
-/
import Typeforge.Proofs.Lowering.Visits

namespace Typeforge

/-! ## Looking up declarations -/

namespace TypeGraph

variable {g : TypeGraph} {id : TypeId} {bad : CompileError → Prop}

/-- Looking up a declaration does not end with such an error. -/
def Reads (g : TypeGraph) (bad : CompileError → Prop) (id : TypeId) : Prop :=
  ∀ e, g.node id = .error e → ¬bad e

/-- Nor do the references of a declaration. -/
def ReadsOn (g : TypeGraph) (bad : CompileError → Prop) : Prop :=
  ∀ id node, g.node id = .ok node → ∀ child ∈ node.kind.children, g.Reads bad child

theorem Reads.kind (h : g.Reads bad id) (e : CompileError) (hkind : g.kind id = .error e) :
    ¬bad e := by
  rw [TypeGraph.kind] at hkind
  cases hnode : g.node id with
  | error e' =>
    rw [hnode] at hkind
    cases hkind
    exact h e hnode
  | ok node =>
    rw [hnode] at hkind
    cases hkind

theorem ReadsOn.of_kind (reads : g.ReadsOn bad) {kind : TypeKind} (h : g.kind id = .ok kind) :
    ∀ child ∈ kind.children, g.Reads bad child := by
  obtain ⟨node, hnode, rfl⟩ := Except.map_eq_ok.mp h
  exact reads id node hnode

end TypeGraph

namespace Walk

variable {g : TypeGraph} {bad : CompileError → Prop} {α β : Type}

/-- A part of a walk that does not end with such an error. -/
def Avoids (bad : CompileError → Prop) (m : Walk α) : Prop := ∀ s e, m.run s = .error e → ¬bad e

namespace Avoids

theorem pure (x : α) : Avoids bad (pure x : Walk α) := by
  intro s e hrun
  cases hrun

theorem throw {e : CompileError} (h : ¬bad e) : Avoids bad (throw e : Walk α) := by
  intro s e hrun
  cases hrun
  exact h

/-- A change of the state. -/
theorem modify (f : WalkState → WalkState) : Avoids bad (modify f : Walk Unit) := by
  intro s e hrun
  cases hrun

theorem bind {m : Walk α} {f : α → Walk β} (hm : Avoids bad m) (hf : ∀ x, Avoids bad (f x)) :
    Avoids bad (m >>= f) := by
  intro s e hrun
  rw [StateT.run_bind] at hrun
  cases hrun₁ : m.run s with
  | error e' =>
    rw [hrun₁] at hrun
    cases hrun
    exact hm s e hrun₁
  | ok r =>
    rw [hrun₁] at hrun
    exact hf r.1 r.2 e hrun

/-- After a look at a declaration. -/
theorem look {r : Except CompileError α} {f : α → Walk β} (h : ∀ e, r = .error e → ¬bad e)
    (hf : ∀ x, r = .ok x → Avoids bad (f x)) : Avoids bad (liftM r >>= f) := by
  cases r with
  | error e =>
    intro s e' hrun
    cases hrun
    exact h e rfl
  | ok x => exact hf x rfl

end Avoids

/-! ## Members -/

section Members

variable {child : TypeId → Walk NodeId}

theorem avoids_modifyNode (id : NodeId) (f : Node → Node) : Avoids bad (modifyNode id f) :=
  .modify _

variable (hbad : ∀ e, bad e → (∃ id, e = .danglingType id) ∨
  ∃ name, e = .conflictingIndexSignatures name)

include hbad

/-- What is out of place is another error. -/
theorem avoids_unexpected (id : TypeId) (found : TypeKind) (expected : String) :
    Avoids bad (throw (unexpected id found expected) : Walk α) := by
  refine .throw fun h => ?_
  rcases hbad _ h with ⟨_, h⟩ | ⟨_, h⟩ <;> cases h

theorem avoids_enumValues {ids : List TypeId} (reads : ∀ id ∈ ids, g.Reads bad id) :
    Avoids bad (enumValues g ids) := by
  induction ids with
  | nil => exact .pure _
  | cons id rest ih =>
    obtain ⟨hid, hrest⟩ := List.forall_mem_cons.mp reads
    rw [enumValues]
    refine .look hid.kind fun kind _ => ?_
    split
    · exact .bind (ih hrest) fun _ => .pure _
    · exact avoids_unexpected hbad _ _ _

variable (hchild : ∀ type, g.Reads bad type → Avoids bad (child type))

include hchild

theorem avoids_tupleMembers {ids : List TypeId} (reads : ∀ id ∈ ids, g.Reads bad id) :
    Avoids bad (tupleMembers g child ids) := by
  induction ids with
  | nil => exact .pure _
  | cons id rest ih =>
    obtain ⟨hid, hrest⟩ := List.forall_mem_cons.mp reads
    rw [tupleMembers]
    refine .look hid.kind fun kind _ => ?_
    have hmember : Avoids bad (do
        let node ← child id
        if (← shapeOf node).isRest && !rest.isEmpty then
          throw (unexpected id kind "a rest element in last position")
        let nodes ← tupleMembers g child rest
        Pure.pure (node :: nodes) : Walk (List NodeId)) := by
      have htail (node : NodeId) : Avoids bad (do
          let nodes ← tupleMembers g child rest
          Pure.pure (node :: nodes) : Walk (List NodeId)) := .bind (ih hrest) fun _ => .pure _
      have hshape (node : NodeId) : Avoids bad (shapeOf node) := by
        intro s id hrun
        cases hrun
      refine .bind (hchild id hid) fun node => .bind (hshape node) fun shape => ?_
      dsimp only
      split
      · exact .bind (avoids_unexpected hbad _ _ _) fun _ => htail node
      · exact htail node
    dsimp only
    split
    · exact hmember
    · exact hmember
    · exact .bind (avoids_unexpected hbad _ _ _) fun _ => hmember

omit hbad in
theorem avoids_unionMembers {ids : List TypeId} (reads : ∀ id ∈ ids, g.Reads bad id) :
    Avoids bad (unionMembers g child ids) := by
  induction ids with
  | nil => exact .pure _
  | cons id rest ih =>
    obtain ⟨hid, hrest⟩ := List.forall_mem_cons.mp reads
    rw [unionMembers]
    refine .look hid.kind fun kind _ => ?_
    split
    · exact ih hrest
    · exact .bind (hchild id hid) fun _ => .bind (ih hrest) fun _ => .pure _

theorem avoids_parameters {ids : List TypeId} (reads : ∀ id ∈ ids, g.Reads bad id) :
    Avoids bad (parameters g child ids) := by
  induction ids with
  | nil => exact .pure _
  | cons id rest ih =>
    obtain ⟨hid, hrest⟩ := List.forall_mem_cons.mp reads
    rw [parameters]
    refine .look hid.kind fun kind _ => ?_
    split
    · exact .bind (hchild id hid) fun _ => .bind (ih hrest) fun _ => .pure _
    · exact avoids_unexpected hbad _ _ _

theorem avoids_functionShape {form : FunctionForm} {name : Option String}
    {params : List TypeId} {result : TypeId} (reads : ∀ id ∈ params ++ [result], g.Reads bad id) :
    Avoids bad (functionShape g child form name params result) := by
  obtain ⟨hparams, hresult⟩ := List.forall_mem_append.mp reads
  exact .bind (avoids_parameters hbad hchild hparams) fun _ =>
    .bind (hchild result (hresult result (List.mem_singleton_self _))) fun _ => .pure _

variable (readsOn : g.ReadsOn bad)

include readsOn

theorem avoids_objectMembers {object : NodeId} {index : Option NodeId} {ids : List TypeId}
    (reads : ∀ id ∈ ids, g.Reads bad id) :
    Avoids bad (objectMembers g child object index ids) := by
  induction ids generalizing index with
  | nil => exact .pure _
  | cons id rest ih =>
    obtain ⟨hid, hrest⟩ := List.forall_mem_cons.mp reads
    rw [objectMembers]
    refine .look hid.kind fun kind hkind => ?_
    split
    · have htype := readsOn.of_kind hkind _ (List.mem_singleton_self _)
      refine .look htype.kind fun type _ => ?_
      split
      · exact ih hrest
      · exact .bind (hchild id hid) fun _ => .bind (ih hrest) fun _ => .pure _
    · have hkey := readsOn.of_kind hkind _ List.mem_cons_self
      refine .look hkey.kind fun key _ => ?_
      split
      · exact ih hrest
      · refine .bind (hchild id hid) fun _ => ?_
        split
        · exact ih hrest
        · exact .bind (.modify _) fun _ => ih hrest
    · split
      · exact ih hrest
      · exact avoids_unexpected hbad _ _ _

/-- Lowering a declaration follows its references, and those of its members. -/
theorem avoids_lowerKind {type : TypeId} {here : NodeId} {kind : TypeKind}
    (reads : ∀ id ∈ kind.children, g.Reads bad id) :
    Avoids bad (lowerKind g child type here kind) := by
  have one {inner : TypeId} {f : NodeId → Lowered} (h : g.Reads bad inner) :
      Avoids bad (do let node ← child inner; Pure.pure (f node) : Walk Lowered) :=
    .bind (hchild inner h) fun _ => .pure _
  have object {members : List TypeId} {className : Option String}
      (h : ∀ id ∈ members, g.Reads bad id) : Avoids bad (do
        let shape ← objectShape g child here members className
        Pure.pure { shape } : Walk Lowered) :=
    .bind (.bind (avoids_objectMembers hbad hchild readsOn h) fun _ => .pure _) fun _ => .pure _
  have function {form : FunctionForm} {name : Option String} {params : List TypeId}
      {result : TypeId} {optional : Bool} (h : ∀ id ∈ params ++ [result], g.Reads bad id) :
      Avoids bad (do
        let shape ← functionShape g child form name params result
        Pure.pure { shape, optional } : Walk Lowered) :=
    .bind (avoids_functionShape hbad hchild h) fun _ => .pure _
  cases kind <;> rw [lowerKind]
  case never | any | unknown | void | object | string | number | boolean | symbol | bigint | null
    | undefined | regexp | literal | enumMember => exact .pure _
  case enumeration => exact .bind (avoids_enumValues hbad reads) fun _ => .pure _
  case array | rest | promise | property => exact one (reads _ (List.mem_singleton_self _))
  case tupleMember | parameter =>
    have hinner := reads _ (List.mem_singleton_self _)
    refine .look hinner.kind fun kind hkind => ?_
    split
    · exact one (readsOn.of_kind hkind _ (List.mem_singleton_self _))
    · exact one hinner
  case indexSignature =>
    obtain ⟨hkey, hinner⟩ := List.forall_mem_cons.mp reads
    have hinner := hinner _ (List.mem_singleton_self _)
    refine .look hkey.kind fun kind _ => ?_
    dsimp only
    split
    · exact .bind (.pure _) fun _ => one hinner
    · exact .bind (.pure _) fun _ => one hinner
    · exact .bind (avoids_unexpected hbad _ _ _) fun _ => one hinner
  case tuple => exact .bind (avoids_tupleMembers hbad hchild reads) fun _ => .pure _
  case objectLiteral => exact object reads
  case classType =>
    split
    · exact .pure _
    · exact object reads
  case union => exact .bind (avoids_unionMembers hchild reads) fun _ => .pure _
  case intersection =>
    refine .throw fun h => ?_
    rcases hbad _ h with ⟨_, h⟩ | ⟨_, h⟩ <;> cases h
  case function | method | methodSignature | callSignature => exact function reads

end Members

/-- **A walk avoids the errors** that looking up declarations avoids. -/
theorem avoids_lowerType (bad : CompileError → Prop) (hbad : ∀ e, bad e → (∃ id, e = .danglingType id) ∨
      ∃ name, e = .conflictingIndexSignatures name)
    (readsOn : g.ReadsOn bad) {limit depth : Nat} {above : List TypeId} {type : TypeId}
    (reads : g.Reads bad type) : Avoids bad (lowerType g limit depth above type) := by
  have hmeet (above : List TypeId) (type : TypeId) : Avoids bad (meet? above type) := by
    intro s e hrun
    rw [run_meet?] at hrun
    split at hrun <;> cases hrun
  induction depth generalizing above type with
  | zero =>
    rw [lowerType]
    refine .bind (hmeet above type) fun found => ?_
    cases found with
    | some id => exact .pure id
    | none =>
      refine .throw fun h => ?_
      rcases hbad _ h with ⟨_, h⟩ | ⟨_, h⟩ <;> cases h
  | succ depth ih =>
    rw [lowerType]
    refine .bind (hmeet above type) fun found => ?_
    cases found with
    | some id => exact .pure id
    | none =>
      unfold lowerNew
      refine .look reads fun declared hdeclared => ?_
      have hmake : Avoids bad (make type) := by
        intro s e hrun
        cases hrun
      refine .bind hmake fun here => ?_
      refine .bind (avoids_lowerKind hbad (fun type htype => ?_) readsOn
        (readsOn type declared hdeclared)) fun _ => .bind (avoids_modifyNode _ _) fun _ => .pure _
      exact .bind (ih htype) fun _ => .bind (avoids_modifyNode _ _) fun _ => .pure _

end Walk

end Typeforge
