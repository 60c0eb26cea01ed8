/-
# `Typeforge.Proofs.Lowering.Walking` — the nodes as the walk over a graph leaves them

Whether JSON carries a type as it is becomes known only when all nodes are
there, and so do the heights of least instances.  Until then no node is marked
and none has a height, whatever the graph: the walk makes nodes without marks
and heights and changes none.  Nor does it ever make the rest of a tuple
optional.
-/
import Typeforge.Arena.Walk
import Typeforge.Proofs.Types.Needs

namespace Typeforge

/-- A node without marks and without a height, and not optional if it is the rest of a tuple. -/
structure Node.Fresh (n : Node) : Prop where
  unmarked : ∀ w, n.needs w = false
  unheighted : n.minHeight = none
  rest : n.shape.isRest = true → n.optional = false

namespace Walk

variable {α β : Type}

/-- A part of the walk leaves all nodes fresh, and its result has a property. -/
def Keeps (m : Walk α) (R : α → Prop) : Prop :=
  ∀ s x s', m.run s = .ok (x, s') → (∀ n ∈ s.nodes, n.Fresh) → (∀ n ∈ s'.nodes, n.Fresh) ∧ R x

/-- A part of the walk leaves all nodes fresh. -/
abbrev KeepsFresh (m : Walk α) : Prop := Keeps m fun _ => True

theorem Keeps.pure {x : α} {R : α → Prop} (h : R x) : Keeps (pure x) R := by
  intro s y s' hrun hs
  cases hrun
  exact ⟨hs, h⟩

theorem Keeps.throw (e : CompileError) {R : α → Prop} : Keeps (throw e : Walk α) R := by
  intro s x s' hrun
  cases hrun

theorem Keeps.bind {m : Walk α} {f : α → Walk β} {R : α → Prop} {Q : β → Prop} (hm : Keeps m R)
    (hf : ∀ x, R x → Keeps (f x) Q) : Keeps (m >>= f) Q := by
  intro s y s' hrun hs
  rw [StateT.run_bind] at hrun
  cases hrun₁ : m.run s with
  | error e =>
    rw [hrun₁] at hrun
    cases hrun
  | ok r =>
    rw [hrun₁] at hrun
    obtain ⟨hs₁, hx⟩ := hm s r.1 r.2 hrun₁ hs
    exact hf r.1 hx r.2 y s' hrun hs₁

theorem Keeps.lift (e : Except CompileError α) :
    Keeps (liftM e : Walk α) fun _ => True := by
  intro s x s' hrun hs
  cases e with
  | error e => cases hrun
  | ok y =>
    cases hrun
    exact ⟨hs, trivial⟩

/-! ## Steps -/

theorem keeps_made? (type : TypeId) : KeepsFresh (made? type) := by
  intro s x s' hrun hs
  cases hrun
  exact ⟨hs, trivial⟩

theorem keeps_shapeOf (id : NodeId) : KeepsFresh (shapeOf id) := by
  intro s x s' hrun hs
  cases hrun
  exact ⟨hs, trivial⟩

theorem keeps_make (type : TypeId) : KeepsFresh (make type) := by
  intro s x s' hrun hs
  cases hrun
  refine ⟨fun n hn => ?_, trivial⟩
  rcases Array.mem_push.mp hn with hn | rfl
  · exact hs n hn
  · exact ⟨fun w => by cases w <;> rfl, rfl, fun h => nomatch h⟩

theorem keeps_putAside (object node : NodeId) :
    KeepsFresh (modify fun s : WalkState => ⟨s.nodes, s.aside ++ [(object, node)]⟩) := by
  intro s x s' hrun hs
  cases hrun
  exact ⟨hs, trivial⟩

theorem keeps_modifyNode (id : NodeId) {f : Node → Node}
    (hf : ∀ n : Node, n.Fresh → (f n).Fresh) : KeepsFresh (modifyNode id f) := by
  intro s x s' hrun hs
  cases hrun
  refine ⟨fun n hn => ?_, trivial⟩
  obtain ⟨i, hi, rfl⟩ := Array.mem_iff_getElem.mp hn
  rw [Array.size_modify] at hi
  dsimp only
  rw [Array.getElem_modify]
  split
  · exact hf _ (hs _ (Array.getElem_mem hi))
  · exact hs _ (Array.getElem_mem hi)

/-! ## Members -/

section Members

variable {g : TypeGraph} {child : TypeId → Walk NodeId}

theorem keeps_enumValues (ids : List TypeId) : KeepsFresh (enumValues g ids) := by
  induction ids with
  | nil => exact .pure trivial
  | cons id rest ih =>
    rw [enumValues]
    refine .bind (.lift _) fun kind _ => ?_
    split
    · exact .bind ih fun _ _ => .pure trivial
    · exact .throw _

theorem keeps_tupleMembers (hchild : ∀ type, KeepsFresh (child type)) (ids : List TypeId) :
    KeepsFresh (tupleMembers g child ids) := by
  induction ids with
  | nil => exact .pure trivial
  | cons id rest ih =>
    rw [tupleMembers]
    refine .bind (.lift _) fun kind _ => ?_
    have hmember : KeepsFresh (do
        let node ← child id
        if (← shapeOf node).isRest && !rest.isEmpty then
          throw (unexpected id kind "a rest element in last position")
        let nodes ← tupleMembers g child rest
        pure (node :: nodes) : Walk (List NodeId)) := by
      refine .bind (hchild id) fun node _ => .bind (keeps_shapeOf node) fun shape _ => ?_
      dsimp only
      split
      · exact .bind (R := fun _ => True) (.throw _) fun _ _ => .bind ih fun _ _ => .pure trivial
      · exact .bind ih fun _ _ => .pure trivial
    dsimp only
    split
    · exact hmember
    · exact hmember
    · exact .bind (R := fun _ => True) (.throw _) fun _ _ => hmember

theorem keeps_unionMembers (hchild : ∀ type, KeepsFresh (child type)) (ids : List TypeId) :
    KeepsFresh (unionMembers g child ids) := by
  induction ids with
  | nil => exact .pure trivial
  | cons id rest ih =>
    rw [unionMembers]
    refine .bind (.lift _) fun kind _ => ?_
    split
    · exact ih
    · exact .bind (hchild id) fun _ _ => .bind ih fun _ _ => .pure trivial

theorem keeps_parameters (hchild : ∀ type, KeepsFresh (child type)) (ids : List TypeId) :
    KeepsFresh (parameters g child ids) := by
  induction ids with
  | nil => exact .pure trivial
  | cons id rest ih =>
    rw [parameters]
    refine .bind (.lift _) fun kind _ => ?_
    split
    · exact .bind (hchild id) fun _ _ => .bind ih fun _ _ => .pure trivial
    · exact .throw _

theorem keeps_objectMembers (hchild : ∀ type, KeepsFresh (child type)) (object : NodeId)
    (index : Option NodeId) (ids : List TypeId) :
    KeepsFresh (objectMembers g child object index ids) := by
  induction ids generalizing index with
  | nil => exact .pure trivial
  | cons id rest ih =>
    rw [objectMembers]
    refine .bind (.lift _) fun kind _ => ?_
    split
    · refine .bind (.lift _) fun type _ => ?_
      split
      · exact ih index
      · exact .bind (hchild id) fun _ _ => .bind (ih index) fun _ _ => .pure trivial
    · refine .bind (.lift _) fun key _ => ?_
      split
      · exact ih index
      · refine .bind (hchild id) fun node _ => ?_
        split
        · exact ih _
        · exact .bind (keeps_putAside object node) fun _ _ => ih _
    · split
      · exact ih index
      · exact .throw _

theorem keeps_functionShape (hchild : ∀ type, KeepsFresh (child type)) (form : FunctionForm)
    (name : Option String) (params : List TypeId) (result : TypeId) :
    Keeps (functionShape g child form name params result) fun shape => shape.isRest = false :=
  .bind (keeps_parameters hchild params) fun _ _ => .bind (hchild result) fun _ _ => .pure rfl

theorem keeps_objectShape (hchild : ∀ type, KeepsFresh (child type)) (object : NodeId)
    (members : List TypeId) (className : Option String) :
    KeepsFresh (objectShape g child object members className) :=
  .bind (keeps_objectMembers hchild object none members) fun _ _ => .pure trivial

/-- A declaration that is lowered to the rest of a tuple is not optional. -/
abbrev RestRequired (l : Lowered) : Prop := l.shape.isRest = true → l.optional = false

theorem keeps_lowerKind (hchild : ∀ type, KeepsFresh (child type)) (type : TypeId)
    (here : NodeId) (kind : TypeKind) : Keeps (lowerKind g child type here kind) RestRequired := by
  have hone {inner : TypeId} {f : NodeId → Lowered} (hf : ∀ id, RestRequired (f id)) :
      Keeps (do let node ← child inner; pure (f node)) RestRequired :=
    .bind (hchild inner) fun id _ => .pure (hf id)
  have hobject (className : Option String) (members : List TypeId) :
      Keeps (do
        let shape ← objectShape g child here members className
        pure ({ shape } : Lowered)) RestRequired :=
    .bind (keeps_objectShape hchild here members className) fun _ _ => .pure fun _ => rfl
  have hfunction (form : FunctionForm) (name : Option String) (params : List TypeId)
      (result : TypeId) (optional : Bool) :
      Keeps (do
        let shape ← functionShape g child form name params result
        pure ({ shape, optional } : Lowered)) RestRequired :=
    .bind (keeps_functionShape hchild form name params result) fun shape h =>
      .pure fun hrest => absurd hrest (by rw [h]; exact Bool.false_ne_true)
  cases kind <;> rw [lowerKind]
  case never | any | unknown | void | object | string | number | boolean | symbol | bigint | null
    | undefined | regexp | literal | enumMember => exact .pure fun _ => rfl
  case enumeration members => exact .bind (keeps_enumValues members) fun _ _ => .pure fun _ => rfl
  case array | rest | promise => exact hone fun _ _ => rfl
  case property => exact hone fun _ h => nomatch h
  case tupleMember =>
    refine .bind (Keeps.lift _) fun kind _ => ?_
    split
    · exact hone fun _ _ => rfl
    · exact hone fun _ h => nomatch h
  case parameter =>
    refine .bind (Keeps.lift _) fun kind _ => ?_
    split
    · exact hone fun _ h => nomatch h
    · exact hone fun _ h => nomatch h
  case indexSignature =>
    refine .bind (Keeps.lift _) fun kind _ => ?_
    dsimp only
    split
    · exact .bind (R := fun _ => True) (.pure trivial) fun _ _ => hone fun _ _ => rfl
    · exact .bind (R := fun _ => True) (.pure trivial) fun _ _ => hone fun _ _ => rfl
    · exact .bind (R := fun _ => True) (.throw _) fun _ _ => hone fun _ _ => rfl
  case tuple members =>
    exact .bind (keeps_tupleMembers hchild members) fun _ _ => .pure fun _ => rfl
  case objectLiteral members => exact hobject none members
  case classType name members =>
    split
    · exact .pure fun _ => rfl
    · exact hobject (some name) members
  case union members =>
    exact .bind (keeps_unionMembers hchild members) fun _ _ => .pure fun _ => rfl
  case intersection => exact .throw _
  case function | method | methodSignature | callSignature => exact hfunction _ _ _ _ _

end Members

/-! ## The walk -/

theorem keeps_meet? (above : List TypeId) (type : TypeId) : KeepsFresh (meet? above type) := by
  refine .bind (keeps_made? type) fun found _ => ?_
  split
  · dsimp only
    split
    · refine .bind (keeps_modifyNode _ fun n h => ?_) fun _ _ => .pure trivial
      exact ⟨fun w => (by cases w <;> rfl : _ = n.needs w).trans (h.unmarked w), h.unheighted, h.rest⟩
    · exact .pure trivial
  · exact .pure trivial

theorem keeps_lowerNew {g : TypeGraph} {child : TypeId → Walk NodeId}
    (hchild : ∀ type, KeepsFresh (child type)) (type : TypeId) :
    KeepsFresh (lowerNew g child type) := by
  refine .bind (.lift _) fun declared _ => .bind (keeps_make type) fun id _ => ?_
  refine Keeps.bind (keeps_lowerKind ?_ type id declared.kind) fun lowered hlowered => ?_
  · intro type
    refine .bind (hchild type) fun node _ => ?_
    refine .bind (keeps_modifyNode _ fun n h => ?_) fun _ _ => .pure trivial
    exact ⟨fun w => (by cases w <;> rfl : _ = n.needs w).trans (h.unmarked w), h.unheighted, h.rest⟩
  · refine .bind (keeps_modifyNode _ fun n h => ?_) fun _ _ => .pure trivial
    exact ⟨fun w => (by cases w <;> rfl : _ = n.needs w).trans (h.unmarked w), h.unheighted, hlowered⟩

theorem keeps_lowerType (g : TypeGraph) (limit depth : Nat) (above : List TypeId)
    (type : TypeId) : KeepsFresh (lowerType g limit depth above type) := by
  induction depth generalizing above type with
  | zero =>
    rw [lowerType]
    refine .bind (keeps_meet? above type) fun found _ => ?_
    cases found with
    | some id => exact .pure trivial
    | none => exact .throw _
  | succ depth ih =>
    rw [lowerType]
    refine .bind (keeps_meet? above type) fun found _ => ?_
    cases found with
    | some id => exact .pure trivial
    | none => exact keeps_lowerNew (ih (type :: above)) type

/-- **The walk from a root leaves all nodes fresh.** -/
theorem fresh_of_lowerType {g : TypeGraph} {limit depth : Nat} {root : TypeId} {id : NodeId}
    {s : WalkState} (h : (lowerType g limit depth [] root).run {} = .ok (id, s)) :
    ∀ n ∈ s.nodes, n.Fresh :=
  (keeps_lowerType g limit depth [] root {} id s h fun n hn =>
    absurd hn (Array.not_mem_empty n)).1

end Walk

end Typeforge
