/-
# `Typeforge.Proofs.Lowering.Visits` — what a walk does for a declaration

For a declaration that has no node yet the walk makes one, visits the declarations
it is made of, one after the other, and fills the node in from what it found.
Which parts are visited is said by the graph alone; what becomes of their nodes
depends on the role a part has in the whole.  A walk that ends without an error is
made of such visits, all the way down: that is stated here once, and what walks
keep is proved by going along the visits.
-/
import Typeforge.Arena.Walk
import Typeforge.Proofs.Results

namespace Typeforge

/-! ## States -/

namespace WalkState

variable {s : WalkState}

def node (s : WalkState) (id : NodeId) : Node := s.nodes.getD id.index default

/-- The state with a node changed. -/
def modifyNode (s : WalkState) (id : NodeId) (f : Node → Node) : WalkState :=
  { s with nodes := s.nodes.modify id.index f }

/-- The state with a node put aside for an object. -/
def putAside (s : WalkState) (object node : NodeId) : WalkState :=
  { s with aside := s.aside ++ [(object, node)] }

theorem node_modifyNode_self {id : NodeId} (hid : id.index < s.nodes.size) (f : Node → Node) :
    (s.modifyNode id f).node id = f (s.node id) := by
  simp only [node, modifyNode, Array.getD_eq_getD_getElem?, Array.getElem?_modify,
    Array.getElem?_eq_getElem hid, Option.map_some, Option.getD_some, if_true]

theorem node_modifyNode_of_ne {id other : NodeId} (h : other ≠ id) (f : Node → Node) :
    (s.modifyNode id f).node other = s.node other := by
  have hne : id.index ≠ other.index := fun heq => h (congrArg NodeId.mk heq.symm)
  simp only [node, modifyNode, Array.getD_eq_getD_getElem?, Array.getElem?_modify, if_neg hne]

/-- What a change of nodes keeps, a change of one node keeps. -/
theorem node_modifyNode_eq {β : Type} (field : Node → β) {f : Node → Node}
    (hf : ∀ n, field (f n) = field n) (id other : NodeId) :
    field ((s.modifyNode id f).node other) = field (s.node other) := by
  by_cases hother : other = id
  · subst hother
    by_cases hid : other.index < s.nodes.size
    · rw [node_modifyNode_self hid, hf]
    · simp only [node, modifyNode, Array.getD_eq_getD_getElem?]
      rw [Array.getElem?_eq_none (Nat.le_of_not_lt hid), Array.getElem?_eq_none]
      rw [Array.size_modify]
      exact Nat.le_of_not_lt hid
  · rw [node_modifyNode_of_ne hother]

@[simp] theorem size_modifyNode {id : NodeId} {f : Node → Node} :
    (s.modifyNode id f).nodes.size = s.nodes.size := Array.size_modify ..

end WalkState

/-! ## Declarations -/

/-- The atom a kind stands for by itself. -/
def TypeKind.atom? : TypeKind → Option Atom
  | never => some .never
  | any => some .any
  | unknown => some .unknown
  | void => some .void
  | object => some .object
  | string => some .string
  | number => some .number
  | boolean => some .boolean
  | symbol => some .symbol
  | bigint => some .bigint
  | null => some .null
  | undefined => some .undefined
  | regexp => some .regexp
  | literal value | enumMember _ value => some (.literal value)
  | _ => none

/-- The form, name, parameters and result of a function type. -/
def TypeKind.function? : TypeKind → Option (FunctionForm × Option String × List TypeId × TypeId)
  | function name params result => some (.function, name, params, result)
  | method name params result _ => some (.method, some name, params, result)
  | methodSignature name params result _ => some (.methodSignature, some name, params, result)
  | callSignature params result => some (.callSignature, none, params, result)
  | _ => none

/-- The members of an object type or class, and the name of a class. -/
def TypeKind.members? : TypeKind → Option (List TypeId × Option String)
  | objectLiteral members => some (members, none)
  | classType name members => if name = "Date" then none else some (members, some name)
  | _ => none

/-- A declaration that may be a member of a tuple. -/
def TypeGraph.IsElement (g : TypeGraph) (id : TypeId) : Prop :=
  ∃ kind, g.kind id = .ok kind ∧
    ((∃ inner optional name, kind = .tupleMember inner optional name) ∨ ∃ element, kind = .rest element)

/-- A declaration that may be a parameter. -/
def TypeGraph.IsParameter (g : TypeGraph) (id : TypeId) : Prop :=
  ∃ name inner optional, g.kind id = .ok (.parameter name inner optional)

/-- The keys an index signature covers, by its key type. -/
def TypeGraph.keyFilter? (g : TypeGraph) (key : TypeId) : Option KeyFilter :=
  match g.kind key with
  | .ok .string => some .anyKey
  | .ok .number => some .numeric
  | _ => none

namespace Walk

/-! ## Parts -/

/-- What a part is in the whole. -/
inductive Role where
  | child
  /-- A member of a tuple with others behind it, where a rest element is out of place. -/
  | inner
  | property
  | index
  /-- An index signature of an object that has one already. -/
  | aside
deriving DecidableEq

structure Part where
  type : TypeId
  role : Role

def childParts (types : List TypeId) : List Part := types.map (⟨·, .child⟩)

def tupleParts : List TypeId → List Part
  | [] => []
  | id :: rest => ⟨id, if rest.isEmpty then .child else .inner⟩ :: tupleParts rest

/-- A member that objects do not keep. -/
inductive Dropped (g : TypeGraph) (id : TypeId) : Prop where
  | property {name type optional readonly kind}
      (h : g.kind id = .ok (.property name type optional readonly)) (hkind : g.kind type = .ok kind)
      (hfunction : kind.isFunctionLike = true)
  | symbol {key type} (h : g.kind id = .ok (.indexSignature key type))
      (hkey : g.kind key = .ok .symbol)
  | function {kind} (h : g.kind id = .ok kind) (hfunction : kind.isFunctionLike = true)

/-- The parts of an object type; the flag says that it has an index signature already. -/
inductive MemberParts (g : TypeGraph) : Bool → List TypeId → List Part → Prop where
  | nil {seen} : MemberParts g seen [] []
  | dropped {seen id rest parts} (h : Dropped g id) (tail : MemberParts g seen rest parts) :
      MemberParts g seen (id :: rest) parts
  | property {seen id rest parts name type optional readonly}
      (h : g.kind id = .ok (.property name type optional readonly))
      (tail : MemberParts g seen rest parts) :
      MemberParts g seen (id :: rest) (⟨id, .property⟩ :: parts)
  | index {seen id rest parts key type} (h : g.kind id = .ok (.indexSignature key type))
      (tail : MemberParts g true rest parts) :
      MemberParts g seen (id :: rest) (⟨id, if seen then .aside else .index⟩ :: parts)

/-- The nodes of the parts with a role. -/
def nodesOf (role : Role) (visited : List (Part × NodeId)) : List NodeId :=
  (visited.filter (·.1.role = role)).map (·.2)

/-- What a declaration is lowered to, given its parts and their nodes. -/
inductive LowersTo (g : TypeGraph) : TypeKind → List (Part × NodeId) → Shape → Prop where
  | atom {kind x} (h : kind.atom? = some x) : LowersTo g kind [] (.atom x)
  | enumeration {members values} :
      LowersTo g (.enumeration members) [] (.atom (.enumeration values))
  | date {members} : LowersTo g (.classType "Date" members) [] (.atom .date)
  | array {item node} : LowersTo g (.array item) [(⟨item, .child⟩, node)] (.array node)
  | tupleMember {inner optional name node}
      (h : ∀ element, g.kind inner ≠ .ok (.rest element)) :
      LowersTo g (.tupleMember inner optional name) [(⟨inner, .child⟩, node)] (.tupleMember node)
  | tupleRest {inner optional name element node} (h : g.kind inner = .ok (.rest element)) :
      LowersTo g (.tupleMember inner optional name) [(⟨element, .child⟩, node)] (.rest node)
  | rest {element node} : LowersTo g (.rest element) [(⟨element, .child⟩, node)] (.rest node)
  | property {name inner optional readonly node} :
      LowersTo g (.property name inner optional readonly) [(⟨inner, .child⟩, node)]
        (.property name node)
  | indexSignature {key inner filter node} (h : g.keyFilter? key = some filter) :
      LowersTo g (.indexSignature key inner) [(⟨inner, .child⟩, node)] (.indexSignature filter node)
  | parameter {name inner optional node} (h : ∀ element, g.kind inner ≠ .ok (.rest element)) :
      LowersTo g (.parameter name inner optional) [(⟨inner, .child⟩, node)]
        (.parameter name node false)
  | restParameter {name inner optional element node} (h : g.kind inner = .ok (.rest element)) :
      LowersTo g (.parameter name inner optional) [(⟨element, .child⟩, node)]
        (.parameter name node true)
  | promise {inner node} : LowersTo g (.promise inner) [(⟨inner, .child⟩, node)] (.promise node)
  | tuple {members visited} (h : visited.map (·.1) = tupleParts members)
      (kinds : ∀ id ∈ members, g.IsElement id) :
      LowersTo g (.tuple members) visited (.tuple (visited.map (·.2)))
  | object {kind members className visited} (h : kind.members? = some (members, className))
      (parts : MemberParts g false members (visited.map (·.1))) :
      LowersTo g kind visited
        (.object (nodesOf .property visited) (nodesOf .index visited).head? className)
  | union {members kept visited} (sublist : kept.Sublist members)
      (h : visited.map (·.1) = childParts kept) :
      LowersTo g (.union members) visited
        (if (visited.map (·.2)).isEmpty then .atom .never else .union (visited.map (·.2)))
  | function {kind form name params result visited node}
      (h : kind.function? = some (form, name, params, result))
      (parts : visited.map (·.1) = childParts params)
      (kinds : ∀ id ∈ params, g.IsParameter id) :
      LowersTo g kind (visited ++ [(⟨result, .child⟩, node)])
        (.function ⟨form, name, visited.map (·.2), node⟩)

/-! ## Visits -/

/-- What a visit of a declaration does: the state before, the declaration, its node and the state
after. -/
abbrev Visit := WalkState → TypeId → NodeId → WalkState → Prop

/-- A visit that ends without an error. -/
def visitBy (child : TypeId → Walk NodeId) : Visit := fun s type node s' =>
  (child type).run s = .ok (node, s')

/-- Visits of the parts of a declaration, one after the other; `here` is its own node. -/
inductive Visits (visit : Visit) (here : NodeId) :
    WalkState → List (Part × NodeId) → WalkState → Prop where
  | nil {s} : Visits visit here s [] s
  | cons {s s₁ s' part node rest} (first : visit s part.type node s₁)
      (inner : part.role = .inner → (s₁.node node).shape.isRest = false)
      (tail : Visits visit here (if part.role = .aside then s₁.putAside here node else s₁) rest s') :
      Visits visit here s ((part, node) :: rest) s'

variable {visit visit' : Visit} {here : NodeId} {s s₁ s' : WalkState}

theorem Visits.append {xs ys : List (Part × NodeId)} (h : Visits visit here s xs s₁)
    (h' : Visits visit here s₁ ys s') : Visits visit here s (xs ++ ys) s' := by
  induction h with
  | nil => exact h'
  | cons first inner _ ih => exact .cons first inner (ih h')

theorem Visits.mono (hvisit : ∀ s type node s', visit s type node s' → visit' s type node s')
    {xs : List (Part × NodeId)} (h : Visits visit here s xs s') : Visits visit' here s xs s' := by
  induction h with
  | nil => exact .nil
  | cons first inner _ ih => exact .cons (hvisit _ _ _ _ first) inner ih

theorem Visits.child {type : TypeId} {node : NodeId} (h : visit s type node s') :
    Visits visit here s [(⟨type, .child⟩, node)] s' := .cons h nofun .nil

/-! ## Runs -/

section Runs

variable {α β : Type}

theorem run_bind_eq_ok {m : Walk α} {f : α → Walk β} {y : β} :
    (m >>= f).run s = .ok (y, s') ↔ ∃ x s₁, m.run s = .ok (x, s₁) ∧ (f x).run s₁ = .ok (y, s') := by
  rw [StateT.run_bind, Except.bind_eq_ok]
  exact Prod.exists

theorem run_pure_eq_ok {x y : α} : (pure x : Walk α).run s = .ok (y, s') ↔ x = y ∧ s = s' := by
  rw [StateT.run_pure]
  simp [pure, Except.pure]

theorem run_lift_eq_ok {e : Except CompileError α} {x : α} :
    (liftM e : Walk α).run s = .ok (x, s') ↔ e = .ok x ∧ s = s' := by
  cases e with
  | error e =>
    constructor
    · intro h
      cases h
    · rintro ⟨h, -⟩
      cases h
  | ok y =>
    constructor
    · intro h
      cases h
      exact ⟨rfl, rfl⟩
    · rintro ⟨h, rfl⟩
      cases h
      rfl

/-- After a look at the graph. -/
theorem run_look_eq_ok {e : Except CompileError α} {f : α → Walk β} {y : β} :
    (liftM e >>= f).run s = .ok (y, s') ↔ ∃ x, e = .ok x ∧ (f x).run s = .ok (y, s') := by
  rw [run_bind_eq_ok]
  constructor
  · rintro ⟨x, s₁, hlook, hrun⟩
    obtain ⟨he, rfl⟩ := run_lift_eq_ok.mp hlook
    exact ⟨x, he, hrun⟩
  · rintro ⟨x, he, hrun⟩
    exact ⟨x, s, run_lift_eq_ok.mpr ⟨he, rfl⟩, hrun⟩

end Runs

section Members

variable {g : TypeGraph} {child : TypeId → Walk NodeId}

theorem state_enumValues {ids : List TypeId} {values : List (String × Literal)}
    (h : (enumValues g ids).run s = .ok (values, s')) : s = s' := by
  induction ids generalizing values with
  | nil => exact (run_pure_eq_ok.mp h).2
  | cons id rest ih =>
    rw [enumValues] at h
    obtain ⟨kind, -, h⟩ := run_look_eq_ok.mp h
    split at h
    · obtain ⟨_, s₁, hrest, h⟩ := run_bind_eq_ok.mp h
      obtain ⟨-, rfl⟩ := run_pure_eq_ok.mp h
      exact ih hrest
    · cases h

theorem visits_tupleMembers {ids : List TypeId} {nodes : List NodeId}
    (h : (tupleMembers g child ids).run s = .ok (nodes, s')) :
    ∃ visited, visited.map (·.1) = tupleParts ids ∧ visited.map (·.2) = nodes ∧
      (∀ id ∈ ids, g.IsElement id) ∧ Visits (visitBy child) here s visited s' := by
  induction ids generalizing s nodes with
  | nil =>
    obtain ⟨rfl, rfl⟩ := run_pure_eq_ok.mp h
    exact ⟨[], rfl, rfl, nofun, .nil⟩
  | cons id rest ih =>
    rw [tupleMembers] at h
    obtain ⟨kind, hkind, h⟩ := run_look_eq_ok.mp h
    have hmember (hin : (∃ inner optional name, kind = .tupleMember inner optional name) ∨
          ∃ element, kind = .rest element) (h : (do
        let node ← child id
        if (← shapeOf node).isRest && !rest.isEmpty then
          throw (unexpected id kind "a rest element in last position")
        let nodes ← tupleMembers g child rest
        pure (node :: nodes) : Walk (List NodeId)).run s = .ok (nodes, s')) :
        ∃ visited, visited.map (·.1) = tupleParts (id :: rest) ∧ visited.map (·.2) = nodes ∧
          (∀ x ∈ id :: rest, g.IsElement x) ∧ Visits (visitBy child) here s visited s' := by
      obtain ⟨node, s₁, hchild, h⟩ := run_bind_eq_ok.mp h
      obtain ⟨shape, s₂, hshape, h⟩ := run_bind_eq_ok.mp h
      cases hshape
      dsimp only at h
      split at h
      · cases h
      · rename_i hnot
        obtain ⟨nodes, s₃, hrest, h⟩ := run_bind_eq_ok.mp h
        obtain ⟨rfl, rfl⟩ := run_pure_eq_ok.mp h
        obtain ⟨visited, hparts, hnodes, kinds, visits⟩ := ih hrest
        refine ⟨(⟨id, if rest.isEmpty then .child else .inner⟩, node) :: visited, ?_, ?_, ?_, ?_⟩
        · rw [List.map_cons, hparts, tupleParts]
        · rw [List.map_cons, hnodes]
        · exact List.forall_mem_cons.mpr ⟨⟨kind, hkind, hin⟩, kinds⟩
        · refine .cons hchild (fun hinner => ?_) ?_
          · cases hempty : rest.isEmpty with
            | true =>
              rw [hempty] at hinner
              cases hinner
            | false =>
              rw [hempty, Bool.not_false, Bool.and_true] at hnot
              exact Bool.eq_false_iff.mpr hnot
          · rw [if_neg (by dsimp only; split <;> nofun)]
            exact visits
    dsimp only at h
    split at h
    · exact hmember (.inl ⟨_, _, _, rfl⟩) h
    · exact hmember (.inr ⟨_, rfl⟩) h
    · cases h

theorem visits_unionMembers {ids : List TypeId} {nodes : List NodeId}
    (h : (unionMembers g child ids).run s = .ok (nodes, s')) :
    ∃ kept visited, kept.Sublist ids ∧ visited.map (·.1) = childParts kept ∧
      visited.map (·.2) = nodes ∧ Visits (visitBy child) here s visited s' := by
  induction ids generalizing s nodes with
  | nil =>
    obtain ⟨rfl, rfl⟩ := run_pure_eq_ok.mp h
    exact ⟨[], [], .slnil, rfl, rfl, .nil⟩
  | cons id rest ih =>
    rw [unionMembers] at h
    obtain ⟨kind, -, h⟩ := run_look_eq_ok.mp h
    split at h
    · obtain ⟨kept, visited, sublist, h⟩ := ih h
      exact ⟨kept, visited, sublist.cons id, h⟩
    · obtain ⟨node, s₁, hchild, h⟩ := run_bind_eq_ok.mp h
      obtain ⟨nodes, s₂, hrest, h⟩ := run_bind_eq_ok.mp h
      obtain ⟨rfl, rfl⟩ := run_pure_eq_ok.mp h
      obtain ⟨kept, visited, sublist, hparts, rfl, visits⟩ := ih hrest
      refine ⟨id :: kept, (⟨id, .child⟩, node) :: visited, sublist.cons_cons id, ?_, rfl,
        .cons hchild nofun visits⟩
      rw [List.map_cons, hparts]
      rfl

theorem visits_parameters {ids : List TypeId} {nodes : List NodeId}
    (h : (parameters g child ids).run s = .ok (nodes, s')) :
    ∃ visited, visited.map (·.1) = childParts ids ∧ visited.map (·.2) = nodes ∧
      (∀ id ∈ ids, g.IsParameter id) ∧ Visits (visitBy child) here s visited s' := by
  induction ids generalizing s nodes with
  | nil =>
    obtain ⟨rfl, rfl⟩ := run_pure_eq_ok.mp h
    exact ⟨[], rfl, rfl, nofun, .nil⟩
  | cons id rest ih =>
    rw [parameters] at h
    obtain ⟨kind, hkind, h⟩ := run_look_eq_ok.mp h
    split at h
    · obtain ⟨node, s₁, hchild, h⟩ := run_bind_eq_ok.mp h
      obtain ⟨nodes, s₂, hrest, h⟩ := run_bind_eq_ok.mp h
      obtain ⟨rfl, rfl⟩ := run_pure_eq_ok.mp h
      obtain ⟨visited, hparts, rfl, kinds, visits⟩ := ih hrest
      refine ⟨(⟨id, .child⟩, node) :: visited, ?_, rfl, ?_, .cons hchild nofun visits⟩
      · rw [List.map_cons, hparts]
        rfl
      · exact List.forall_mem_cons.mpr ⟨⟨_, _, _, hkind⟩, kinds⟩
    · cases h

/-- An index signature that an object has is no part of it any more. -/
theorem visits_objectMembers {object : NodeId} {index : Option NodeId} {ids : List TypeId}
    {out : List NodeId × Option NodeId}
    (h : (objectMembers g child object index ids).run s = .ok (out, s')) :
    ∃ visited, MemberParts g index.isSome ids (visited.map (·.1)) ∧
      out = (nodesOf .property visited, index.or (nodesOf .index visited).head?) ∧
      Visits (visitBy child) object s visited s' := by
  induction ids generalizing s index out with
  | nil =>
    obtain ⟨rfl, rfl⟩ := run_pure_eq_ok.mp h
    exact ⟨[], .nil, by rw [nodesOf, nodesOf]; cases index <;> rfl, .nil⟩
  | cons id rest ih =>
    have hdropped (hid : Dropped g id)
        (h : (objectMembers g child object index rest).run s = .ok (out, s')) :
        ∃ visited, MemberParts g index.isSome (id :: rest) (visited.map (·.1)) ∧
          out = (nodesOf .property visited, index.or (nodesOf .index visited).head?) ∧
          Visits (visitBy child) object s visited s' := by
      obtain ⟨visited, parts, h⟩ := ih h
      exact ⟨visited, .dropped hid parts, h⟩
    rw [objectMembers] at h
    obtain ⟨kind, hkind, h⟩ := run_look_eq_ok.mp h
    split at h
    · obtain ⟨type, htype, h⟩ := run_look_eq_ok.mp h
      split at h
      · rename_i hfunction
        exact hdropped (.property hkind htype hfunction) h
      · obtain ⟨node, s₁, hchild, h⟩ := run_bind_eq_ok.mp h
        obtain ⟨⟨props, kept⟩, s₂, hrest, h⟩ := run_bind_eq_ok.mp h
        obtain ⟨rfl, rfl⟩ := run_pure_eq_ok.mp h
        obtain ⟨visited, parts, hout, visits⟩ := ih hrest
        cases hout
        exact ⟨(⟨id, .property⟩, node) :: visited, .property hkind parts, rfl,
          .cons hchild nofun visits⟩
    · obtain ⟨key, hkey, h⟩ := run_look_eq_ok.mp h
      split at h
      · exact hdropped (.symbol hkind hkey) h
      · obtain ⟨node, s₁, hchild, h⟩ := run_bind_eq_ok.mp h
        split at h
        · obtain ⟨visited, parts, rfl, visits⟩ := ih h
          exact ⟨(⟨id, .index⟩, node) :: visited, .index hkind parts, rfl,
            .cons hchild nofun visits⟩
        · obtain ⟨_, s₂, haside, h⟩ := run_bind_eq_ok.mp h
          cases haside
          obtain ⟨visited, parts, rfl, visits⟩ := ih h
          exact ⟨(⟨id, .aside⟩, node) :: visited, .index hkind parts, rfl,
            .cons hchild nofun visits⟩
    · split at h
      · rename_i hfunction
        exact hdropped (.function hkind hfunction) h
      · cases h

/-- **Lowering a declaration visits its parts.** -/
theorem visits_lowerKind {type : TypeId} {kind : TypeKind} {lowered : Lowered}
    (h : (lowerKind g child type here kind).run s = .ok (lowered, s')) :
    ∃ visited, LowersTo g kind visited lowered.shape ∧ Visits (visitBy child) here s visited s' := by
  -- most declarations have no parts, or one
  have leaf {l : Lowered} (hl : LowersTo g kind [] l.shape)
      (h : (pure l : Walk Lowered).run s = .ok (lowered, s')) :
      ∃ visited, LowersTo g kind visited lowered.shape ∧
        Visits (visitBy child) here s visited s' := by
    obtain ⟨rfl, rfl⟩ := run_pure_eq_ok.mp h
    exact ⟨[], hl, .nil⟩
  have one {inner : TypeId} {f : NodeId → Lowered}
      (hf : ∀ node, LowersTo g kind [(⟨inner, .child⟩, node)] (f node).shape)
      (h : (do let node ← child inner; pure (f node) : Walk Lowered).run s = .ok (lowered, s')) :
      ∃ visited, LowersTo g kind visited lowered.shape ∧
        Visits (visitBy child) here s visited s' := by
    obtain ⟨node, s₁, hchild, h⟩ := run_bind_eq_ok.mp h
    obtain ⟨rfl, rfl⟩ := run_pure_eq_ok.mp h
    exact ⟨_, hf node, .child hchild⟩
  have object {members : List TypeId} {className : Option String}
      (hkind : kind.members? = some (members, className)) (h : (do
        let shape ← objectShape g child here members className
        pure { shape } : Walk Lowered).run s = .ok (lowered, s')) :
      ∃ visited, LowersTo g kind visited lowered.shape ∧
        Visits (visitBy child) here s visited s' := by
    obtain ⟨shape, s₁, hshape, h⟩ := run_bind_eq_ok.mp h
    obtain ⟨rfl, rfl⟩ := run_pure_eq_ok.mp h
    obtain ⟨out, s₂, hmembers, h⟩ := run_bind_eq_ok.mp hshape
    obtain ⟨rfl, rfl⟩ := run_pure_eq_ok.mp h
    obtain ⟨visited, parts, rfl, visits⟩ := visits_objectMembers hmembers
    exact ⟨visited, .object hkind parts, visits⟩
  have function {form : FunctionForm} {name : Option String} {params : List TypeId}
      {result : TypeId} {optional : Bool}
      (hkind : kind.function? = some (form, name, params, result)) (h : (do
        let shape ← functionShape g child form name params result
        pure { shape, optional } : Walk Lowered).run s = .ok (lowered, s')) :
      ∃ visited, LowersTo g kind visited lowered.shape ∧
        Visits (visitBy child) here s visited s' := by
    obtain ⟨shape, s₁, hshape, h⟩ := run_bind_eq_ok.mp h
    obtain ⟨rfl, rfl⟩ := run_pure_eq_ok.mp h
    obtain ⟨nodes, s₂, hparams, h⟩ := run_bind_eq_ok.mp hshape
    obtain ⟨node, s₃, hresult, h⟩ := run_bind_eq_ok.mp h
    obtain ⟨rfl, rfl⟩ := run_pure_eq_ok.mp h
    obtain ⟨visited, parts, rfl, kinds, visits⟩ := visits_parameters hparams
    exact ⟨_, .function hkind parts kinds, visits.append (.child hresult)⟩
  cases kind <;> rw [lowerKind] at h
  case never | any | unknown | void | object | string | number | boolean | symbol | bigint | null
    | undefined | regexp | literal | enumMember => exact leaf (.atom rfl) h
  case enumeration members =>
    obtain ⟨values, s₁, hvalues, h⟩ := run_bind_eq_ok.mp h
    obtain rfl := state_enumValues hvalues
    exact leaf .enumeration h
  case array => exact one (fun _ => .array) h
  case rest => exact one (fun _ => .rest) h
  case promise => exact one (fun _ => .promise) h
  case property => exact one (fun _ => .property) h
  case tupleMember =>
    obtain ⟨kind, hkind, h⟩ := run_look_eq_ok.mp h
    split at h
    · exact one (fun _ => .tupleRest hkind) h
    · rename_i hnot
      exact one (fun _ => .tupleMember fun element hrest =>
        hnot element (Except.ok.inj (hkind.symm.trans hrest))) h
  case parameter =>
    obtain ⟨kind, hkind, h⟩ := run_look_eq_ok.mp h
    split at h
    · exact one (fun _ => .restParameter hkind) h
    · rename_i hnot
      exact one (fun _ => .parameter fun element hrest =>
        hnot element (Except.ok.inj (hkind.symm.trans hrest))) h
  case indexSignature =>
    obtain ⟨kind, hkind, h⟩ := run_look_eq_ok.mp h
    dsimp only at h
    split at h
    · rw [pure_bind] at h
      exact one (fun _ => .indexSignature (by rw [TypeGraph.keyFilter?, hkind])) h
    · rw [pure_bind] at h
      exact one (fun _ => .indexSignature (by rw [TypeGraph.keyFilter?, hkind])) h
    · cases h
  case tuple members =>
    obtain ⟨nodes, s₁, hmembers, h⟩ := run_bind_eq_ok.mp h
    obtain ⟨rfl, rfl⟩ := run_pure_eq_ok.mp h
    obtain ⟨visited, parts, rfl, kinds, visits⟩ := visits_tupleMembers hmembers
    exact ⟨visited, .tuple parts kinds, visits⟩
  case objectLiteral members => exact object rfl h
  case classType name members =>
    split at h
    · rename_i hdate
      subst hdate
      exact leaf .date h
    · rename_i hname
      exact object (by rw [TypeKind.members?, if_neg hname]) h
  case union members =>
    obtain ⟨nodes, s₁, hmembers, h⟩ := run_bind_eq_ok.mp h
    obtain ⟨rfl, rfl⟩ := run_pure_eq_ok.mp h
    obtain ⟨kept, visited, sublist, parts, rfl, visits⟩ := visits_unionMembers hmembers
    exact ⟨visited, .union sublist parts, visits⟩
  case intersection => cases h
  case function | method | methodSignature | callSignature => exact function rfl h

end Members

/-! ## The walk -/

/-- The node of a declaration. -/
def NodeFor (type : TypeId) (s : WalkState) (id : NodeId) : Prop :=
  id.index < s.nodes.size ∧ (s.node id).source = type

def marked (n : Node) : Node := { n with isCircular := true }

def counted (n : Node) : Node := { n with parents := n.parents + 1 }

/-- The state after a declaration was met again below others. -/
def met (above : List TypeId) (s : WalkState) (type : TypeId) (id : NodeId) : WalkState :=
  if above.contains type then s.modifyNode id marked else s

/-- The state with a node made. -/
def made (s : WalkState) (type : TypeId) : WalkState :=
  { s with nodes := s.nodes.push (.placeholder type) }

/-- A node filled in. -/
def filled (typeName : Option String) (lowered : Lowered) (n : Node) : Node :=
  { n with
    shape := lowered.shape, typeName, optional := lowered.optional, readonly := lowered.readonly }

/-- A visit of a child, which is counted as a reference to its node. -/
def Counted (visit : Visit) : Visit := fun s type id s' =>
  ∃ s₁, visit s type id s₁ ∧ s' = s₁.modifyNode id counted

theorem run_meet? (above : List TypeId) (type : TypeId) (s : WalkState) :
    (meet? above type).run s =
      match s.nodes.findIdx? (·.source == type) with
      | some i => .ok (some ⟨i⟩, met above s type ⟨i⟩)
      | none => .ok (none, s) := by
  have hmade : (made? type).run s = .ok ((s.nodes.findIdx? (·.source == type)).map NodeId.mk, s) := rfl
  rw [meet?, StateT.run_bind, hmade]
  cases s.nodes.findIdx? (·.source == type) with
  | none => rfl
  | some i => unfold met; cases above.contains type <;> rfl

/-- A declaration that is met again has a node. -/
theorem met_of_run {above : List TypeId} {type : TypeId} {id : NodeId}
    (h : (meet? above type).run s = .ok (some id, s')) :
    NodeFor type s id ∧ s' = met above s type id := by
  rw [run_meet?] at h
  split at h
  · rename_i i hfind
    obtain ⟨hlt, hsource, -⟩ := Array.findIdx?_eq_some_iff_getElem.mp hfind
    cases h
    refine ⟨⟨hlt, ?_⟩, rfl⟩
    rw [WalkState.node, Array.getD_eq_getD_getElem?, Array.getElem?_eq_getElem hlt]
    exact eq_of_beq hsource
  · cases h

/-- A declaration that is met for the first time has none. -/
theorem new_of_run {above : List TypeId} {type : TypeId}
    (h : (meet? above type).run s = .ok (none, s')) : s' = s ∧ ∀ id, ¬NodeFor type s id := by
  rw [run_meet?] at h
  split at h
  · cases h
  · rename_i hfind
    cases h
    refine ⟨rfl, fun id hid => ?_⟩
    obtain ⟨hlt, hsource⟩ := hid
    have hnone := Array.findIdx?_eq_none_iff.mp hfind s.nodes[id.index] (Array.getElem_mem hlt)
    rw [WalkState.node, Array.getD_eq_getD_getElem?, Array.getElem?_eq_getElem hlt,
      Option.getD_some] at hsource
    rw [hsource, beq_self_eq_true] at hnone
    cases hnone

/-- **What holds of a walk**: a declaration is met again, or a node is made for it, its parts are
visited below it, and the node is filled in. -/
theorem lowerType_rule {g : TypeGraph} {Spec : List TypeId → Visit}
    (again : ∀ above s type id, NodeFor type s id → Spec above s type id (met above s type id))
    (new : ∀ above s type declared visited lowered s₁, (∀ id, ¬NodeFor type s id) →
      g.node type = .ok declared → LowersTo g declared.kind visited lowered.shape →
      Visits (Counted (Spec (type :: above))) ⟨s.nodes.size⟩ (made s type) visited s₁ →
      Spec above s type ⟨s.nodes.size⟩
        (s₁.modifyNode ⟨s.nodes.size⟩ (filled declared.typeName lowered)))
    {limit depth : Nat} {above : List TypeId} {type : TypeId} {id : NodeId}
    (h : (lowerType g limit depth above type).run s = .ok (id, s')) : Spec above s type id s' := by
  induction depth generalizing above type s id s' with
  | zero =>
    rw [lowerType] at h
    obtain ⟨found, s₁, hmeet, h⟩ := run_bind_eq_ok.mp h
    cases found with
    | none => cases h
    | some found =>
      obtain ⟨rfl, rfl⟩ := run_pure_eq_ok.mp h
      obtain ⟨hnode, rfl⟩ := met_of_run hmeet
      exact again above s type found hnode
  | succ depth ih =>
    rw [lowerType] at h
    obtain ⟨found, s₁, hmeet, hrun⟩ := run_bind_eq_ok.mp h
    cases found with
    | some found =>
      obtain ⟨rfl, rfl⟩ := run_pure_eq_ok.mp hrun
      obtain ⟨hnode, rfl⟩ := met_of_run hmeet
      exact again above s type found hnode
    | none =>
      obtain ⟨rfl, hnew⟩ := new_of_run hmeet
      obtain ⟨declared, hdeclared, hrun⟩ := run_look_eq_ok.mp hrun
      obtain ⟨here, s₂, hmake, hrun⟩ := run_bind_eq_ok.mp hrun
      cases hmake
      obtain ⟨lowered, s₃, hkind, hrun⟩ := run_bind_eq_ok.mp hrun
      cases hrun
      obtain ⟨visited, lowers, visits⟩ := visits_lowerKind hkind
      refine new above s₁ type declared visited lowered s₃ hnew hdeclared lowers
        (visits.mono fun s type' node s' hvisit => ?_)
      obtain ⟨node', s₄, hchild, hcount⟩ := run_bind_eq_ok.mp hvisit
      cases hcount
      exact ⟨s₄, ih hchild, rfl⟩

end Walk

end Typeforge
