/-
# `Typeforge.Proofs.Lowering.Places` — what stands where in a lowered arena

The walk asks a declaration what it is before it lets it into another: the
properties of an object are declared as properties, its index signature as one,
the members of a tuple as members or rest elements, the parameters of a function
as parameters.  A declaration and the node made of it agree on that, but the node
of a declaration may not be filled in yet when it is referred to, as it may be
above.  So the proof speaks of what declarations say as long as the walk goes on,
and only in the end of nodes.

A visit leaves all nodes that were there before with the shapes they have, filled
in or not, and every node it makes it fills in.  That is what is carried along
the visits of a walk.

One thing the walk asks of a node and not of its declaration: whether a member of
a tuple with others behind it is a rest element.  Of a node above it gets no
answer, and such a node it marks circular.
-/
import Typeforge.Proofs.Lowering.Cycles
import Typeforge.Proofs.Lowering.Merging
import Typeforge.Proofs.Lowering.Visits

namespace Typeforge

/-! ## Shapes -/

namespace Shape

def isProperty : Shape → Bool
  | property _ _ => true
  | _ => false

def isIndexSignature : Shape → Bool
  | indexSignature _ _ => true
  | _ => false

/-- Whether the node may be a member of a tuple. -/
def isElement : Shape → Bool
  | tupleMember _ | rest _ => true
  | _ => false

def isParameter : Shape → Bool
  | parameter _ _ _ => true
  | _ => false

end Shape

namespace Walk

variable {g : TypeGraph}

/-! ## Declarations and shapes -/

namespace LowersTo

variable {kind : TypeKind} {visited : List (Part × NodeId)} {shape : Shape}

theorem of_property {name : String} {type : TypeId} {optional readonly : Bool}
    (h : LowersTo g (.property name type optional readonly) visited shape) :
    shape.isProperty = true := by
  cases h with
  | property => rfl
  | atom h | object h | function h => cases h

theorem of_indexSignature {key type : TypeId}
    (h : LowersTo g (.indexSignature key type) visited shape) :
    ∃ filter node, g.keyFilter? key = some filter ∧ visited = [(⟨type, .child⟩, node)] ∧
      shape = .indexSignature filter node := by
  cases h with
  | indexSignature h => exact ⟨_, _, h, rfl, rfl⟩
  | atom h | object h | function h => cases h

theorem of_element {id : TypeId} (hid : g.IsElement id) (hkind : g.kind id = .ok kind)
    (h : LowersTo g kind visited shape) : shape.isElement = true := by
  obtain ⟨kind', hkind', his⟩ := hid
  obtain rfl : kind = kind' := Except.ok.inj (hkind.symm.trans hkind')
  rcases his with ⟨inner, optional, name, rfl⟩ | ⟨element, rfl⟩
  · cases h with
    | tupleMember | tupleRest => rfl
    | atom h | object h | function h => cases h
  · cases h with
    | rest => rfl
    | atom h | object h | function h => cases h

theorem of_parameter {id : TypeId} (hid : g.IsParameter id) (hkind : g.kind id = .ok kind)
    (h : LowersTo g kind visited shape) : shape.isParameter = true := by
  obtain ⟨name, inner, optional, hparameter⟩ := hid
  obtain rfl := Except.ok.inj (hkind.symm.trans hparameter)
  cases h with
  | parameter | restParameter => rfl
  | atom h | object h | function h => cases h

theorem object_inv {props : List NodeId} {index : Option NodeId} {className : Option String}
    (h : LowersTo g kind visited (.object props index className)) :
    ∃ members, kind.members? = some (members, className) ∧
      MemberParts g false members (visited.map (·.1)) ∧ props = nodesOf .property visited ∧
      index = (nodesOf .index visited).head? := by
  generalize hshape : Shape.object props index className = shape at h
  cases h <;> try cases hshape
  case object parts h => exact ⟨_, h, parts, rfl, rfl⟩
  case union => split at hshape <;> cases hshape

theorem tuple_inv {nodes : List NodeId} (h : LowersTo g kind visited (.tuple nodes)) :
    ∃ members, visited.map (·.1) = tupleParts members ∧ nodes = visited.map (·.2) ∧
      ∀ id ∈ members, g.IsElement id := by
  generalize hshape : Shape.tuple nodes = shape at h
  cases h <;> try cases hshape
  case tuple kinds h => exact ⟨_, h, rfl, kinds⟩
  case union => split at hshape <;> cases hshape

theorem function_inv {f : FunctionShape} (h : LowersTo g kind visited (.function f)) :
    ∃ params xs last, visited = xs ++ [last] ∧ xs.map (·.1) = childParts params ∧
      f.params = xs.map (·.2) ∧ ∀ id ∈ params, g.IsParameter id := by
  generalize hshape : Shape.function f = shape at h
  cases h <;> try cases hshape
  case function parts kinds h => exact ⟨_, _, _, rfl, parts, rfl, kinds⟩
  case union => split at hshape <;> cases hshape

end LowersTo

namespace MemberParts

variable {seen : Bool} {members : List TypeId} {parts : List Part} {part : Part}

/-- The parts of an object are declared as what they are in it. -/
theorem kind_of_mem (h : MemberParts g seen members parts) (mem : part ∈ parts) :
    part.type ∈ members ∧
    ((part.role = .property ∧ ∃ name type optional readonly,
        g.kind part.type = .ok (.property name type optional readonly)) ∨
      ((part.role = .index ∨ part.role = .aside) ∧ ∃ key type,
        g.kind part.type = .ok (.indexSignature key type))) := by
  induction h with
  | nil => cases mem
  | dropped _ _ ih => exact (ih mem).imp_left (List.mem_cons_of_mem _)
  | property h _ ih =>
    rcases List.mem_cons.mp mem with rfl | mem
    · exact ⟨List.mem_cons_self, .inl ⟨rfl, _, _, _, _, h⟩⟩
    · exact (ih mem).imp_left (List.mem_cons_of_mem _)
  | @index seen _ _ _ _ _ h _ ih =>
    rcases List.mem_cons.mp mem with rfl | mem
    · refine ⟨List.mem_cons_self, .inr ⟨?_, _, _, h⟩⟩
      cases seen
      · exact .inl rfl
      · exact .inr rfl
    · exact (ih mem).imp_left (List.mem_cons_of_mem _)

end MemberParts

theorem part_mem {visited : List (Part × NodeId)} {part : Part} {node : NodeId}
    (mem : (part, node) ∈ visited) : part ∈ visited.map (·.1) := List.mem_map.mpr ⟨_, mem, rfl⟩

theorem mem_nodesOf {role : Role} {visited : List (Part × NodeId)} {node : NodeId} :
    node ∈ nodesOf role visited ↔ ∃ part, (part, node) ∈ visited ∧ part.role = role := by
  simp only [nodesOf, List.mem_map, List.mem_filter, decide_eq_true_eq, Prod.exists,
    exists_eq_right]

/-- The members of a tuple before the last have places where rest elements do not belong. -/
theorem inner_of_mem_dropLast {members : List TypeId} {visited : List (Part × NodeId)}
    (h : visited.map (·.1) = tupleParts members) {node : NodeId}
    (mem : node ∈ (visited.map (·.2)).dropLast) :
    ∃ part, (part, node) ∈ visited ∧ part.role = .inner := by
  induction members generalizing visited with
  | nil =>
    rw [List.map_eq_nil_iff.mp h] at mem
    cases mem
  | cons id rest ih =>
    cases visited with
    | nil => cases h
    | cons x visited =>
      rw [List.map_cons, tupleParts, List.cons.injEq] at h
      obtain ⟨hpart, h⟩ := h
      cases visited with
      | nil => cases mem
      | cons y visited =>
        rw [List.map_cons, List.map_cons, List.dropLast_cons_cons, List.mem_cons] at mem
        rcases mem with rfl | mem
        · refine ⟨x.1, List.mem_cons_self, ?_⟩
          cases rest with
          | nil => cases h
          | cons => rw [hpart]; rfl
        · obtain ⟨part, hmem, hrole⟩ := ih h mem
          exact ⟨part, List.mem_cons_of_mem x hmem, hrole⟩

/-- The parts of a tuple are its members. -/
theorem type_mem_of_tupleParts {members : List TypeId} {part : Part}
    (mem : part ∈ tupleParts members) : part.type ∈ members := by
  induction members with
  | nil => cases mem
  | cons id rest ih =>
    rcases List.mem_cons.mp mem with rfl | mem
    · exact List.mem_cons_self
    · exact List.mem_cons_of_mem id (ih mem)

/-! ## Nodes filled in -/

/-- What can be said of the node of a part that was visited for `here`, as long as declarations
above are pending. -/
structure Placed (above : List TypeId) (s : WalkState) (here : NodeId) (part : Part)
    (node : NodeId) : Prop where
  nodeFor : NodeFor part.type s node
  inner : part.role = .inner →
    (s.node node).isCircular = true ∨ part.type ∉ above ∧ (s.node node).shape.isRest = false
  aside : part.role = .aside → (here, node) ∈ s.aside

/-- A node is filled in with what its declaration says, given the nodes of its parts. -/
structure Filled (g : TypeGraph) (above : List TypeId) (s : WalkState) (id : NodeId)
    (kind : TypeKind) (visited : List (Part × NodeId)) : Prop where
  source : g.kind (s.node id).source = .ok kind
  lowers : LowersTo g kind visited (s.node id).shape
  placed : ∀ x ∈ visited, Placed above s id x.1 x.2
  aside : ∀ node, (id, node) ∈ s.aside → ∃ part, (part, node) ∈ visited ∧ part.role = .aside

/-- From one state of a walk to a later one: the nodes that were there keep their shapes, and the
others are filled in.  For nodes that were there only those are put aside that `own` says. -/
structure Grows (g : TypeGraph) (above : List TypeId) (own : NodeId × NodeId → Prop)
    (s s' : WalkState) : Prop where
  size : s.nodes.size ≤ s'.nodes.size
  source : ∀ id, id.index < s.nodes.size → (s'.node id).source = (s.node id).source
  shape : ∀ id, id.index < s.nodes.size → (s'.node id).shape = (s.node id).shape
  circular : ∀ id, id.index < s.nodes.size → (s.node id).isCircular = true →
    (s'.node id).isCircular = true
  aside : ∀ x ∈ s.aside, x ∈ s'.aside
  asideNew : ∀ x ∈ s'.aside, x ∈ s.aside ∨ own x ∨
    s.nodes.size ≤ x.1.index ∧ x.1.index < s'.nodes.size
  filled : ∀ id, s.nodes.size ≤ id.index → id.index < s'.nodes.size →
    ∃ kind visited, Filled g above s' id kind visited

section Growing

variable {above : List TypeId} {own own' : NodeId × NodeId → Prop} {s s' s'' : WalkState}
  {id : NodeId}

theorem NodeFor.grow {type : TypeId} (grows : Grows g above own s s') (h : NodeFor type s id) :
    NodeFor type s' id :=
  ⟨h.1.trans_le grows.size, (grows.source id h.1).trans h.2⟩

theorem Placed.grow {here : NodeId} {part : Part} (grows : Grows g above own s s')
    (h : Placed above s here part id) : Placed above s' here part id where
  nodeFor := h.nodeFor.grow grows
  inner hinner := by
    rw [grows.shape id h.nodeFor.1]
    exact (h.inner hinner).imp_left (grows.circular id h.nodeFor.1)
  aside haside := grows.aside _ (h.aside haside)

theorem Filled.grow {kind : TypeKind} {visited : List (Part × NodeId)}
    (grows : Grows g above own s s') (hown : ∀ x, own x → x.1 ≠ id) (hid : id.index < s.nodes.size)
    (h : Filled g above s id kind visited) : Filled g above s' id kind visited where
  source := by rw [grows.source id hid, h.source]
  lowers := by
    rw [grows.shape id hid]
    exact h.lowers
  placed x hx := (h.placed x hx).grow grows
  aside node hnode := by
    rcases grows.asideNew _ hnode with hnode | hnode | ⟨hle, -⟩
    · exact h.aside node hnode
    · exact absurd rfl (hown _ hnode)
    · exact absurd hid (Nat.not_lt.mpr hle)

theorem Grows.refl (g : TypeGraph) (above : List TypeId) (own : NodeId × NodeId → Prop)
    (s : WalkState) : Grows g above own s s :=
  ⟨le_rfl, fun _ _ => rfl, fun _ _ => rfl, fun _ _ => id, fun _ => id, fun _ => .inl,
    fun _ hle hlt => absurd hlt (Nat.not_lt.mpr hle)⟩

theorem Grows.trans (h : Grows g above own s s') (h' : Grows g above own' s' s'')
    (hown' : ∀ x, own' x → x.1.index < s.nodes.size) :
    Grows g above (fun x => own x ∨ own' x) s s'' where
  size := h.size.trans h'.size
  source id hid := (h'.source id (hid.trans_le h.size)).trans (h.source id hid)
  shape id hid := (h'.shape id (hid.trans_le h.size)).trans (h.shape id hid)
  circular id hid hc := h'.circular id (hid.trans_le h.size) (h.circular id hid hc)
  aside x hx := h'.aside x (h.aside x hx)
  asideNew x hx := by
    have hle := h.size
    have hle' := h'.size
    rcases h'.asideNew x hx with hx | hx | ⟨hge, hlt⟩
    · rcases h.asideNew x hx with hx | hx | ⟨hge, hlt⟩
      · exact .inl hx
      · exact .inr (.inl (.inl hx))
      · exact .inr (.inr ⟨hge, hlt.trans_le hle'⟩)
    · exact .inr (.inl (.inr hx))
    · exact .inr (.inr ⟨hle.trans hge, hlt⟩)
  filled id hle hlt := by
    by_cases hid : id.index < s'.nodes.size
    · obtain ⟨kind, visited, hfilled⟩ := h.filled id hle hid
      refine ⟨kind, visited, hfilled.grow h' (fun x hx heq => ?_) hid⟩
      exact absurd (heq ▸ hown' x hx) (Nat.not_lt.mpr hle)
    · exact h'.filled id (Nat.le_of_not_lt hid) hlt

theorem Grows.imp (h : Grows g above own s s') (hown : ∀ x, own x → own' x) :
    Grows g above own' s s' :=
  { h with asideNew := fun x hx => (h.asideNew x hx).imp_right (Or.imp_left (hown x)) }

/-- Changing facts of a node besides its source and shape. -/
theorem grows_modifyNode {f : Node → Node} (source : ∀ n, (f n).source = n.source)
    (shape : ∀ n, (f n).shape = n.shape)
    (circular : ∀ n, n.isCircular = true → (f n).isCircular = true) (id : NodeId) :
    Grows g above own s (s.modifyNode id f) where
  size := WalkState.size_modifyNode.ge
  source other _ := WalkState.node_modifyNode_eq Node.source source id other
  shape other _ := WalkState.node_modifyNode_eq Node.shape shape id other
  circular other hother h := by
    by_cases hid : other = id
    · subst hid
      rw [WalkState.node_modifyNode_self hother]
      exact circular _ h
    · rwa [WalkState.node_modifyNode_of_ne hid]
  aside _ h := h
  asideNew _ := .inl
  filled other hle hlt := absurd (WalkState.size_modifyNode (f := f) ▸ hlt) (Nat.not_lt.mpr hle)

theorem grows_putAside (object node : NodeId) :
    Grows g above (· = (object, node)) s (s.putAside object node) where
  size := le_rfl
  source _ _ := rfl
  shape _ _ := rfl
  circular _ _ := id
  aside _ := List.mem_append_left _
  asideNew _ hx := (List.mem_append.mp hx).imp_right fun hx => .inl (List.mem_singleton.mp hx)
  filled _ hle hlt := absurd hlt (Nat.not_lt.mpr hle)

end Growing

/-! ## The walk -/

/-- What a walk may start from: the declarations above have nodes, and what was put aside was put
aside for nodes that are there. -/
structure Ready (above : List TypeId) (s : WalkState) : Prop where
  above : ∀ type ∈ above, ∃ id, NodeFor type s id
  aside : ∀ x ∈ s.aside, x.1.index < s.nodes.size

/-- A visit makes the walk grow, and gives the node of the declaration, circular if it is one of
those above. -/
def Places (g : TypeGraph) (above : List TypeId) : Visit := fun s type id s' =>
  Ready above s → Grows g above (fun _ => False) s s' ∧ NodeFor type s' id ∧
    (type ∈ above → (s'.node id).isCircular = true)

section Places

variable {above : List TypeId} {s s' : WalkState} {type : TypeId} {id : NodeId}

theorem Ready.grow {own : NodeId × NodeId → Prop} (h : Ready above s)
    (grows : Grows g above own s s') (hown : ∀ x, own x → x.1.index < s.nodes.size) :
    Ready above s' where
  above type htype := by
    obtain ⟨id, hid⟩ := h.above type htype
    exact ⟨id, hid.grow grows⟩
  aside x hx := by
    have hle := grows.size
    rcases grows.asideNew x hx with hx | hx | ⟨-, hlt⟩
    · exact (h.aside x hx).trans_le hle
    · exact (hown x hx).trans_le hle
    · exact hlt

theorem places_met (hid : NodeFor type s id) : Places g above s type id (met above s type id) := by
  intro _
  unfold met
  split
  · have grows : Grows g above (fun _ => False) s (s.modifyNode id marked) :=
      grows_modifyNode (f := marked) (fun _ => rfl) (fun _ => rfl) (fun _ _ => rfl) id
    refine ⟨grows, hid.grow grows, fun _ => ?_⟩
    rw [WalkState.node_modifyNode_self hid.1]
    rfl
  · rename_i habove
    exact ⟨.refl g above _ s, hid, fun h => absurd (List.contains_iff_mem.mpr h) habove⟩

/-- What a list of visits puts aside for the node they are made for. -/
def Own (here : NodeId) (visited : List (Part × NodeId)) (x : NodeId × NodeId) : Prop :=
  x.1 = here ∧ ∃ part, (part, x.2) ∈ visited ∧ part.role = .aside

/-- The nodes of visited parts are where they belong. -/
theorem placed_visits {here : NodeId} {visited : List (Part × NodeId)}
    (h : Visits (Counted (Places g above)) here s visited s') (ready : Ready above s)
    (hhere : here.index < s.nodes.size) :
    Grows g above (Own here visited) s s' ∧ ∀ x ∈ visited, Placed above s' here x.1 x.2 := by
  induction h with
  | nil => exact ⟨.refl g above _ _, nofun⟩
  | @cons s s₁ s' part node rest first inner _ ih =>
    obtain ⟨s₀, visit, rfl⟩ := first
    obtain ⟨grows₀, hnode, hcircular⟩ := visit ready
    have count : Grows g above (fun _ => False) s₀ (s₀.modifyNode node counted) :=
      grows_modifyNode (f := counted) (fun _ => rfl) (fun _ => rfl) (fun _ => id) node
    have grows₁ := grows₀.trans count (fun _ => False.elim)
    have hcircular (h : part.type ∈ above) := count.circular node hnode.1 (hcircular h)
    have hnode := hnode.grow count
    generalize s₀.modifyNode node counted = s₁ at inner grows₁ hnode hcircular ih
    have hput : Grows g above (Own here [(part, node)]) s₁
        (if part.role = .aside then s₁.putAside here node else s₁) := by
      split
      · rename_i hrole
        refine (grows_putAside here node).imp ?_
        rintro _ rfl
        exact ⟨rfl, part, List.mem_singleton_self _, hrole⟩
      · exact .refl g above _ s₁
    have hown {visited : List (Part × NodeId)} (x : NodeId × NodeId) (hx : Own here visited x) :
        x.1.index < s.nodes.size := hx.1 ▸ hhere
    have grows₂ := grows₁.trans hput hown
    have placed : Placed above (if part.role = .aside then s₁.putAside here node else s₁) here part
        node := by
      refine ⟨hnode.grow hput, fun hrole => ?_, fun hrole => ?_⟩
      · rw [if_neg (by rw [hrole]; nofun)]
        by_cases habove : part.type ∈ above
        · exact .inl (hcircular habove)
        · exact .inr ⟨habove, inner hrole⟩
      · rw [if_pos hrole]
        exact List.mem_append_right _ (List.mem_singleton_self _)
    obtain ⟨grows, hrest⟩ := ih (ready.grow grows₂ (by rintro x (h | h); exacts [(h.elim id id).elim, hown x h]))
      (hhere.trans_le grows₂.size)
    refine ⟨(grows₂.trans grows hown).imp ?_, List.forall_mem_cons.mpr ⟨placed.grow grows, hrest⟩⟩
    rintro x ((h | ⟨hx, part', hpart, hrole⟩) | ⟨hx, part', hpart, hrole⟩)
    · exact (h.elim id id).elim
    · exact ⟨hx, part', List.mem_singleton.mp hpart ▸ List.mem_cons_self, hrole⟩
    · exact ⟨hx, part', List.mem_cons_of_mem _ hpart, hrole⟩

section Filling

variable {typeName : Option String} {lowered : Lowered} {here : NodeId} {kind : TypeKind}
  {visited : List (Part × NodeId)}

theorem NodeFor.fill (h : NodeFor type s id) :
    NodeFor type (s.modifyNode here (filled typeName lowered)) id :=
  ⟨by rw [WalkState.size_modifyNode]; exact h.1,
    (WalkState.node_modifyNode_eq (f := filled typeName lowered) Node.source (fun _ => rfl) here
      id).trans h.2⟩

/-- Once the innermost declaration above is filled in, what refers to it does so by circular
nodes. -/
theorem Placed.fill (hhere : (s.node here).source = type) {part : Part} {node : NodeId}
    (h : Placed (type :: above) s id part node) :
    Placed above (s.modifyNode here (filled typeName lowered)) id part node where
  nodeFor := h.nodeFor.fill
  inner hinner := by
    refine (h.inner hinner).imp (fun hc => ?_) fun ⟨habove, hrest⟩ => ?_
    · rw [WalkState.node_modifyNode_eq (f := filled typeName lowered) Node.isCircular fun _ => rfl]
      exact hc
    · obtain ⟨hne, habove⟩ := (List.mem_cons.not.trans not_or).mp habove
      refine ⟨habove, ?_⟩
      rw [WalkState.node_modifyNode_of_ne]
      · exact hrest
      · rintro rfl
        exact hne (h.nodeFor.2.symm.trans hhere)
  aside := h.aside

theorem Filled.fill (hhere : (s.node here).source = type) (hid : id ≠ here)
    (h : Filled g (type :: above) s id kind visited) :
    Filled g above (s.modifyNode here (filled typeName lowered)) id kind visited where
  source := by rw [WalkState.node_modifyNode_of_ne hid, h.source]
  lowers := by
    rw [WalkState.node_modifyNode_of_ne hid]
    exact h.lowers
  placed x hx := (h.placed x hx).fill hhere
  aside := h.aside

/-- Filling in the node of a declaration, after its parts. -/
theorem grows_filled (ready : Ready above s)
    (grows : Grows g (type :: above) (Own ⟨s.nodes.size⟩ visited) (made s type) s')
    (hkind : g.kind type = .ok kind) (lowers : LowersTo g kind visited lowered.shape)
    (placed : ∀ x ∈ visited, Placed (type :: above) s' ⟨s.nodes.size⟩ x.1 x.2) :
    Grows g above (fun _ => False) s (s'.modifyNode ⟨s.nodes.size⟩ (filled typeName lowered)) ∧
      NodeFor type (s'.modifyNode ⟨s.nodes.size⟩ (filled typeName lowered)) ⟨s.nodes.size⟩ := by
  have hmade : (made s type).nodes.size = s.nodes.size + 1 := Array.size_push _
  have hle := grows.size
  have hhere : NodeFor type s' ⟨s.nodes.size⟩ := by
    refine ⟨by dsimp only; omega, ?_⟩
    rw [grows.source ⟨s.nodes.size⟩ (by rw [hmade]; exact Nat.lt_succ_self _), node_made_new]
    rfl
  have hother {id : NodeId} (hid : id.index ≠ s.nodes.size) : id ≠ ⟨s.nodes.size⟩ :=
    fun h => hid (congrArg NodeId.index h)
  refine ⟨?_, hhere.fill⟩
  exact {
    size := by rw [WalkState.size_modifyNode]; omega
    source := fun id hid => by
      rw [WalkState.node_modifyNode_of_ne (hother hid.ne), grows.source id (by omega),
        node_made_old hid.ne]
    shape := fun id hid => by
      rw [WalkState.node_modifyNode_of_ne (hother hid.ne), grows.shape id (by omega),
        node_made_old hid.ne]
    circular := fun id hid hc => by
      rw [WalkState.node_modifyNode_of_ne (hother hid.ne)]
      exact grows.circular id (by omega) (by rwa [node_made_old hid.ne])
    aside := grows.aside
    asideNew := fun x hx => by
      rw [WalkState.size_modifyNode]
      rcases grows.asideNew x hx with hx | ⟨hx, -⟩ | ⟨hge, hlt⟩
      · exact .inl hx
      · exact .inr (.inr (by rw [hx]; exact ⟨le_rfl, hhere.1⟩))
      · exact .inr (.inr ⟨by omega, hlt⟩)
    filled := fun id hle hlt => by
      rw [WalkState.size_modifyNode] at hlt
      by_cases hid : id.index = s.nodes.size
      · -- the new node itself
        obtain rfl : id = ⟨s.nodes.size⟩ := congrArg NodeId.mk hid
        refine ⟨kind, visited, ?_, ?_, fun x hx => (placed x hx).fill hhere.2, fun node hnode => ?_⟩
        · rw [hhere.fill.2, hkind]
        · rw [WalkState.node_modifyNode_self hhere.1]
          exact lowers
        · rcases grows.asideNew _ hnode with hold | hown | ⟨hge, -⟩
          · exact absurd (ready.aside _ hold) (Nat.lt_irrefl _)
          · exact hown.2
          · rw [hmade] at hge
            exact absurd hge (Nat.not_succ_le_self _)
      · obtain ⟨kind, visited, h⟩ := grows.filled id (by omega) hlt
        exact ⟨kind, visited, h.fill hhere.2 (hother hid)⟩ }

end Filling

theorem places_lowerType {limit depth : Nat}
    (h : (lowerType g limit depth above type).run s = .ok (id, s')) :
    Places g above s type id s' := by
  refine lowerType_rule (fun _ _ _ _ => places_met) ?_ h
  intro above s type declared visited lowered s₁ hnew hdeclared lowers visits ready
  have hmade : (made s type).nodes.size = s.nodes.size + 1 := Array.size_push _
  have hnew' : NodeFor type (made s type) ⟨s.nodes.size⟩ :=
    ⟨hmade ▸ Nat.lt_succ_self _, by rw [node_made_new]; rfl⟩
  have hold {t : TypeId} {id : NodeId} (h : NodeFor t s id) : NodeFor t (made s type) id :=
    ⟨hmade ▸ Nat.lt_succ_of_lt h.1, by rw [node_made_old h.1.ne]; exact h.2⟩
  have ready' : Ready (type :: above) (made s type) := by
    refine ⟨List.forall_mem_cons.mpr ⟨⟨_, hnew'⟩, fun t ht => ?_⟩, fun x hx => ?_⟩
    · obtain ⟨id, hid⟩ := ready.above t ht
      exact ⟨id, hold hid⟩
    · exact hmade ▸ Nat.lt_succ_of_lt (ready.aside x hx)
  obtain ⟨grows, placed⟩ := placed_visits visits ready' hnew'.1
  have hkind : g.kind type = .ok declared.kind := by rw [TypeGraph.kind, hdeclared]; rfl
  obtain ⟨grows, hnode⟩ := grows_filled ready grows hkind lowers placed
  refine ⟨grows, hnode, fun habove => ?_⟩
  obtain ⟨id, hid⟩ := ready.above type habove
  exact absurd hid (hnew id)

end Places

/-- **What a walk from a root leaves**: a node for the root, and every node filled in. -/
theorem filled_of_lowerType {limit depth : Nat} {root : TypeId} {id : NodeId} {s : WalkState}
    (h : (lowerType g limit depth [] root).run {} = .ok (id, s)) :
    NodeFor root s id ∧ (∀ id, id.index < s.nodes.size → ∃ kind visited, Filled g [] s id kind visited) ∧
      ∀ x ∈ s.aside, x.1.index < s.nodes.size := by
  have ready : Ready [] {} := ⟨nofun, nofun⟩
  obtain ⟨grows, hnode, -⟩ := places_lowerType h ready
  exact ⟨hnode, fun id hid => grows.filled id (Nat.zero_le _) hid,
    (ready.grow grows fun _ => False.elim).aside⟩

end Walk

/-! ## Lowered arenas -/

namespace Arena

open Walk

variable {g : TypeGraph} {a : Arena} {s : WalkState} {id : NodeId}

/-- All nodes of a walk are filled in. -/
def AllFilled (g : TypeGraph) (s : WalkState) : Prop :=
  ∀ id, id.index < s.nodes.size → ∃ kind visited, Filled g [] s id kind visited

/-- The node of a part is filled in from the declaration of the part. -/
theorem AllFilled.part (all : AllFilled g s) {kind : TypeKind} {visited : List (Part × NodeId)}
    (h : Filled g [] s id kind visited) {part : Part} {node : NodeId} (mem : (part, node) ∈ visited) :
    ∃ kind' visited', g.kind part.type = .ok kind' ∧ Filled g [] s node kind' visited' := by
  obtain ⟨hlt, hsource⟩ := (h.placed _ mem).nodeFor
  obtain ⟨kind', visited', hfilled⟩ := all node hlt
  exact ⟨kind', visited', hsource ▸ hfilled.source, hfilled⟩

theorem Completes.shape_of_eq (completes : Completes s a) {shape : Shape}
    (h : (s.node id).shape = shape)
    (hobject : ∀ props index className, shape ≠ .object props index className) :
    (a.node id).shape = shape := by
  rcases completes.shape id with heq | ⟨_, _, _, _, hs, -, -⟩
  · exact heq.symm.trans h
  · exact absurd (h.symm.trans hs) (hobject _ _ _)

theorem Completes.eq_of_shape (completes : Completes s a) {shape : Shape}
    (h : (a.node id).shape = shape)
    (hobject : ∀ props index className, shape ≠ .object props index className) :
    (s.node id).shape = shape := by
  rcases completes.shape id with heq | ⟨_, _, _, _, -, ha, -⟩
  · exact heq.trans h
  · exact absurd (h.symm.trans ha) (hobject _ _ _)

/-- A node of a completed arena that is not out of bounds is filled in. -/
theorem AllFilled.of_shape (all : AllFilled g s)
    (h : ∀ x, (s.node id).shape ≠ .atom x) : ∃ kind visited, Filled g [] s id kind visited := by
  refine all id (Nat.lt_of_not_le fun hle => h .never ?_)
  rw [WalkState.node, Array.getD_eq_getD_getElem?, Array.getElem?_eq_none hle]
  rfl

/-- The members of objects are what they should be: properties, and an index signature. -/
structure MembersInPlace (a : Arena) : Prop where
  props : ∀ id props index className, (a.node id).shape = .object props index className →
    ∀ p ∈ props, (a.node p).shape.isProperty = true
  index : ∀ id props index className, (a.node id).shape = .object props index className →
    ∀ i ∈ index, (a.node i).shape.isIndexSignature = true

/-- The members of tuples and the parameters of functions are what they should be.  A rest element
with others behind it is circular. -/
structure ElementsInPlace (a : Arena) : Prop where
  elements : ∀ id members, (a.node id).shape = .tuple members →
    ∀ m ∈ members, (a.node m).shape.isElement = true
  rests : ∀ id members, (a.node id).shape = .tuple members →
    ∀ m ∈ members.dropLast, (a.node m).shape.isRest = true → (a.node m).isCircular = true
  params : ∀ id f, (a.node id).shape = .function f →
    ∀ p ∈ f.params, (a.node p).shape.isParameter = true

namespace Completes

variable (completes : Completes s a) (all : AllFilled g s)

include completes all

/-- The node of a property part is a property. -/
theorem isProperty {kind : TypeKind} {visited : List (Part × NodeId)} {seen : Bool}
    {members : List TypeId} (h : Filled g [] s id kind visited)
    (parts : MemberParts g seen members (visited.map (·.1))) {node : NodeId}
    (mem : node ∈ nodesOf .property visited) : (a.node node).shape.isProperty = true := by
  obtain ⟨part, hpart, hrole⟩ := mem_nodesOf.mp mem
  obtain ⟨kind', visited', hkind', hfilled⟩ := all.part h hpart
  rcases (parts.kind_of_mem (part_mem hpart)).2 with
    ⟨-, name, type, optional, readonly, hkind⟩ | ⟨hrole', -⟩
  · obtain rfl := Except.ok.inj (hkind'.symm.trans hkind)
    have hshape := hfilled.lowers.of_property
    rw [completes.shape_of_eq rfl fun _ _ _ heq => by rw [heq] at hshape; cases hshape]
    exact hshape
  · rw [hrole] at hrole'
    rcases hrole' with h | h <;> cases h

/-- The node of an index signature, kept or put aside, is one. -/
theorem isIndexSignature {kind : TypeKind} {visited : List (Part × NodeId)} {seen : Bool}
    {members : List TypeId} (h : Filled g [] s id kind visited)
    (parts : MemberParts g seen members (visited.map (·.1))) {role : Role}
    (hindex : role = .index ∨ role = .aside) {node : NodeId} (mem : node ∈ nodesOf role visited) :
    (a.node node).shape.isIndexSignature = true := by
  obtain ⟨part, hpart, rfl⟩ := mem_nodesOf.mp mem
  obtain ⟨kind', visited', hkind', hfilled⟩ := all.part h hpart
  rcases (parts.kind_of_mem (part_mem hpart)).2 with
    ⟨hrole, -⟩ | ⟨-, key, type, hkind⟩
  · rw [hrole] at hindex
    rcases hindex with h | h <;> cases h
  · obtain rfl := Except.ok.inj (hkind'.symm.trans hkind)
    obtain ⟨filter, child, -, -, hshape⟩ := hfilled.lowers.of_indexSignature
    rw [completes.shape_of_eq hshape fun _ _ _ => Shape.noConfusion]
    rfl

theorem membersInPlace : a.MembersInPlace := by
  have object {id : NodeId} {props : List NodeId} {index : Option NodeId}
      {className : Option String} (h : (s.node id).shape = .object props index className) :
      (∀ p ∈ props, (a.node p).shape.isProperty = true) ∧
        (∀ i ∈ index, (a.node i).shape.isIndexSignature = true) ∧
        ∀ i, (id, i) ∈ s.aside → (a.node i).shape.isIndexSignature = true := by
    obtain ⟨kind, visited, hfilled⟩ := all.of_shape fun x hx => by rw [hx] at h; cases h
    obtain ⟨members, -, parts, rfl, rfl⟩ := LowersTo.object_inv (h ▸ hfilled.lowers)
    refine ⟨fun p hp => completes.isProperty all hfilled parts hp, fun i hi => ?_, fun i hi => ?_⟩
    · exact completes.isIndexSignature all hfilled parts (.inl rfl) (List.mem_of_head? hi)
    · exact completes.isIndexSignature all hfilled parts (.inr rfl)
        (mem_nodesOf.mpr (hfilled.aside i hi))
  refine ⟨fun id props index className hshape p hp => ?_,
    fun id props index className hshape i hi => ?_⟩
  · rcases completes.shape id with heq | ⟨props', kept, other, className', hs, ha, -⟩
    · exact (object (heq.trans hshape)).1 p hp
    · cases ha.symm.trans hshape
      exact (object hs).1 p hp
  · rcases completes.shape id with heq | ⟨props', kept, other, className', hs, ha, hother⟩
    · exact (object (heq.trans hshape)).2.1 i hi
    · cases ha.symm.trans hshape
      obtain rfl := Option.some.inj hi
      exact (object hs).2.2 _ hother

theorem elementsInPlace : a.ElementsInPlace := by
  have declared {id : NodeId} {kind : TypeKind} {visited : List (Part × NodeId)} {is : Shape → Bool}
      (hobject : ∀ props index className, is (.object props index className) = false)
      (h : Filled g [] s id kind visited) {part : Part} {node : NodeId} (mem : (part, node) ∈ visited)
      (his : ∀ kind visited shape, g.kind part.type = .ok kind → LowersTo g kind visited shape →
        is shape = true) : is (a.node node).shape = true := by
    obtain ⟨kind', visited', hkind', hfilled⟩ := all.part h mem
    have hshape := his _ _ _ hkind' hfilled.lowers
    rw [completes.shape_of_eq rfl fun _ _ _ heq => by
      rw [heq, hobject] at hshape
      cases hshape]
    exact hshape
  have tuple {id : NodeId} {members : List NodeId} (h : (a.node id).shape = .tuple members) :
      ∃ kind visited types, Filled g [] s id kind visited ∧
        visited.map (·.1) = tupleParts types ∧ members = visited.map (·.2) ∧
        ∀ id ∈ types, g.IsElement id := by
    have hs := completes.eq_of_shape h fun _ _ _ => Shape.noConfusion
    obtain ⟨kind, visited, hfilled⟩ := all.of_shape fun x hx => by rw [hx] at hs; cases hs
    obtain ⟨types, parts, rfl, kinds⟩ := LowersTo.tuple_inv (hs ▸ hfilled.lowers)
    exact ⟨kind, visited, types, hfilled, parts, rfl, kinds⟩
  refine ⟨fun id members hshape m hm => ?_, fun id members hshape m hm hrest => ?_,
    fun id f hshape p hp => ?_⟩
  · obtain ⟨kind, visited, types, hfilled, parts, rfl, kinds⟩ := tuple hshape
    obtain ⟨⟨part, _⟩, hpart, rfl⟩ := List.mem_map.mp hm
    have htype := type_mem_of_tupleParts (parts ▸ part_mem hpart)
    exact declared (fun _ _ _ => rfl) hfilled hpart fun _ _ _ hkind lowers =>
      lowers.of_element (kinds _ htype) hkind
  · obtain ⟨kind, visited, types, hfilled, parts, rfl, kinds⟩ := tuple hshape
    obtain ⟨part, hpart, hrole⟩ := inner_of_mem_dropLast parts hm
    rcases (hfilled.placed _ hpart).inner hrole with hcircular | ⟨-, hnot⟩
    · rwa [← completes.circular]
    · obtain ⟨element, hrest⟩ : ∃ element, (a.node m).shape = .rest element := by
        cases hm : (a.node m).shape <;> rw [hm] at hrest <;> first | exact ⟨_, rfl⟩ | cases hrest
      have hs := completes.eq_of_shape hrest fun _ _ _ => Shape.noConfusion
      rw [hs] at hnot
      cases hnot
  · have hs := completes.eq_of_shape hshape fun _ _ _ => Shape.noConfusion
    obtain ⟨kind, visited, hfilled⟩ := all.of_shape fun x hx => by rw [hx] at hs; cases hs
    obtain ⟨types, xs, last, rfl, parts, hparams, kinds⟩ :=
      LowersTo.function_inv (hs ▸ hfilled.lowers)
    rw [hparams] at hp
    obtain ⟨⟨part, _⟩, hpart, rfl⟩ := List.mem_map.mp hp
    have hchild : part ∈ childParts types := parts ▸ part_mem hpart
    obtain ⟨type, htype, rfl⟩ := List.mem_map.mp hchild
    exact declared (fun _ _ _ => rfl) hfilled (List.mem_append_left _ hpart)
      fun _ _ _ hkind lowers => lowers.of_parameter (kinds type htype) hkind

end Completes

/-- **The members of lowered objects are properties and index signatures.** -/
theorem membersInPlace_of_lower {root : TypeId} {maxDepth : Nat}
    (h : lower g root maxDepth = .ok a) : a.MembersInPlace := by
  obtain ⟨s, hwalk, completes⟩ := exists_completes_of_lower h
  exact completes.membersInPlace (filled_of_lowerType hwalk).2.1

end Arena

end Typeforge
