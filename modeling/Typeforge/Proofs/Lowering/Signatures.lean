/-
# `Typeforge.Proofs.Lowering.Signatures` — when index signatures conflict

An object goes on with one of the index signatures that it declares.  The first one is
kept, and each of the others is compared with the one that is kept when its turn comes.
Since a signature is kept in the place of another only if the identities of their value
types are equal, it does not matter which one it is compared with: signatures conflict
exactly if some object declares two whose value types have different identities.

These are the identities before any object is merged.  They tell types apart as far as
identities do; but two value types that become the same when signatures inside them are
merged may still be called differently then, and two that are called the same may come
to differ.

`Arena.conflicts_iff` has the exact condition, and what follows for types: from
different types to a conflict where identities are faithful, and from equal ones to none
where no cycle can be reached, as two names of one recursive type may differ.
-/
import Typeforge.Proofs.Lowering.Identical
import Typeforge.Proofs.Lowering.WellFormed

namespace Typeforge

/-! ## Declared signatures -/

/-- An object type or class declares an index signature for string or number keys. -/
def TypeGraph.DeclaresIndex (g : TypeGraph) (type : TypeId) (filter : KeyFilter)
    (value : TypeId) : Prop :=
  ∃ kind members className signature key, g.kind type = .ok kind ∧
    kind.members? = some (members, className) ∧ signature ∈ members ∧
    g.kind signature = .ok (.indexSignature key value) ∧ g.keyFilter? key = some filter

/-- What is declared with members is neither an atom nor a function. -/
theorem TypeKind.of_members {kind : TypeKind} {x : List TypeId × Option String}
    (h : kind.members? = some x) : kind.atom? = none ∧ kind.function? = none := by
  cases kind <;> first | exact ⟨rfl, rfl⟩ | cases h

namespace Walk

variable {g : TypeGraph} {seen : Bool} {members : List TypeId} {parts : List Part}

/-- What is declared with members is lowered to an object. -/
theorem LowersTo.members_inv {kind : TypeKind} {visited : List (Part × NodeId)} {shape : Shape}
    {className : Option String} (h : LowersTo g kind visited shape)
    (hmembers : kind.members? = some (members, className)) :
    MemberParts g false members (visited.map (·.1)) ∧
      shape = .object (nodesOf .property visited) (nodesOf .index visited).head? className := by
  cases h
  case object h parts =>
    cases hmembers.symm.trans h
    exact ⟨parts, rfl⟩
  case atom h => cases h.symm.trans (TypeKind.of_members hmembers).1
  case function _ _ h => cases h.symm.trans (TypeKind.of_members hmembers).2
  case date =>
    rw [TypeKind.members?, if_pos rfl] at hmembers
    cases hmembers
  all_goals cases hmembers

/-- Signatures for string or number keys are kept or put aside. -/
theorem MemberParts.exists_signature (h : MemberParts g seen members parts) {id key value : TypeId}
    {filter : KeyFilter} (hid : id ∈ members) (hkind : g.kind id = .ok (.indexSignature key value))
    (hkey : g.keyFilter? key = some filter) :
    ∃ role, (role = .index ∨ role = .aside) ∧ ⟨id, role⟩ ∈ parts := by
  induction h with
  | nil => cases hid
  | @dropped seen other rest parts hdropped _ ih =>
    rcases List.mem_cons.mp hid with rfl | hid
    · cases hdropped with
      | property h => cases hkind.symm.trans h
      | symbol h hsymbol =>
        cases hkind.symm.trans h
        rw [TypeGraph.keyFilter?, hsymbol] at hkey
        cases hkey
      | function h hfunction =>
        cases hkind.symm.trans h
        cases hfunction
    · exact ih hid
  | property h _ ih =>
    rcases List.mem_cons.mp hid with rfl | hid
    · cases hkind.symm.trans h
    · obtain ⟨role, hrole, hmem⟩ := ih hid
      exact ⟨role, hrole, List.mem_cons_of_mem _ hmem⟩
  | @index seen _ _ _ _ _ h _ ih =>
    rcases List.mem_cons.mp hid with rfl | hid
    · refine ⟨_, ?_, List.mem_cons_self⟩
      cases seen
      · exact .inl rfl
      · exact .inr rfl
    · obtain ⟨role, hrole, hmem⟩ := ih hid
      exact ⟨role, hrole, List.mem_cons_of_mem _ hmem⟩

/-- One signature is kept, unless there is none; then none is put aside. -/
theorem MemberParts.index_cases (h : MemberParts g seen members parts) :
    (∀ part ∈ parts, part.role ≠ .index ∧ (seen = false → part.role ≠ .aside)) ∨
      seen = false ∧ ∃ part, parts.filter (·.role = .index) = [part] := by
  induction h with
  | nil => exact .inl (List.forall_mem_nil _)
  | dropped _ _ ih => exact ih
  | property _ _ ih =>
    rcases ih with hnone | ⟨rfl, part, hone⟩
    · refine .inl (List.forall_mem_cons.mpr ⟨⟨?_, fun _ => ?_⟩, hnone⟩) <;> exact Role.noConfusion
    · exact .inr ⟨rfl, part, by rw [List.filter_cons_of_neg Bool.false_ne_true, hone]⟩
  | @index seen id rest parts key type _ _ ih =>
    rcases ih with hnone | ⟨hseen, -⟩
    · cases seen with
      | true =>
        refine .inl (List.forall_mem_cons.mpr ⟨⟨Role.noConfusion, Bool.noConfusion⟩, ?_⟩)
        exact fun part hpart => ⟨(hnone part hpart).1, Bool.noConfusion⟩
      | false =>
        refine .inr ⟨rfl, ⟨id, .index⟩, ?_⟩
        rw [if_neg Bool.false_ne_true, List.filter_cons_of_pos rfl]
        refine congrArg _ (List.filter_eq_nil_iff.mpr fun part hpart => ?_)
        rw [decide_eq_true_iff]
        exact (hnone part hpart).1
    · cases hseen

/-- The node of the signature that is kept, if there is one. -/
theorem MemberParts.nodesOf_index {visited : List (Part × NodeId)}
    (h : MemberParts g false members (visited.map (·.1))) :
    nodesOf .index visited = [] ∧ nodesOf .aside visited = [] ∨
      ∃ kept, nodesOf .index visited = [kept] := by
  rcases h.index_cases with hnone | ⟨-, part, hone⟩
  · refine .inl ⟨?_, ?_⟩ <;> refine List.eq_nil_iff_forall_not_mem.mpr fun node hnode => ?_
    · obtain ⟨part, hpart, hrole⟩ := mem_nodesOf.mp hnode
      exact (hnone part (part_mem hpart)).1 hrole
    · obtain ⟨part, hpart, hrole⟩ := mem_nodesOf.mp hnode
      exact (hnone part (part_mem hpart)).2 rfl hrole
  · refine .inr ?_
    rw [List.filter_map] at hone
    have hlength := congrArg List.length hone
    rw [List.length_map] at hlength
    exact List.length_eq_one_iff.mp ((List.length_map _).trans hlength)

end Walk

namespace Arena

open Walk

variable {g : TypeGraph} {a b c : Arena} {s : WalkState} {object : NodeId}

/-! ## The arena before merging -/

/-- An arena has the nodes of a walk. -/
structure WalkedBy (g : TypeGraph) (s : WalkState) (b : Arena) : Prop where
  size : s.nodes.size = b.size
  shape : ∀ id, (b.node id).shape = (s.node id).shape
  source : ∀ id, (b.node id).source = (s.node id).source
  filled : AllFilled g s
  sources : ∀ id ∈ b.ids, ∀ id' ∈ b.ids, (b.node id).source = (b.node id').source → id = id'

/-- What becomes of an arena after its signatures were merged. -/
def finish (r : Arena × Bool) : Arena :=
  (if r.2 then r.1.assignIdentities else r.1).markShared.assignHeights

/-- Lowering merges what the walk has put aside, after the passes before. -/
theorem exists_walkedBy {root : TypeId} {maxDepth : Nat}
    (hb : beforeMerging g root maxDepth = .ok b) : ∃ s, WalkedBy g s b ∧
      lower g root maxDepth = (b.mergeIndexes false s.aside).map finish := by
  obtain ⟨⟨root', s⟩, hwalk, hb⟩ := Except.bind_eq_ok.mp hb
  cases hb
  obtain ⟨finished, stage, -, -⟩ := advances_lowerType hwalk [] [] WalkState.stage_empty
  have field {β : Type} (field : Node → β)
      (hneeds : ∀ n encode decode, field { n with needsEncode := encode, needsDecode := decode } =
        field n) (hidentity : ∀ n identity, field { n with identity } = field n) (id : NodeId) :
      field ((Arena.mk s.nodes root').markJsonNeeds.assignIdentities.node id) =
        field (s.node id) := by
    rw [field_assignIdentities field hidentity, field_markJsonNeeds field hneeds]
    rfl
  have hsize : s.nodes.size = (Arena.mk s.nodes root').markJsonNeeds.assignIdentities.size := by
    rw [size_assignIdentities, size_markJsonNeeds]
    rfl
  have hsource := field Node.source (fun _ _ _ => rfl) fun _ _ => rfl
  refine ⟨s, ⟨hsize, field Node.shape (fun _ _ _ => rfl) fun _ _ => rfl, hsource,
    (filled_of_lowerType hwalk).2.1, fun id hid id' hid' heq => ?_⟩, ?_⟩
  · rw [hsource, hsource] at heq
    exact stage.sources id id' (hsize ▸ mem_ids.mp hid) (hsize ▸ mem_ids.mp hid') heq
  · rw [lower, hwalk]
    change (mergeIndexes _ _ _ >>= _) = _
    cases mergeIndexes (Arena.mk s.nodes root').markJsonNeeds.assignIdentities false s.aside <;> rfl

/-- Before merging, too, identities spell their nodes. -/
theorem exists_spells_of_beforeMerging {root : TypeId} {maxDepth : Nat}
    (hb : beforeMerging g root maxDepth = .ok b) {id : NodeId} (hid : id ∈ b.ids) :
    ∃ t : Spelling, t.text = (b.node id).identity ∧ b.Spells [] t id := by
  obtain ⟨⟨root', s⟩, hwalk, hb⟩ := Except.bind_eq_ok.mp hb
  cases hb
  have closed (id : NodeId) : ∀ child ∈ ((Arena.mk s.nodes root').node id).children,
      child ∈ (Arena.mk s.nodes root').ids := by
    intro child hchild
    have hin : id.index < s.nodes.size := by
      by_contra hout
      rw [node_eq_default (mem_ids.not.mpr hout)] at hchild
      exact absurd hchild List.not_mem_nil
    exact mem_ids.mpr (lt_size_of_reference hwalk hin (List.mem_append_left _ hchild))
  have alike : (Arena.mk s.nodes root').Alike (Arena.mk s.nodes root').markJsonNeeds :=
    ⟨(size_markJsonNeeds _).symm, fun id => (field_markJsonNeeds Node.shape (fun _ _ _ => rfl) id).symm,
      fun id => (field_markJsonNeeds Node.optional (fun _ _ _ => rfl) id).symm⟩
  have named := (sameMarks_assignIdentities (Arena.mk s.nodes root').markJsonNeeds).alike
  obtain ⟨t, htext, -, spells⟩ :=
    spelledOut_assignIdentities (alike.closed closed) (named.symm.mem_ids hid)
  exact ⟨t, htext, spells.of_alike named⟩

/-- The value type of an index signature that an object declares has a node. -/
structure DeclaredIndex (g : TypeGraph) (b : Arena) (object : NodeId) (filter : KeyFilter)
    (child : NodeId) : Prop where
  mem : object ∈ b.ids
  childMem : child ∈ b.ids
  declares : g.DeclaresIndex (b.node object).source filter (b.node child).source

section

variable (walked : WalkedBy g s b)

include walked

/-- The nodes of the signatures that are kept and put aside are those of declared signatures. -/
theorem WalkedBy.declaredIndex {props : List NodeId} {index : Option NodeId}
    {className : Option String} (hshape : (b.node object).shape = .object props index className)
    {node : NodeId} (hnode : index = some node ∨ (object, node) ∈ s.aside) :
    ∃ filter child, (b.node node).shape = .indexSignature filter child ∧
      DeclaredIndex g b object filter child := by
  rw [walked.shape] at hshape
  obtain ⟨kind, visited, hfilled⟩ := walked.filled.of_shape fun x hx => by
    rw [hx] at hshape
    cases hshape
  obtain ⟨members, hmembers, parts, -, rfl⟩ := LowersTo.object_inv (hshape ▸ hfilled.lowers)
  obtain ⟨part, hpart, hrole⟩ : ∃ part, (part, node) ∈ visited ∧
      (part.role = .index ∨ part.role = .aside) := by
    rcases hnode with hnode | hnode
    · obtain ⟨part, hpart, hrole⟩ := mem_nodesOf.mp (List.mem_of_head? hnode)
      exact ⟨part, hpart, .inl hrole⟩
    · obtain ⟨part, hpart, hrole⟩ := hfilled.aside node hnode
      exact ⟨part, hpart, .inr hrole⟩
  obtain ⟨hmem, hkind⟩ := parts.kind_of_mem (part_mem hpart)
  obtain ⟨key, value, hkind⟩ : ∃ key value, g.kind part.type = .ok (.indexSignature key value) := by
    rcases hkind with ⟨hproperty, -⟩ | ⟨-, hkind⟩
    · rw [hproperty] at hrole
      rcases hrole with h | h <;> cases h
    · exact hkind
  obtain ⟨kind', visited', hkind', hfilled'⟩ := walked.filled.part hfilled hpart
  obtain rfl := Except.ok.inj (hkind'.symm.trans hkind)
  obtain ⟨filter, child, hkey, rfl, hsignature⟩ := hfilled'.lowers.of_indexSignature
  obtain ⟨hchild, hsource⟩ := (hfilled'.placed _ (List.mem_singleton_self _)).nodeFor
  have hobject : object ∈ b.ids := by
    by_contra hout
    rw [← walked.shape, node_eq_default hout] at hshape
    cases hshape
  refine ⟨filter, child, by rw [walked.shape, hsignature], hobject, ?_, ?_⟩
  · rw [mem_ids, ← walked.size]
    exact hchild
  · rw [walked.source, walked.source, hsource]
    exact ⟨kind, members, className, part.type, key, hfilled.source, hmembers, hmem, hkind, hkey⟩

/-- A declared signature is kept, or another one is and it is put aside. -/
theorem WalkedBy.exists_signature {filter : KeyFilter} {value : TypeId} (hobject : object ∈ b.ids)
    (h : g.DeclaresIndex (b.node object).source filter value) :
    ∃ props kept className node child,
      (b.node object).shape = .object props (some kept) className ∧
      (node = kept ∨ (object, node) ∈ s.aside) ∧ (b.node node).shape = .indexSignature filter child ∧
      child ∈ b.ids ∧ (b.node child).source = value := by
  obtain ⟨kind, members, className, id, key, hkind, hmembers, hid, hsignature, hkey⟩ := h
  obtain ⟨kind', visited, hfilled⟩ := walked.filled object (by rw [walked.size]; exact mem_ids.mp hobject)
  rw [walked.source, hfilled.source] at hkind
  obtain rfl := Except.ok.inj hkind
  obtain ⟨parts, hshape⟩ := hfilled.lowers.members_inv hmembers
  obtain ⟨role, hrole, hpart⟩ := parts.exists_signature hid hsignature hkey
  obtain ⟨⟨part, node⟩, hvisited, rfl⟩ := List.mem_map.mp hpart
  obtain ⟨kind'', visited', hkind', hfilled'⟩ := walked.filled.part hfilled hvisited
  obtain rfl := Except.ok.inj (hkind'.symm.trans hsignature)
  obtain ⟨filter', child, hkey', rfl, hnode⟩ := hfilled'.lowers.of_indexSignature
  obtain rfl := Option.some.inj (hkey.symm.trans hkey')
  obtain ⟨hchild, hsource⟩ := (hfilled'.placed _ (List.mem_singleton_self _)).nodeFor
  obtain ⟨kept, hkept⟩ : ∃ kept, nodesOf .index visited = [kept] := by
    rcases parts.nodesOf_index with ⟨hindex, haside⟩ | hone
    · exfalso
      rcases hrole with rfl | rfl
      · exact List.eq_nil_iff_forall_not_mem.mp hindex node (mem_nodesOf.mpr ⟨_, hvisited, rfl⟩)
      · exact List.eq_nil_iff_forall_not_mem.mp haside node (mem_nodesOf.mpr ⟨_, hvisited, rfl⟩)
    · exact hone
  refine ⟨nodesOf .property visited, kept, className, node, child, ?_, ?_,
    by rw [walked.shape, hnode], ?_, ?_⟩
  · rw [walked.shape, hshape, hkept, List.head?_cons]
  · rcases hrole with rfl | rfl
    · have hmem : node ∈ nodesOf .index visited := mem_nodesOf.mpr ⟨_, hvisited, rfl⟩
      rw [hkept] at hmem
      exact .inl (List.mem_singleton.mp hmem)
    · exact .inr ((hfilled.placed _ hvisited).aside rfl)
  · rw [mem_ids, ← walked.size]
    exact hchild
  · rw [walked.source]
    exact hsource

end

/-! ## Merging -/

/-- The value types of the signature that an object keeps and of another have one identity. -/
def AgreesAt (b : Arena) (object candidate : NodeId) : Prop :=
  ∀ props kept className filter child filter' child',
    (b.node object).shape = .object props (some kept) className →
    (b.node kept).shape = .indexSignature filter child →
    (b.node candidate).shape = .indexSignature filter' child' →
    (b.node child).identity = (b.node child').identity

/-- Whichever signature an object goes on with, it agrees with the same others. -/
theorem Redirected.agreesAt (h : b.Redirected c) (candidate : NodeId) :
    c.AgreesAt object candidate ↔ b.AgreesAt object candidate := by
  constructor
  · intro agrees props kept className filter child filter' child' hobject hkept hcandidate
    have hkept' := h.shape_of_eq hkept fun _ _ _ => Shape.noConfusion
    have hcandidate' := h.shape_of_eq hcandidate fun _ _ _ => Shape.noConfusion
    rcases h.shape object with heq | ⟨_, _, other, _, hb, hc, first, value, second, value', hfirst,
      hsecond, hidentity⟩
    · have := agrees props kept className filter child filter' child' (heq.symm.trans hobject)
        hkept' hcandidate'
      rwa [← h.identity, ← h.identity] at this
    · cases hobject.symm.trans hb
      cases hkept.symm.trans hfirst
      have hother := h.shape_of_eq hsecond fun _ _ _ => Shape.noConfusion
      have := agrees _ other _ second value' filter' child' hc hother hcandidate'
      rw [← h.identity, ← h.identity] at this
      exact hidentity.trans this
  · intro agrees props kept className filter child filter' child' hobject hkept hcandidate
    have hkept' := h.shape_eq hkept fun _ _ _ => Shape.noConfusion
    have hcandidate' := h.shape_eq hcandidate fun _ _ _ => Shape.noConfusion
    rw [← h.identity, ← h.identity]
    rcases h.shape object with heq | ⟨_, first, _, _, hb, hc, filter₁, value, filter₂, value', hfirst,
      hsecond, hidentity⟩
    · exact agrees props kept className filter child filter' child' (heq.trans hobject) hkept'
        hcandidate'
    · cases hobject.symm.trans hc
      cases hkept'.symm.trans hsecond
      exact hidentity.symm.trans (agrees _ first _ filter₁ value filter' child' hb hfirst hcandidate')

theorem mergeIndex_isOk {candidate : NodeId} :
    (∃ r, a.mergeIndex object candidate = .ok r) ↔ a.AgreesAt object candidate := by
  unfold mergeIndex
  dsimp only
  constructor
  · rintro ⟨r, h⟩ props kept className filter child filter' child' hobject hkept hcandidate
    rw [hobject] at h
    dsimp only at h
    rw [hkept, hcandidate] at h
    dsimp only at h
    split at h
    · cases h
    · rename_i hidentity
      exact not_not.mp hidentity
  · intro agrees
    split
    · rename_i props kept className hobject
      split
      · rename_i filter child filter' child' hkept hcandidate
        rw [if_neg (not_not.mpr (agrees _ _ _ _ _ _ _ hobject hkept hcandidate))]
        split <;> exact ⟨_, rfl⟩
      · exact ⟨_, rfl⟩
    · exact ⟨_, rfl⟩

/-- **Merging goes through exactly if all agree** that were put aside. -/
theorem mergeIndexes_isOk {aside : List (NodeId × NodeId)} (changed : Bool) (h : b.Redirected a) :
    (∃ r, a.mergeIndexes changed aside = .ok r) ↔ ∀ x ∈ aside, b.AgreesAt x.1 x.2 := by
  induction aside generalizing a changed with
  | nil => exact ⟨fun _ => List.forall_mem_nil _, fun _ => ⟨_, rfl⟩⟩
  | cons x rest ih =>
    rw [List.forall_mem_cons, ← h.agreesAt, ← mergeIndex_isOk, mergeIndexes]
    constructor
    · rintro ⟨r, hr⟩
      obtain ⟨⟨a', merged⟩, hfirst, hrest⟩ := Except.bind_eq_ok.mp hr
      exact ⟨⟨_, hfirst⟩, (ih _ (redirected_mergeIndex h hfirst)).mp ⟨r, hrest⟩⟩
    · rintro ⟨⟨⟨a', merged⟩, hfirst⟩, hrest⟩
      obtain ⟨r, hr⟩ := (ih (changed || merged) (redirected_mergeIndex h hfirst)).mpr hrest
      exact ⟨r, Except.bind_eq_ok.mpr ⟨_, hfirst, hr⟩⟩

/-- All that was put aside agrees exactly if the value types of all signatures that an object
declares have one identity. -/
theorem WalkedBy.agree_iff (walked : WalkedBy g s b) : (∀ x ∈ s.aside, b.AgreesAt x.1 x.2) ↔
    ∀ object filter child filter' child', DeclaredIndex g b object filter child →
      DeclaredIndex g b object filter' child' →
      (b.node child).identity = (b.node child').identity := by
  constructor
  · intro agree object filter child filter' child' declared declared'
    -- both agree with the one that is kept
    have hkept {filter : KeyFilter} {child : NodeId} (declared : DeclaredIndex g b object filter child) :
        ∃ props kept className, (b.node object).shape = .object props (some kept) className ∧
          ∀ keptFilter keptChild, (b.node kept).shape = .indexSignature keptFilter keptChild →
            (b.node keptChild).identity = (b.node child).identity := by
      obtain ⟨props, kept, className, node, found, hobject, hnode, hshape, hfound, hsource⟩ :=
        walked.exists_signature declared.mem declared.declares
      obtain rfl := walked.sources found hfound child declared.childMem hsource
      refine ⟨props, kept, className, hobject, fun keptFilter keptChild hkept => ?_⟩
      rcases hnode with rfl | haside
      · cases hkept.symm.trans hshape
        rfl
      · exact agree _ haside _ _ _ _ _ _ _ hobject hkept hshape
    obtain ⟨props, kept, className, hobject, hfirst⟩ := hkept declared
    obtain ⟨_, _, _, hobject', hsecond⟩ := hkept declared'
    cases hobject.symm.trans hobject'
    obtain ⟨keptFilter, keptChild, hshape, -⟩ := walked.declaredIndex hobject (.inl rfl)
    exact (hfirst _ _ hshape).symm.trans (hsecond _ _ hshape)
  · rintro agree ⟨object, candidate⟩ haside props kept className filter child filter' child' hobject
      hkept hcandidate
    obtain ⟨_, _, hshape, declared⟩ := walked.declaredIndex hobject (.inl rfl)
    obtain ⟨_, _, hshape', declared'⟩ := walked.declaredIndex hobject (.inr haside)
    cases hkept.symm.trans hshape
    cases hcandidate.symm.trans hshape'
    exact agree _ _ _ _ _ declared declared'

/-! ## The signature that is left -/

/-- A signature for some keys covers those for others. -/
def Covering (filter other : KeyFilter) : Prop :=
  ∀ key, other.accepts key = true → filter.accepts key = true

/-- What an object has, and the keys of its index signature. -/
def LeftWith (a : Arena) (object : NodeId) (props : List NodeId) (className : Option String)
    (filter : KeyFilter) : Prop :=
  ∃ kept child, (a.node object).shape = .object props (some kept) className ∧
    (a.node kept).shape = .indexSignature filter child

section

variable {props : List NodeId} {className : Option String} {filter : KeyFilter}

theorem LeftWith.redirected (h : a.Redirected b)
    (hobject : (b.node object).shape = (a.node object).shape)
    (left : a.LeftWith object props className filter) : b.LeftWith object props className filter := by
  obtain ⟨kept, child, hshape, hkept⟩ := left
  exact ⟨kept, child, hobject.trans hshape, h.shape_of_eq hkept fun _ _ _ => Shape.noConfusion⟩

/-- An object goes on with a signature that was put aside if that widens the one it has. -/
theorem mergeIndex_cases {other candidate : NodeId} {merged : Bool}
    (h : a.mergeIndex other candidate = .ok (c, merged)) :
    (∃ props kept className child value, (a.node other).shape = .object props (some kept) className ∧
      (a.node kept).shape = .indexSignature .numeric child ∧
      (a.node candidate).shape = .indexSignature .anyKey value ∧
      c = a.set other { a.node other with shape := .object props (some candidate) className }) ∨
    c = a ∧ ∀ props kept className keptFilter child found value,
      (a.node other).shape = .object props (some kept) className →
      (a.node kept).shape = .indexSignature keptFilter child →
      (a.node candidate).shape = .indexSignature found value →
      ¬(keptFilter = .numeric ∧ found = .anyKey) := by
  unfold mergeIndex at h
  dsimp only at h
  split at h
  · rename_i props kept className hobject
    split at h
    · rename_i keptFilter child found value hkept hcandidate
      split at h
      · cases h
      · split at h
        · rename_i hwidens
          obtain ⟨rfl, rfl⟩ := hwidens
          cases h
          exact .inl ⟨props, kept, className, child, value, hobject, hkept, hcandidate, rfl⟩
        · rename_i hwidens
          cases h
          refine .inr ⟨rfl, ?_⟩
          rintro _ _ _ _ _ _ _ hobject' hkept' hcandidate'
          cases hobject.symm.trans hobject'
          cases hkept.symm.trans hkept'
          cases hcandidate.symm.trans hcandidate'
          exact hwidens
    · rename_i hnot
      cases h
      exact .inr ⟨rfl, fun _ _ _ _ _ _ _ hobject' hkept' hcandidate' => by
        cases hobject.symm.trans hobject'
        exact absurd hcandidate' (hnot _ _ _ _ hkept')⟩
  · rename_i hnot
    cases h
    exact .inr ⟨rfl, fun _ _ _ _ _ _ _ hobject' => absurd hobject' (hnot _ _ _)⟩

theorem covering_of_not_wider (found : KeyFilter) (h : ¬(filter = .numeric ∧ found = .anyKey)) :
    Covering filter found := by
  cases filter with
  | anyKey => exact fun _ _ => rfl
  | numeric =>
    cases found with
    | anyKey => exact absurd ⟨rfl, rfl⟩ h
    | numeric => exact fun _ => id

/-- Where a signature is merged into one that is kept, what is left covers both. -/
theorem covering_mergeIndex {other candidate : NodeId} {merged : Bool}
    (h : a.mergeIndex other candidate = .ok (c, merged))
    (left : a.LeftWith object props className filter) :
    ∃ filter', c.LeftWith object props className filter' ∧ Covering filter' filter ∧
      (other = object → ∀ found child, (a.node candidate).shape = .indexSignature found child →
        Covering filter' found) := by
  have redirected := redirected_mergeIndex (.refl a) h
  rcases mergeIndex_cases h with ⟨props', kept', className', child', value, hobject', hkept',
    hcandidate, rfl⟩ | ⟨rfl, hnot⟩
  · by_cases hother : other = object
    · subst hother
      obtain ⟨kept, child, hobject, hkept⟩ := left
      cases hobject.symm.trans hobject'
      have hin : other ∈ a.ids := by
        by_contra hout
        rw [node_eq_default hout] at hobject
        cases hobject
      refine ⟨.anyKey, ⟨candidate, value, ?_, ?_⟩, fun _ _ => rfl, fun _ _ _ _ _ _ => rfl⟩
      · rw [node_set_self hin]
      · exact redirected.shape_of_eq hcandidate fun _ _ _ => Shape.noConfusion
    · refine ⟨filter, left.redirected redirected ?_, fun _ => id, fun heq => absurd heq hother⟩
      rw [node_set_ne (Ne.symm hother)]
  · refine ⟨filter, left, fun _ => id, ?_⟩
    rintro rfl found value hcandidate
    obtain ⟨kept, child, hobject, hkept⟩ := left
    exact covering_of_not_wider found (hnot _ _ _ _ _ _ _ hobject hkept hcandidate)

/-- What is left at last covers all signatures that were put aside for an object. -/
theorem covering_mergeIndexes {aside : List (NodeId × NodeId)} {changed merged : Bool}
    (h : a.mergeIndexes changed aside = .ok (c, merged))
    (left : a.LeftWith object props className filter) :
    ∃ filter', c.LeftWith object props className filter' ∧ Covering filter' filter ∧
      ∀ candidate, (object, candidate) ∈ aside → ∀ found child,
        (a.node candidate).shape = .indexSignature found child → Covering filter' found := by
  induction aside generalizing a changed filter with
  | nil =>
    cases h
    exact ⟨filter, left, fun _ => id, fun _ h => by cases h⟩
  | cons x rest ih =>
    rw [mergeIndexes] at h
    obtain ⟨⟨b, first⟩, hfirst, hrest⟩ := Except.bind_eq_ok.mp h
    have redirected := redirected_mergeIndex (.refl a) hfirst
    obtain ⟨filter₁, left₁, covers₁, covered⟩ := covering_mergeIndex hfirst left
    obtain ⟨filter₂, left₂, covers₂, hcovers⟩ := ih hrest left₁
    refine ⟨filter₂, left₂, fun key h => covers₂ key (covers₁ key h), ?_⟩
    intro candidate hmem found child hshape
    rcases List.mem_cons.mp hmem with rfl | hmem
    · exact fun key h => covers₂ key (covered rfl found child hshape key h)
    · exact hcovers candidate hmem found child
        (redirected.shape_of_eq hshape fun _ _ _ => Shape.noConfusion)

end

/-! ## The whole -/

/-- Lowering ends with a conflict of index signatures. -/
def Conflicts (g : TypeGraph) (root : TypeId) (maxDepth : Nat) : Prop :=
  ∃ name, lower g root maxDepth = .error (.conflictingIndexSignatures name)

variable {root : TypeId} {maxDepth : Nat}

/-- A walk knows of no conflicts. -/
theorem exists_beforeMerging (h : Conflicts g root maxDepth) :
    ∃ b, beforeMerging g root maxDepth = .ok b := by
  obtain ⟨name, h⟩ := h
  have hreads (id : TypeId) :
      g.Reads (fun e => ∃ name, e = .conflictingIndexSignatures name) id := by
    rintro e hnode ⟨name, rfl⟩
    unfold TypeGraph.node at hnode
    split at hnode <;> cases hnode
  cases hwalk : (Walk.lowerType g maxDepth (maxDepth + 1) [] root).run {} with
  | error e =>
    rw [lower, hwalk] at h
    cases h
    exact absurd ⟨name, rfl⟩ (avoids_lowerType _ (fun _ => .inr) (fun _ _ _ child _ => hreads child)
      (hreads root) {} _ hwalk)
  | ok r => exact ⟨_, by rw [beforeMerging, hwalk]; rfl⟩

/-- Whether lowering ends with a conflict is a matter of the identities before merging. -/
theorem conflicts_of_beforeMerging (hb : beforeMerging g root maxDepth = .ok b) :
    ((∃ a, lower g root maxDepth = .ok a) ∨ Conflicts g root maxDepth) ∧
    (Conflicts g root maxDepth ↔ ¬∀ object filter child filter' child',
      DeclaredIndex g b object filter child → DeclaredIndex g b object filter' child' →
      (b.node child).identity = (b.node child').identity) := by
  obtain ⟨s, walked, hlower⟩ := exists_walkedBy hb
  rw [← walked.agree_iff, ← mergeIndexes_isOk false (.refl b)]
  cases hmerge : b.mergeIndexes false s.aside with
  | ok r =>
    rw [hmerge] at hlower
    refine ⟨.inl ⟨_, hlower⟩, ?_, fun h => absurd ⟨r, rfl⟩ h⟩
    rintro ⟨name, hname⟩
    cases hname.symm.trans hlower
  | error e =>
    rw [hmerge] at hlower
    obtain ⟨name, rfl⟩ := conflict_of_mergeIndexes hmerge
    refine ⟨.inr ⟨name, hlower⟩, fun _ => ?_, fun _ => ⟨name, hlower⟩⟩
    rintro ⟨r, hr⟩
    cases hr

/-- What an object of a lowered arena goes on with covers all signatures that it declares. -/
theorem covering_of_lower (h : lower g root maxDepth = .ok a) {filter : KeyFilter} {value : TypeId}
    (hobject : object ∈ a.ids) (declares : g.DeclaresIndex (a.node object).source filter value) :
    ∃ props className filter', a.LeftWith object props className filter' ∧
      Covering filter' filter := by
  obtain ⟨⟨root', walk⟩, hwalk, -⟩ := Except.bind_eq_ok.mp h
  have hb : beforeMerging g root maxDepth =
      .ok (Arena.mk walk.nodes root').markJsonNeeds.assignIdentities := by
    rw [beforeMerging, hwalk]
    rfl
  obtain ⟨s, walked, hlower⟩ := exists_walkedBy hb
  generalize (Arena.mk walk.nodes root').markJsonNeeds.assignIdentities = b at walked hlower
  obtain ⟨⟨c, merged⟩, hmerge, rfl⟩ := Except.map_eq_ok.mp (hlower.symm.trans h)
  have redirected := redirected_mergeIndexes (.refl b) hmerge
  have hshape (id : NodeId) : ((finish (c, merged)).node id).shape = (c.node id).shape :=
    field_passes Node.shape (fun _ _ _ _ => rfl) c merged id
  have hsource (id : NodeId) : ((finish (c, merged)).node id).source = (b.node id).source :=
    (field_passes Node.source (fun _ _ _ _ => rfl) c merged id).trans
      (field_mergeIndexes Node.source (fun _ _ => rfl) hmerge id)
  have hsize : (finish (c, merged)).size = b.size := by
    rw [finish, size_assignHeights, size_markShared, redirected.size]
    cases merged with
    | true => exact size_assignIdentities c
    | false => rfl
  rw [hsource] at declares
  obtain ⟨props, kept, className, node, child, hkept, hnode, hsignature, -⟩ :=
    walked.exists_signature (by rw [mem_ids, ← hsize]; exact mem_ids.mp hobject) declares
  obtain ⟨keptFilter, keptChild, hkeptShape, -⟩ := walked.declaredIndex hkept (.inl rfl)
  obtain ⟨filter', ⟨last, lastChild, hlast, hlastShape⟩, covers, hcovers⟩ :=
    covering_mergeIndexes hmerge ⟨kept, keptChild, hkept, hkeptShape⟩
  refine ⟨props, className, filter', ⟨last, lastChild, ?_, ?_⟩, ?_⟩
  · rw [hshape, hlast]
  · rw [hshape, hlastShape]
  · rcases hnode with rfl | haside
    · cases hkeptShape.symm.trans hsignature
      exact covers
    · exact hcovers node haside filter child hsignature

/-- **Index signatures conflict exactly if some object declares two whose value types have different
identities before merging.**  So they do if the value types differ where identities are faithful,
and they do not if no cycles can be reached from the value types and they unfold alike.  The
signature that an object goes on with covers all that it declares. -/
theorem conflicts_iff (g : TypeGraph) (root : TypeId) (maxDepth : Nat) :
    (Conflicts g root maxDepth ↔ ∃ b, beforeMerging g root maxDepth = .ok b ∧
      ∃ object filter child filter' child', DeclaredIndex g b object filter child ∧
        DeclaredIndex g b object filter' child' ∧
        (b.node child).identity ≠ (b.node child').identity) ∧
    (∀ b, beforeMerging g root maxDepth = .ok b → b.Faithful →
      (∃ object filter child filter' child', DeclaredIndex g b object filter child ∧
        DeclaredIndex g b object filter' child' ∧ b.unfolding child ≠ b.unfolding child') →
      Conflicts g root maxDepth) ∧
    (∀ b, beforeMerging g root maxDepth = .ok b →
      (∀ object filter child filter' child', DeclaredIndex g b object filter child →
        DeclaredIndex g b object filter' child' → b.Acyclic child ∧ b.Acyclic child' ∧
          ∀ place, b.headAt child place = b.headAt child' place) →
      ∃ a, lower g root maxDepth = .ok a) ∧
    ∀ a, lower g root maxDepth = .ok a → ∀ object ∈ a.ids, ∀ filter value,
      g.DeclaresIndex (a.node object).source filter value →
      ∃ props className filter', a.LeftWith object props className filter' ∧
        Covering filter' filter := by
  have differ {b : Arena} (hb : beforeMerging g root maxDepth = .ok b) {object child child' : NodeId}
      {filter filter' : KeyFilter} (declared : DeclaredIndex g b object filter child)
      (declared' : DeclaredIndex g b object filter' child')
      (hne : (b.node child).identity ≠ (b.node child').identity) : Conflicts g root maxDepth :=
    (conflicts_of_beforeMerging hb).2.mpr fun h => hne (h _ _ _ _ _ declared declared')
  refine ⟨⟨fun h => ?_, ?_⟩, ?_, fun b hb alike => ?_, fun a h object hobject filter value declares =>
    covering_of_lower h hobject declares⟩
  · obtain ⟨b, hb⟩ := exists_beforeMerging h
    have hnot := (conflicts_of_beforeMerging hb).2.mp h
    push Not at hnot
    exact ⟨b, hb, hnot⟩
  · rintro ⟨b, hb, object, filter, child, filter', child', declared, declared', hne⟩
    exact differ hb declared declared' hne
  · rintro b hb faithful ⟨object, filter, child, filter', child', declared, declared', hne⟩
    exact differ hb declared declared' fun heq => hne (faithful child child' heq)
  · refine (conflicts_of_beforeMerging hb).1.resolve_right fun h => ?_
    refine (conflicts_of_beforeMerging hb).2.mp h fun object filter child filter' child' declared
      declared' => ?_
    obtain ⟨acyclic, acyclic', heads⟩ := alike _ _ _ _ _ declared declared'
    obtain ⟨t, htext, spells⟩ := exists_spells_of_beforeMerging hb declared.childMem
    obtain ⟨u, hutext, spells'⟩ := exists_spells_of_beforeMerging hb declared'.childMem
    rw [← htext, ← hutext, spells.eq_of_headAt spells' acyclic acyclic' (List.forall_mem_nil _)
      (List.forall_mem_nil _) heads]

end Arena

/-! ## Tables -/

namespace Table

/-- Tables of numbers by all keys and by numeric keys, and a table that has truth values by numeric
keys; and tables of tables, whose inner tables differ in the keys that they cover. -/
def graph : TypeGraph where
  nodes := #[
    ⟨.string, none⟩,
    ⟨.number, none⟩,
    ⟨.boolean, none⟩,
    ⟨.indexSignature ⟨0⟩ ⟨1⟩, none⟩,
    ⟨.indexSignature ⟨1⟩ ⟨1⟩, none⟩,
    ⟨.indexSignature ⟨1⟩ ⟨2⟩, none⟩,
    ⟨.objectLiteral [⟨4⟩, ⟨3⟩], some "Same"⟩,
    ⟨.objectLiteral [⟨3⟩, ⟨5⟩], some "Clash"⟩,
    ⟨.objectLiteral [⟨4⟩], some "Numeric"⟩,
    ⟨.indexSignature ⟨0⟩ ⟨6⟩, none⟩,
    ⟨.indexSignature ⟨1⟩ ⟨8⟩, none⟩,
    ⟨.objectLiteral [⟨9⟩, ⟨10⟩], some "Tables"⟩]
  roots := [("Same", ⟨6⟩), ("Clash", ⟨7⟩), ("Tables", ⟨11⟩)]

def same : Sample := { graph, root := ⟨6⟩ }

def clash : Sample := { graph, root := ⟨7⟩ }

def tables : Sample := { graph, root := ⟨11⟩ }

def filter? : Option Head → Option KeyFilter
  | some (.indexSignature filter) => some filter
  | _ => none

/-- What is computed here: a table with signatures for both kinds of keys is lowered, and another
has two whose value types are called differently. -/
theorem computed : same.loads = true ∧
    (Arena.beforeMerging graph ⟨7⟩ 64).isOk = true ∧
    (⟨0⟩ ∈ same.arena.ids ∧ (same.arena.node ⟨0⟩).source = ⟨6⟩) ∧
    (∀ id ∈ [⟨0⟩, ⟨2⟩, ⟨4⟩], id ∈ clash.unmerged.ids) ∧ (clash.unmerged.node ⟨0⟩).source = ⟨7⟩ ∧
    (clash.unmerged.node ⟨2⟩).source = ⟨1⟩ ∧ (clash.unmerged.node ⟨4⟩).source = ⟨2⟩ ∧
    (clash.unmerged.node ⟨2⟩).identity ≠ (clash.unmerged.node ⟨4⟩).identity := by
  decide +kernel

theorem declares_all : graph.DeclaresIndex ⟨6⟩ .anyKey ⟨1⟩ :=
  ⟨_, _, _, ⟨3⟩, ⟨0⟩, rfl, rfl, List.mem_cons_of_mem _ List.mem_cons_self, rfl, rfl⟩

/-- The one table conflicts, and the other goes on with a signature for all keys. -/
theorem conflicts_clash : Arena.Conflicts graph ⟨7⟩ 64 ∧
    Arena.lower graph ⟨6⟩ 64 = .ok same.arena ∧
    ∃ props className filter, same.arena.LeftWith ⟨0⟩ props className filter ∧
      Arena.Covering filter .anyKey := by
  obtain ⟨loads, walks, ⟨hroot, hsource⟩, hids, hobject, hfirst, hsecond, hne⟩ := computed
  have lowers := Sample.lowered loads
  have walks := Except.eq_ok_getD walks (⟨#[], ⟨0⟩⟩ : Arena)
  have hid := hids ⟨0⟩ List.mem_cons_self
  have declares : graph.DeclaresIndex (same.arena.node ⟨0⟩).source .anyKey ⟨1⟩ := by
    rw [hsource]
    exact declares_all
  refine ⟨(Arena.conflicts_iff graph ⟨7⟩ 64).1.mpr ⟨clash.unmerged, walks, ⟨0⟩, .anyKey, ⟨2⟩,
    .numeric, ⟨4⟩, ⟨hid, hids ⟨2⟩ (by simp), ?_⟩, ⟨hid, hids ⟨4⟩ (by simp), ?_⟩, hne⟩, lowers,
    (Arena.conflicts_iff graph ⟨6⟩ 64).2.2.2 _ lowers ⟨0⟩ hroot .anyKey ⟨1⟩ declares⟩
  · rw [hobject, hfirst]
    exact ⟨_, _, _, ⟨3⟩, ⟨0⟩, rfl, rfl, List.mem_cons_self, rfl, rfl⟩
  · rw [hobject, hsecond]
    exact ⟨_, _, _, ⟨5⟩, ⟨1⟩, rfl, rfl, List.mem_cons_of_mem _ List.mem_cons_self, rfl, rfl⟩

/-- What is computed here: the tables of tables are lowered, though the inner tables cover different
keys in the end. -/
theorem computed_tables : tables.loads = true ∧
    (∀ id ∈ [⟨0⟩, ⟨2⟩, ⟨7⟩], id ∈ tables.arena.ids) ∧ (tables.arena.node ⟨0⟩).source = ⟨11⟩ ∧
    (tables.arena.node ⟨2⟩).source = ⟨6⟩ ∧ (tables.arena.node ⟨7⟩).source = ⟨8⟩ ∧
    filter? (tables.arena.headAt ⟨2⟩ [0]) = some .anyKey ∧
    filter? (tables.arena.headAt ⟨7⟩ [0]) = some .numeric := by
  decide +kernel

/-- Where lowering goes well, value types of index signatures of one object may differ. -/
theorem merged_unlike : ¬∀ (g : TypeGraph) (root : TypeId) (maxDepth : Nat) (a : Arena),
    Arena.lower g root maxDepth = .ok a → ∀ object filter child filter' child',
      Arena.DeclaredIndex g a object filter child → Arena.DeclaredIndex g a object filter' child' →
      ∀ place, a.headAt child place = a.headAt child' place := by
  intro h
  obtain ⟨loads, hids, hobject, hfirst, hsecond, hfilter, hfilter'⟩ := computed_tables
  have hid := hids ⟨0⟩ List.mem_cons_self
  have lowers := Sample.lowered loads
  have hsame := h graph ⟨11⟩ 64 tables.arena lowers ⟨0⟩ .anyKey ⟨2⟩ .numeric
    ⟨7⟩ ⟨hid, hids ⟨2⟩ (by simp), ?_⟩ ⟨hid, hids ⟨7⟩ (by simp), ?_⟩ [0]
  · rw [hsame, hfilter'] at hfilter
    cases hfilter
  · rw [hobject, hfirst]
    exact ⟨_, _, _, ⟨9⟩, ⟨0⟩, rfl, rfl, List.mem_cons_self, rfl, rfl⟩
  · rw [hobject, hsecond]
    exact ⟨_, _, _, ⟨10⟩, ⟨1⟩, rfl, rfl, List.mem_cons_of_mem _ List.mem_cons_self, rfl, rfl⟩

end Table

end Typeforge
