/-
# `Typeforge.Proofs.Lowering.Merging` — lowered arenas are marked

Marks are set before identities are known, and index signatures are merged
after that: an object then goes on with another of its signatures, whose values
have the same identity.  Where identities are faithful those values have the
same type, and what the object needs does not change.

Main result: the flags of a lowered arena say exactly what its types need,
provided that identities are faithful when signatures are merged.
-/
import Typeforge.Proofs.Compiling.Build
import Typeforge.Proofs.Lowering.Marks
import Typeforge.Proofs.Lowering.Passes
import Typeforge.Proofs.Lowering.Walking

namespace Typeforge

namespace Arena

variable {a b : Arena}

/-! ## Facts that leave types and marks alone -/

/-- Arenas whose nodes have the same shapes and marks. -/
structure SameMarks (a b : Arena) : Prop where
  alike : a.Alike b
  needs : ∀ id w, (a.node id).needs w = (b.node id).needs w

theorem SameMarks.refl (a : Arena) : a.SameMarks a := ⟨.refl a, fun _ _ => rfl⟩

theorem SameMarks.trans {c : Arena} (h : a.SameMarks b) (h' : b.SameMarks c) : a.SameMarks c :=
  ⟨h.alike.trans h'.alike, fun id w => (h.needs id w).trans (h'.needs id w)⟩

theorem SameMarks.marked (h : a.SameMarks b) (marked : a.Marked) : b.Marked := fun id w => by
  rw [← h.needs, ← h.alike.unfolding]
  exact marked id w

theorem sameMarks_assignIdentities (a : Arena) : a.SameMarks a.assignIdentities where
  alike := ⟨(size_assignIdentities a).symm,
    fun id => (field_assignIdentities Node.shape (fun _ _ => rfl) id).symm,
    fun id => (field_assignIdentities Node.optional (fun _ _ => rfl) id).symm⟩
  needs id w := (field_assignIdentities (·.needs w) (fun _ _ => by cases w <;> rfl) id).symm

theorem sameMarks_markShared (a : Arena) : a.SameMarks a.markShared where
  alike := ⟨(size_markShared a).symm,
    fun id => (field_markShared Node.shape (fun _ _ => rfl) id).symm,
    fun id => (field_markShared Node.optional (fun _ _ => rfl) id).symm⟩
  needs id w := (field_markShared (·.needs w) (fun _ _ => by cases w <;> rfl) id).symm

theorem sameMarks_assignHeights (a : Arena) : a.SameMarks a.assignHeights where
  alike := ⟨(size_assignHeights a).symm,
    fun id => (field_assignHeights Node.shape (fun _ _ => rfl) id).symm,
    fun id => (field_assignHeights Node.optional (fun _ _ => rfl) id).symm⟩
  needs id w := (field_assignHeights (·.needs w) (fun _ _ => by cases w <;> rfl) id).symm

/-! ## Merging index signatures -/

/-- Index signature nodes whose values have one identity. -/
def Exchangeable (b : Arena) (kept other : NodeId) : Prop :=
  ∃ filter child filter' child', (b.node kept).shape = .indexSignature filter child ∧
    (b.node other).shape = .indexSignature filter' child' ∧
    (b.node child).identity = (b.node child').identity

theorem Exchangeable.trans {kept other last : NodeId} (h : b.Exchangeable kept other)
    (h' : b.Exchangeable other last) : b.Exchangeable kept last := by
  obtain ⟨filter, child, filter', child', hkept, hother, hidentity⟩ := h
  obtain ⟨filter₂, child₂, filter₂', child₂', hother₂, hlast, hidentity₂⟩ := h'
  rw [hother] at hother₂
  cases hother₂
  exact ⟨filter, child, filter₂', child₂', hkept, hlast, hidentity.trans hidentity₂⟩

/-- An arena whose objects go on with other index signatures than before. -/
structure Redirected (b a : Arena) : Prop where
  size : b.size = a.size
  optional : ∀ id, (b.node id).optional = (a.node id).optional
  needs : ∀ id w, (b.node id).needs w = (a.node id).needs w
  identity : ∀ id, (b.node id).identity = (a.node id).identity
  shape : ∀ id, (b.node id).shape = (a.node id).shape ∨
    ∃ props kept other className, (b.node id).shape = .object props (some kept) className ∧
      (a.node id).shape = .object props (some other) className ∧ b.Exchangeable kept other

namespace Redirected

theorem refl (b : Arena) : b.Redirected b :=
  ⟨rfl, fun _ => rfl, fun _ _ => rfl, fun _ => rfl, fun _ => .inl rfl⟩

theorem shape_eq (h : b.Redirected a) {id : NodeId} {shape : Shape} (hid : (a.node id).shape = shape)
    (hobject : ∀ props index className, shape ≠ .object props index className) :
    (b.node id).shape = shape := by
  rcases h.shape id with heq | ⟨props, kept, other, className, -, ha, -⟩
  · exact heq.trans hid
  · exact absurd (hid.symm.trans ha) (hobject _ _ _)

theorem merge (h : b.Redirected a) {object candidate kept : NodeId} {props : List NodeId}
    {className : Option String} (hobject : (a.node object).shape = .object props (some kept) className)
    {keptFilter filter : KeyFilter} {keptChild child : NodeId}
    (hkept : (a.node kept).shape = .indexSignature keptFilter keptChild)
    (hcandidate : (a.node candidate).shape = .indexSignature filter child)
    (hidentity : (a.node keptChild).identity = (a.node child).identity) :
    b.Redirected (a.set object
      { a.node object with shape := .object props (some candidate) className }) := by
  have hid : object ∈ a.ids := by
    by_contra hid
    rw [node_eq_default hid] at hobject
    cases hobject
  have hkept' := h.shape_eq hkept fun _ _ _ => Shape.noConfusion
  have hcandidate' := h.shape_eq hcandidate fun _ _ _ => Shape.noConfusion
  have hexchange : b.Exchangeable kept candidate :=
    ⟨_, _, _, _, hkept', hcandidate', by rw [h.identity, h.identity, hidentity]⟩
  refine ⟨h.size.trans size_set.symm, fun id => ?_, fun id w => ?_, fun id => ?_, fun id => ?_⟩
  · exact node_set_cases (fun m => (b.node id).optional = m.optional) hid id
      (fun _ => h.optional id) fun heq => heq ▸ h.optional id
  · refine node_set_cases (fun m => (b.node id).needs w = m.needs w) hid id
      (fun _ => h.needs id w) fun heq => ?_
    rw [h.needs, heq]
    cases w <;> rfl
  · exact node_set_cases (fun m => (b.node id).identity = m.identity) hid id
      (fun _ => h.identity id) fun heq => heq ▸ h.identity id
  · refine node_set_cases (fun m => (b.node id).shape = m.shape ∨
        ∃ props kept other className, (b.node id).shape = .object props (some kept) className ∧
          m.shape = .object props (some other) className ∧ b.Exchangeable kept other)
      hid id (fun _ => h.shape id) fun heq => .inr ?_
    subst heq
    rcases h.shape id with hsame | ⟨props', first, other, className', hb, ha, hexchange'⟩
    · exact ⟨props, kept, candidate, className, hsame.trans hobject, rfl, hexchange⟩
    · rw [hobject] at ha
      cases ha
      exact ⟨props, first, candidate, className, hb, rfl, hexchange'.trans hexchange⟩

end Redirected

theorem redirected_mergeIndex {object candidate : NodeId} {merged : Bool} {c : Arena}
    (h : b.Redirected a) (hmerge : a.mergeIndex object candidate = .ok (c, merged)) :
    b.Redirected c := by
  unfold mergeIndex at hmerge
  dsimp only at hmerge
  split at hmerge
  · rename_i props kept className hobject
    split at hmerge
    · rename_i keptFilter keptChild filter child hkept hcandidate
      split at hmerge
      · cases hmerge
      · rename_i hidentity
        split at hmerge
        · cases hmerge
          exact h.merge hobject hkept hcandidate (not_not.mp hidentity)
        · cases hmerge
          exact h
    · cases hmerge
      exact h
  · cases hmerge
    exact h

theorem redirected_mergeIndexes {aside : List (NodeId × NodeId)} {changed merged : Bool}
    {c : Arena} (h : b.Redirected a) (hmerge : a.mergeIndexes changed aside = .ok (c, merged)) :
    b.Redirected c := by
  induction aside generalizing a changed with
  | nil =>
    cases hmerge
    exact h
  | cons x rest ih =>
    rw [mergeIndexes] at hmerge
    obtain ⟨⟨a', merged'⟩, hfirst, hrest⟩ := Except.bind_eq_ok.mp hmerge
    exact ih (redirected_mergeIndex h hfirst) hrest

/-! ## Merging and needs -/

section Needs

variable {id : NodeId}

theorem Redirected.shape_of_eq (h : b.Redirected a) {shape : Shape} (hid : (b.node id).shape = shape)
    (hobject : ∀ props index className, shape ≠ .object props index className) :
    (a.node id).shape = shape := by
  rcases h.shape id with heq | ⟨props, kept, other, className, hb, -, -⟩
  · exact heq.symm.trans hid
  · exact absurd (hid.symm.trans hb) (hobject _ _ _)

theorem Redirected.standsFor? (h : b.Redirected a) (id : NodeId) :
    (b.node id).standsFor? = (a.node id).standsFor? := by
  rcases h.shape id with heq | ⟨props, kept, other, className, hb, ha, -⟩
  · simp only [Node.standsFor?, heq]
  · simp only [Node.standsFor?, hb, ha]

theorem Redirected.core (h : b.Redirected a) (id : NodeId) : b.core id = a.core id := by
  have hwithin (fuel : Nat) : ∀ id, b.coreWithin fuel id = a.coreWithin fuel id := by
    induction fuel with
    | zero => exact fun _ => rfl
    | succ fuel ih =>
      intro id
      simp only [coreWithin, h.standsFor?, ih]
  rw [Arena.core, Arena.core, h.size, hwithin]

theorem Redirected.acceptsNullFrom (h : b.Redirected a) (fuel : Nat) (id : NodeId)
    (seen : List NodeId) : b.acceptsNullFrom fuel id seen = a.acceptsNullFrom fuel id seen := by
  induction fuel generalizing id seen with
  | zero => rfl
  | succ fuel ih =>
    have hfun : b.acceptsNullFrom fuel = a.acceptsNullFrom fuel := by
      funext id seen
      exact ih id seen
    rcases h.shape id with heq | ⟨props, kept, other, className, hb, ha, -⟩
    · simp only [Arena.acceptsNullFrom, heq, hfun]
    · simp only [Arena.acceptsNullFrom, hb, ha]

theorem Redirected.slot (h : b.Redirected a) : b.slot = a.slot := by
  funext id
  rw [Arena.slot, Arena.slot, h.optional, nullMeansAbsent, nullMeansAbsent, acceptsNull,
    acceptsNull, h.acceptsNullFrom, h.optional, h.size]

theorem Redirected.splitTuple (h : b.Redirected a) (members : List NodeId) :
    b.splitTuple members = a.splitTuple members := by
  have hrest (id : NodeId) : (b.node id).shape.isRest = (a.node id).shape.isRest := by
    rcases h.shape id with heq | ⟨props, kept, other, className, hb, ha, -⟩
    · rw [heq]
    · rw [hb, ha]
      rfl
  simp only [Arena.splitTuple, hrest]

/-- In the place of a child there is one of the same type, as types were before. -/
theorem Redirected.child (h : b.Redirected a) (faithful : b.Faithful) {i : Nat} {child : NodeId}
    (hchild : (b.node id).children[i]? = some child) :
    ∃ child', (a.node id).children[i]? = some child' ∧ b.unfolding child' = b.unfolding child := by
  rcases h.shape id with heq | ⟨props, kept, other, className, hb, ha, hexchange⟩
  · exact ⟨child, by rwa [Node.children, ← heq], rfl⟩
  · obtain ⟨filter, value, filter', value', hkept, hother, hidentity⟩ := hexchange
    have hsame : b.unfolding other = b.unfolding kept := by
      have hkept : (b.node kept).standsFor? = some value := by simp only [Node.standsFor?, hkept]
      have hother : (b.node other).standsFor? = some value' := by
        simp only [Node.standsFor?, hother]
      rw [unfolding_of_standsFor hkept, unfolding_of_standsFor hother, faithful _ _ hidentity]
    simp only [Node.children, hb, ha, Shape.children, Option.toList_some] at hchild ⊢
    by_cases hi : i < props.length
    · rw [List.getElem?_append_left hi] at hchild ⊢
      exact ⟨child, hchild, rfl⟩
    · rw [List.getElem?_append_right (Nat.le_of_not_lt hi)] at hchild ⊢
      cases hlast : i - props.length with
      | zero =>
        rw [hlast] at hchild
        cases hchild
        exact ⟨other, rfl, hsame⟩
      | succ j =>
        rw [hlast] at hchild
        cases hchild

/-- What a type needs it needs with other index signatures, too. -/
theorem Redirected.needs_of_needs (h : b.Redirected a) (faithful : b.Faithful) {t : TypeTree}
    {w : Way} (hneeds : t.Needs w) : ∀ id, b.unfolding id = t → (a.unfolding id).Needs w := by
  have hlabel {id core : NodeId} (hcore : b.core id = some core) :
      (a.unfolding id).label = a.labelOf (a.node core) := by
    rw [h.core] at hcore
    rw [unfolding_core hcore, label_unfolding (standsFor_of_core hcore)]
  have hpart {id core child : NodeId} {i : Nat} (hcore : b.core id = some core)
      (hchild : (a.node core).children[i]? = some child) :
      (a.unfolding id).part i = a.unfolding child := by
    rw [h.core] at hcore
    rw [unfolding_core hcore, part_unfolding (standsFor_of_core hcore) hchild]
  induction hneeds with
  | atom ht hx =>
    rintro id rfl
    obtain ⟨core, hcore, hl⟩ := exists_core_of_label ht
    obtain ⟨x, hshape, rfl⟩ := shape_of_atom hl
    have hshape := h.shape_of_eq hshape fun _ _ _ => Shape.noConfusion
    exact .atom (by rw [hlabel hcore, labelOf, hshape]) hx
  | promise ht =>
    rintro id rfl
    obtain ⟨core, hcore, hl⟩ := exists_core_of_label ht
    obtain ⟨child, hshape⟩ := shape_of_promise hl
    have hshape := h.shape_of_eq hshape fun _ _ _ => Shape.noConfusion
    exact .promise (by rw [hlabel hcore, labelOf, hshape])
  | function ht =>
    rintro id rfl
    obtain ⟨core, hcore, hl⟩ := exists_core_of_label ht
    obtain ⟨f, hshape⟩ := shape_of_function hl
    have hshape := h.shape_of_eq hshape fun _ _ _ => Shape.noConfusion
    exact .function (by rw [hlabel hcore, labelOf, hshape])
  | absent ht mem habsent =>
    rintro id rfl
    obtain ⟨core, hcore, hl⟩ := exists_core_of_label ht
    obtain ⟨members, hshape, rfl, -⟩ := shape_of_tuple hl
    have hshape := h.shape_of_eq hshape fun _ _ _ => Shape.noConfusion
    have ht := hlabel hcore
    simp only [labelOf, hshape, ← h.splitTuple, ← h.slot] at ht
    exact .absent ht mem habsent
  | «class» ht =>
    rintro id rfl
    obtain ⟨core, hcore, hl⟩ := exists_core_of_label ht
    obtain ⟨ids, index, hshape, -, -⟩ := shape_of_object hl
    have ht := hlabel hcore
    rcases h.shape core with heq | ⟨props, kept, other, className, hb, ha, -⟩
    · rw [hshape] at heq
      simp only [labelOf, ← heq] at ht
      exact .class ht
    · rw [hshape] at hb
      cases hb
      simp only [labelOf, ha] at ht
      exact .class ht
  | part i hi ih =>
    rintro id rfl
    obtain ⟨core, child, hcore, hchild, heq⟩ := exists_child_of_part hi.ne_empty
    obtain ⟨child', hchild', hsame⟩ := h.child faithful hchild
    refine .part i ?_
    rw [hpart hcore hchild']
    exact ih child' (hsame.trans heq.symm)
  | union ht i hi ih =>
    rintro id rfl
    obtain ⟨core, child, hcore, hchild, heq⟩ := exists_child_of_part hi.ne_empty
    obtain ⟨core', hcore', hl⟩ := exists_core_of_label ht
    obtain rfl : core = core' := Option.some.inj (hcore.symm.trans hcore')
    obtain ⟨members, hshape, -⟩ := shape_of_union hl
    have hshape := h.shape_of_eq hshape fun _ _ _ => Shape.noConfusion
    obtain ⟨child', hchild', hsame⟩ := h.child faithful hchild
    have ht := hlabel hcore
    simp only [labelOf, hshape] at ht
    have hneeds := ih child' (hsame.trans heq.symm)
    rw [← hpart hcore hchild'] at hneeds
    exact .union ht i hneeds

/-- A reason after signatures were merged was one before. -/
theorem Redirected.reason (h : b.Redirected a) (faithful : b.Faithful) (marked : b.Marked)
    {w : Way} (hreason : a.Reason (a.node id) w) : b.Reason (b.node id) w := by
  cases hreason with
  | atom ha hx => exact .atom (h.shape_eq ha fun _ _ _ => Shape.noConfusion) hx
  | promise ha => exact .promise (h.shape_eq ha fun _ _ _ => Shape.noConfusion)
  | function ha => exact .function (h.shape_eq ha fun _ _ _ => Shape.noConfusion)
  | absent ha mem habsent =>
    rename_i members child
    have hslot : b.nullMeansAbsent child = a.nullMeansAbsent child :=
      congrArg Slot.absent (congrFun h.slot child)
    exact .absent (h.shape_eq ha fun _ _ _ => Shape.noConfusion) mem (hslot.trans habsent)
  | «class» ha =>
    rcases h.shape id with heq | ⟨props, kept, other, className, hb, ha', -⟩
    · exact .class (heq.trans ha)
    · rw [ha] at ha'
      cases ha'
      exact .class hb
  | @child _ child mem hneeds =>
    rcases h.shape id with heq | ⟨props, kept, other, className, hb, ha, hexchange⟩
    · exact .child (by rwa [Node.children, heq]) (by rwa [h.needs])
    · simp only [Node.children, ha, Shape.children, Option.toList_some, List.mem_append,
        List.mem_singleton] at mem
      rcases mem with mem | rfl
      · refine .child ?_ (by rwa [h.needs])
        simp only [Node.children, hb, Shape.children]
        exact List.mem_append_left _ mem
      · obtain ⟨filter, value, filter', value', hkept, hother, hidentity⟩ := hexchange
        have hkept : (b.node kept).standsFor? = some value := by
          simp only [Node.standsFor?, hkept]
        have hother : (b.node child).standsFor? = some value' := by
          simp only [Node.standsFor?, hother]
        have hmem : kept ∈ (b.node id).children := by
          simp only [Node.children, hb, Shape.children, Option.toList_some]
          exact List.mem_append_right _ (List.mem_singleton_self _)
        rw [← h.needs, marked, unfolding_of_standsFor hother, ← faithful _ _ hidentity] at hneeds
        refine .child hmem ?_
        rwa [marked, unfolding_of_standsFor hkept]
  | union ha mem hneeds =>
    exact .union (h.shape_eq ha fun _ _ _ => Shape.noConfusion) mem (by rwa [h.needs])

/-- Merging index signatures keeps marks right where identities are faithful. -/
theorem Redirected.marked (h : b.Redirected a) (faithful : b.Faithful) (required : b.RestRequired)
    (marked : b.Marked) : a.Marked := by
  have full : b.FullyMarked := fun id w hreason =>
    (marked id w).mpr (hreason.needs (fun id w => (marked id w).mp) required)
  refine marked_of_full (fun id w hneeds => ?_) fun id w hreason => ?_
  · rw [← h.needs, marked] at hneeds
    exact h.needs_of_needs faithful hneeds id rfl
  · rw [← h.needs]
    exact full id w (h.reason faithful marked hreason)

end Needs

/-! ## The whole -/

/-- The arena of a type as it is when index signatures are merged. -/
def beforeMerging (g : TypeGraph) (root : TypeId) (maxDepth : Nat) : Except CompileError Arena := do
  let (root, walked) ← (Walk.lowerType g maxDepth (maxDepth + 1) [] root).run {}
  pure (Arena.mk walked.nodes root).markJsonNeeds.assignIdentities

/-- Identities are faithful whenever they are compared: when index signatures are merged, and in
the arena at last. -/
structure FaithfulLowering (g : TypeGraph) (root : TypeId) (maxDepth : Nat) (a : Arena) : Prop where
  merging : ∀ b, beforeMerging g root maxDepth = .ok b → b.Faithful
  lowered : a.Faithful

/-- **The flags of a lowered arena say exactly what its types need.** -/
theorem marked_of_lower {g : TypeGraph} {root : TypeId} {maxDepth : Nat}
    (h : lower g root maxDepth = .ok a)
    (faithful : ∀ b, beforeMerging g root maxDepth = .ok b → b.Faithful) : a.Marked := by
  obtain ⟨⟨root', walked⟩, hwalk, h⟩ := Except.bind_eq_ok.mp h
  dsimp only at h
  have hbefore : beforeMerging g root maxDepth =
      .ok (Arena.mk walked.nodes root').markJsonNeeds.assignIdentities := by
    rw [beforeMerging, hwalk]
    rfl
  have hfaithful := faithful _ hbefore
  have hfresh : ∀ n ∈ walked.nodes, n.Fresh := Walk.fresh_of_lowerType hwalk
  have hrequired : (Arena.mk walked.nodes root').RestRequired := by
    intro id hrest
    simp only [node, Array.getD_eq_getD_getElem?] at hrest ⊢
    cases hget : walked.nodes[id.index]? with
    | none => rfl
    | some n =>
      rw [hget] at hrest
      exact (hfresh n (Array.mem_of_getElem? hget)).rest hrest
  obtain ⟨halike, hmarked⟩ := marked_markJsonNeeds (fun n hn => (hfresh n hn).unmarked) hrequired
  have hsame := sameMarks_assignIdentities (Arena.mk walked.nodes root').markJsonNeeds
  generalize (Arena.mk walked.nodes root').markJsonNeeds.assignIdentities = b at *
  have halike := halike.trans hsame.alike
  obtain ⟨⟨c, merged⟩, hmerge, h⟩ := Except.bind_eq_ok.mp h
  dsimp only at h
  have hrequired : b.RestRequired := fun id hrest => by
    rw [← halike.optional]
    exact hrequired id (by rwa [halike.shape])
  have hmarked : c.Marked := (redirected_mergeIndexes (.refl b) hmerge).marked hfaithful hrequired
    (hsame.marked hmarked)
  have hnamed (c' : Arena) (hc : c.SameMarks c') : c'.markShared.assignHeights.Marked :=
    ((hc.trans (sameMarks_markShared c')).trans (sameMarks_assignHeights _)).marked hmarked
  cases merged with
  | true =>
    cases h
    exact hnamed _ (sameMarks_assignIdentities c)
  | false =>
    cases h
    exact hnamed _ (.refl c)

end Arena

end Typeforge
