/-
# `Typeforge.Proofs.Lowering.Marks` — sweeping marks what types need

Sweeping starts from no marks.  A mark is set only for a reason, and the
reasons are the rules by which a type needs code; so at any time the marks are
among the needs of the unfolded types.  When nothing is left to improve every
reason has been heard, and the marks are all of the needs.
-/
import Mathlib.Data.Finset.Prod
import Typeforge.Proofs.Lowering.Sweeps
import Typeforge.Proofs.Types.Needs

namespace Typeforge

namespace Arena

variable {a b : Arena} {id : NodeId} {w : Way}

/-- The rest of a tuple is not optional. -/
def RestRequired (a : Arena) : Prop :=
  ∀ id, (a.node id).shape.isRest = true → (a.node id).optional = false

/-! ## Reasons and needs -/

/-- Marks are among the needs. -/
def SoundlyMarked (a : Arena) : Prop :=
  ∀ id w, (a.node id).needs w = true → (a.unfolding id).Needs w

theorem mem_splitTuple {members : List NodeId} (required : a.RestRequired)
    (mem : id ∈ members) (habsent : a.nullMeansAbsent id = true) :
    id ∈ (a.splitTuple members).1 := by
  rw [← splitTuple_append (a := a) members] at mem
  rcases List.mem_append.mp mem with mem | mem
  · exact mem
  · unfold splitTuple at mem
    split at mem
    · split at mem
      · rename_i last _ hrest
        rw [List.mem_singleton.mp mem, nullMeansAbsent, required last hrest] at habsent
        cases habsent
      · exact absurd mem List.not_mem_nil
    · exact absurd mem List.not_mem_nil

/-- A reason is a rule by which the unfolded type needs code. -/
theorem Reason.needs (sound : a.SoundlyMarked) (required : a.RestRequired)
    (h : a.Reason (a.node id) w) : (a.unfolding id).Needs w := by
  have hlabel (hself : (a.node id).standsFor? = none) := label_unfolding hself
  cases h with
  | @atom _ x h hx =>
    refine .atom (x := x.canonical) ?_ (by rw [x.needsCode_canonical]; exact hx)
    rw [hlabel (by simp only [Node.standsFor?, h]), labelOf, h]
  | promise h =>
    refine .promise ?_
    rw [hlabel (by simp only [Node.standsFor?, h]), labelOf, h]
  | function h =>
    refine .function ?_
    rw [hlabel (by simp only [Node.standsFor?, h]), labelOf, h]
  | @absent members child h mem habsent =>
    have hslot : (a.slot child).absent = true := habsent
    have htuple := hlabel (by simp only [Node.standsFor?, h])
    simp only [labelOf, h] at htuple
    exact .absent htuple (List.mem_map_of_mem (mem_splitTuple required mem habsent)) hslot
  | «class» h =>
    have hobject := hlabel (by simp only [Node.standsFor?, h])
    simp only [labelOf, h] at hobject
    exact .class hobject
  | @child _ child mem h =>
    have hchild := sound child w h
    cases hself : (a.node id).standsFor? with
    | some target =>
      have hone : (a.node id).children = [target] := by
        unfold Node.standsFor? at hself
        rw [Node.children]
        split at hself <;> cases hself <;> rename_i hshape <;> rw [hshape] <;> rfl
      rw [unfolding_of_standsFor hself]
      rw [hone, List.mem_singleton] at mem
      exact mem ▸ hchild
    | none =>
      obtain ⟨i, hi⟩ := List.mem_iff_getElem?.mp mem
      refine .part i ?_
      rwa [part_unfolding hself hi]
  | @union _ _ members child h mem hneeds =>
    have hself : (a.node id).standsFor? = none := by simp only [Node.standsFor?, h]
    obtain ⟨i, hi⟩ := List.mem_iff_getElem?.mp mem
    have hi : (a.node id).children[i]? = some child := by rwa [Node.children, h, Shape.children]
    have hunion := hlabel hself
    simp only [labelOf, h] at hunion
    have hpart := sound child _ hneeds
    rw [← part_unfolding hself hi] at hpart
    exact .union hunion i hpart

/-- Reasons stay when marks are added. -/
theorem Reason.mono (alike : a.Alike b)
    (marks : ∀ id w, (a.node id).needs w = true → (b.node id).needs w = true) {n m : Node}
    (hnm : n.shape = m.shape) : a.Reason n w → b.Reason m w
  | .atom h hx => .atom (hnm ▸ h) hx
  | .promise h => .promise (hnm ▸ h)
  | .function h => .function (hnm ▸ h)
  | .absent h mem habsent => .absent (hnm ▸ h) mem (alike.nullMeansAbsent _ ▸ habsent)
  | .class h => .class (hnm ▸ h)
  | .child mem h => .child (by rwa [Node.children, ← hnm]) (marks _ _ h)
  | .union h mem needs => .union (hnm ▸ h) mem (marks _ _ needs)

/-- Every reason has been heard. -/
def FullyMarked (a : Arena) : Prop :=
  ∀ id w, a.Reason (a.node id) w → (a.node id).needs w = true

/-- Where every reason has been heard, a node has the marks of the node it stands for. -/
theorem FullyMarked.needs_core (full : a.FullyMarked) {core : NodeId} (h : a.core id = some core)
    (hcore : (a.node core).needs w = true) : (a.node id).needs w = true := by
  obtain ⟨fuel, hfuel⟩ := core_eq_some_iff.mp h
  clear h
  induction fuel generalizing id with
  | zero => cases hfuel
  | succ fuel ih =>
    cases hself : (a.node id).standsFor? with
    | none =>
      rw [coreWithin_succ_of_none _ hself] at hfuel
      cases hfuel
      exact hcore
    | some child =>
      rw [coreWithin_succ_of_standsFor _ hself] at hfuel
      refine full id w (.child ?_ (ih hfuel))
      unfold Node.standsFor? at hself
      rw [Node.children]
      split at hself <;> cases hself <;> rename_i hshape <;> rw [hshape] <;>
        exact List.mem_singleton_self _

/-- Where every reason has been heard, all needs are marked. -/
theorem FullyMarked.complete (full : a.FullyMarked) {t : TypeTree} (h : t.Needs w) :
    ∀ id, a.unfolding id = t → (a.node id).needs w = true := by
  have hcores {w : Way} {id : NodeId} {l : Label} (h : (a.unfolding id).label = some l)
      (hreason : ∀ core, a.labelOf (a.node core) = some l → a.Reason (a.node core) w) :
      (a.node id).needs w = true := by
    obtain ⟨core, hcore, hlabel⟩ := exists_core_of_label h
    exact full.needs_core hcore (full core w (hreason core hlabel))
  induction h with
  | atom h hx =>
    rintro id rfl
    refine hcores h fun core hlabel => ?_
    obtain ⟨x, hshape, rfl⟩ := shape_of_atom hlabel
    exact .atom hshape (by rwa [x.needsCode_canonical] at hx)
  | promise h =>
    rintro id rfl
    refine hcores h fun core hlabel => ?_
    obtain ⟨child, hshape⟩ := shape_of_promise hlabel
    exact .promise hshape
  | function h =>
    rintro id rfl
    refine hcores h fun core hlabel => ?_
    obtain ⟨f, hshape⟩ := shape_of_function hlabel
    exact .function hshape
  | absent h mem habsent =>
    rintro id rfl
    refine hcores h fun core hlabel => ?_
    obtain ⟨members, hshape, rfl, -⟩ := shape_of_tuple hlabel
    obtain ⟨child, hchild, rfl⟩ := List.mem_map.mp mem
    refine .absent hshape ?_ habsent
    rw [← splitTuple_append (a := a) members]
    exact List.mem_append_left _ hchild
  | «class» h =>
    rintro id rfl
    refine hcores h fun core hlabel => ?_
    obtain ⟨ids, index, hshape, -, -⟩ := shape_of_object hlabel
    exact .class hshape
  | part i hpart ih =>
    rintro id rfl
    obtain ⟨core, child, hcore, hchild, heq⟩ := exists_child_of_part hpart.ne_empty
    have hneeds := ih child heq.symm
    exact full.needs_core hcore (full core _ (.child (List.mem_of_getElem? hchild) hneeds))
  | union h i hpart ih =>
    rintro id rfl
    obtain ⟨core, child, hcore, hchild, heq⟩ := exists_child_of_part hpart.ne_empty
    obtain ⟨core', hcore', hlabel⟩ := exists_core_of_label h
    obtain rfl : core = core' := Option.some.inj (hcore.symm.trans hcore')
    obtain ⟨members, hshape, -⟩ := shape_of_union hlabel
    rw [Node.children, hshape, Shape.children] at hchild
    have hneeds := ih child heq.symm
    exact full.needs_core hcore (full core _ (.union hshape (List.mem_of_getElem? hchild) hneeds))

/-- Marks that are sound and full are exactly the needs. -/
theorem marked_of_full (sound : a.SoundlyMarked) (full : a.FullyMarked) : a.Marked :=
  fun id w => ⟨sound id w, fun h => full.complete h id rfl⟩

/-! ## Sweeping for marks -/

/-- Every mark has a reason. -/
def Grounded (b : Arena) : Prop :=
  ∀ id w, (b.node id).needs w = true → b.Reason (b.node id) w

/-- All marks are among those of a set. -/
def MarkedWithin (b : Arena) (M : NodeId → Way → Prop) : Prop :=
  ∀ id w, (b.node id).needs w = true → M id w

/-- Whatever marks of a set give a reason for is in the set, however far sweeping has come. -/
structure ClosedUnderReasons (a : Arena) (M : NodeId → Way → Prop) : Prop where
  /-- The node found where there is none is marked. -/
  outside : ∀ id w, id ∉ a.ids → M id w
  reason : ∀ b, a.Alike b → b.MarkedWithin M → ∀ id w, b.Reason (b.node id) w → M id w

/-- The arena on the way from no marks to all of them. -/
structure Marking (a : Arena) (M : NodeId → Way → Prop) (b : Arena) : Prop where
  alike : a.Alike b
  within : b.MarkedWithin M
  grounded : b.Grounded

theorem needs_improved {n m : Node} (h : a.improveNeeds n = some m) :
    (∀ w, m.needs w = a.need n w) ∧ m.shape = n.shape ∧ m.optional = n.optional ∧
      ∃ w, n.needs w ≠ a.need n w := by
  unfold improveNeeds at h
  split at h
  rename_i encode decode hneeds
  have hencode : a.need n .encode = encode := by rw [need, hneeds]
  have hdecode : a.need n .decode = decode := by rw [need, hneeds]
  split at h
  · cases h
  · rename_i hne
    cases h
    refine ⟨fun w => ?_, rfl, rfl, ?_⟩
    · cases w
      · exact hencode.symm
      · exact hdecode.symm
    · by_contra hall
      push Not at hall
      exact hne ⟨(hall .encode).trans hencode, (hall .decode).trans hdecode⟩

/-- The marks that are set. -/
def marks (a : Arena) : Finset (Nat × Way) :=
  (Finset.range a.size ×ˢ {.encode, .decode}).filter fun x => (a.node ⟨x.1⟩).needs x.2 = true

theorem mem_marks (hid : id ∈ a.ids) : (id.index, w) ∈ a.marks ↔ (a.node id).needs w = true := by
  have hlt : id.index < a.size := mem_ids.mp hid
  have hw : w ∈ ({.encode, .decode} : Finset Way) := by cases w <;> simp
  simp only [marks, Finset.mem_filter, Finset.mem_product, Finset.mem_range, hlt, hw, true_and,
    and_self]

theorem card_marks_le (a : Arena) : a.marks.card ≤ 2 * a.size := by
  refine (Finset.card_filter_le _ _).trans ?_
  rw [Finset.card_product, Finset.card_range, Nat.mul_comm]
  exact Nat.mul_le_mul_right _ Finset.card_le_two

variable {n : Node} {M : NodeId → Way → Prop}

/-- Where every mark has a reason, an improvement only adds marks. -/
theorem Grounded.marks_mono (grounded : b.Grounded) (hid : id ∈ b.ids)
    (hn : b.improveNeeds (b.node id) = some n) :
    ∀ other w, (b.node other).needs w = true → ((b.set id n).node other).needs w = true := by
  intro other w hneeds
  refine node_set_cases (fun m => m.needs w = true) hid other (fun _ => hneeds) fun heq => ?_
  rw [(needs_improved hn).1, need_iff]
  exact grounded id w (heq ▸ hneeds)

theorem alike_set_improved (hid : id ∈ b.ids)
    (hn : b.improveNeeds (b.node id) = some n) : b.Alike (b.set id n) where
  size := size_set.symm
  shape other := (node_set_cases (fun m => m.shape = (b.node other).shape) hid other
    (fun _ => rfl) fun heq => heq ▸ (needs_improved hn).2.1).symm
  optional other := (node_set_cases (fun m => m.optional = (b.node other).optional) hid other
    (fun _ => rfl) fun heq => heq ▸ (needs_improved hn).2.2.1).symm

/-- After an improvement a mark has the reason it had, or the one it was set for. -/
theorem Grounded.reason (grounded : b.Grounded) (hid : id ∈ b.ids)
    (hn : b.improveNeeds (b.node id) = some n) {other : NodeId}
    (hneeds : ((b.set id n).node other).needs w = true) : b.Reason (b.node other) w := by
  by_cases heq : other = id
  · rw [heq, node_set_self hid, (needs_improved hn).1, need_iff] at hneeds
    exact heq ▸ hneeds
  · rw [node_set_ne heq] at hneeds
    exact grounded other w hneeds

/-- Improvements keep marks grounded. -/
theorem Grounded.set (grounded : b.Grounded) (hid : id ∈ b.ids)
    (hn : b.improveNeeds (b.node id) = some n) : (b.set id n).Grounded := by
  intro other w hneeds
  have alike := alike_set_improved hid hn
  exact (grounded.reason hid hn hneeds).mono alike (grounded.marks_mono hid hn) (alike.shape other)

theorem keeps_marking (closed : a.ClosedUnderReasons M) : Keeps improveNeeds (Marking a M) := by
  intro b id n h hid hn
  refine ⟨h.alike.trans (alike_set_improved hid hn), fun other w hneeds => ?_,
    h.grounded.set hid hn⟩
  exact closed.reason b h.alike h.within other w (h.grounded.reason hid hn hneeds)

theorem Grounded.marks_rise (grounded : b.Grounded) (hid : id ∈ b.ids)
    (hn : b.improveNeeds (b.node id) = some n) : b.marks.card < (b.set id n).marks.card := by
  refine Finset.card_lt_card (Finset.ssubset_iff_subset_ne.mpr ⟨?_, fun heq => ?_⟩)
  · intro x hx
    simp only [marks, Finset.mem_filter, size_set] at hx ⊢
    exact ⟨hx.1, grounded.marks_mono hid hn _ _ hx.2⟩
  · obtain ⟨w, hw⟩ := (needs_improved hn).2.2.2
    refine hw (Bool.eq_iff_iff.mpr ?_)
    have hset : id ∈ (b.set id n).ids := by rw [ids_set]; exact hid
    rw [← mem_marks hid, heq, mem_marks hset, node_set_self hid, (needs_improved hn).1]

/-- No node of the arena is marked. -/
def Unmarked (a : Arena) : Prop :=
  ∀ n ∈ a.nodes, ∀ w, n.needs w = false

theorem Unmarked.marking (h : a.Unmarked) (closed : a.ClosedUnderReasons M) : Marking a M a := by
  have houtside {id : NodeId} {w : Way} (hneeds : (a.node id).needs w = true) : id ∉ a.ids := by
    intro hid
    have hlt : id.index < a.nodes.size := mem_ids.mp hid
    simp only [node, Array.getD_eq_getD_getElem?, Array.getElem?_eq_getElem hlt,
      Option.getD_some, h _ (Array.getElem_mem hlt) w, Bool.false_eq_true] at hneeds
  have hnever : Atom.never.needsCode = true := rfl
  refine ⟨.refl a, fun id w hneeds => closed.outside id w (houtside hneeds), fun id w hneeds => ?_⟩
  exact .atom (by rw [node_eq_default (houtside hneeds)]; rfl) hnever

/-- Sweeping sets only marks of a set that is closed under reasons. -/
theorem Unmarked.marking_markJsonNeeds (h : a.Unmarked) (closed : a.ClosedUnderReasons M) :
    Marking a M a.markJsonNeeds :=
  settle_keeps (keeps_marking closed) _ (h.marking closed)

theorem closedUnderReasons_true (a : Arena) : a.ClosedUnderReasons fun _ _ => True :=
  ⟨fun _ _ _ => trivial, fun _ _ _ _ _ _ => trivial⟩

/-- Sweeping ends, since there are only so many marks to set. -/
theorem Unmarked.settlesAt (h : a.Unmarked) : SettlesAt improveNeeds a a.markJsonNeeds := by
  have bounded : ∀ b, Marking a (fun _ _ => True) b → b.marks.card ≤ 2 * a.size := by
    intro b hb
    rw [hb.alike.size]
    exact card_marks_le b
  exact settlesAt_settle (keeps_marking a.closedUnderReasons_true)
    (fun _ _ _ hb => hb.grounded.marks_rise) bounded (h.marking a.closedUnderReasons_true) (by omega)

theorem Unmarked.stable (h : a.Unmarked) : Stable improveNeeds a.markJsonNeeds :=
  h.settlesAt.stable (keeps_marking a.closedUnderReasons_true)
    (fun _ _ _ hb => hb.grounded.marks_rise) (h.marking a.closedUnderReasons_true)

/-- A stable arena has all marks that have reasons. -/
theorem fullyMarked_of_stable (h : Stable improveNeeds b) : b.FullyMarked := by
  intro id w hreason
  by_cases hid : id ∈ b.ids
  · have hnone := h id hid
    unfold improveNeeds at hnone
    split at hnone
    rename_i encode decode hneeds
    split at hnone
    · rename_i heq
      rw [← need_iff] at hreason
      cases w with
      | encode => rw [Node.needs, heq.1, ← hreason, need, hneeds]
      | decode => rw [Node.needs, heq.2, ← hreason, need, hneeds]
    · cases hnone
  · rw [node_eq_default hid]
    cases w <;> rfl

/-- The needs of the unfolded types are closed under reasons. -/
theorem closedUnderReasons_needs (required : a.RestRequired) :
    a.ClosedUnderReasons fun id w => (a.unfolding id).Needs w where
  outside id w hid := by
    refine .atom (x := .never) ?_ rfl
    rw [label_unfolding (by rw [node_eq_default hid]; rfl), node_eq_default hid]
    rfl
  reason b alike within id w hreason := by
    have sound : b.SoundlyMarked := fun id w hneeds => alike.unfolding id ▸ within id w hneeds
    have required : b.RestRequired := fun id hrest => by
      rw [← alike.optional]
      exact required id (alike.shape id ▸ hrest)
    rw [alike.unfolding]
    exact hreason.needs sound required

/-- **Sweeping marks exactly what types need.** -/
theorem marked_markJsonNeeds (fresh : a.Unmarked) (required : a.RestRequired) :
    a.Alike a.markJsonNeeds ∧ a.markJsonNeeds.Marked := by
  have hend := fresh.marking_markJsonNeeds (closedUnderReasons_needs required)
  have sound : a.markJsonNeeds.SoundlyMarked := fun id w hneeds =>
    hend.alike.unfolding id ▸ hend.within id w hneeds
  exact ⟨hend.alike, marked_of_full sound (fullyMarked_of_stable fresh.stable)⟩

end Arena

end Typeforge
