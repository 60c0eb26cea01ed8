/-
# `Typeforge.Proofs.Lowering.Heights` — what the heights of a lowered arena rest on

A height is given to a node on the strength of heights that others have by then.
Those may come down later on, but they do not go; so the heights that are there
at last hold each other up: the height of a union rests on a lower member, that
of an object on lower properties.  Members that are not optional are no higher
than what is behind them.  They cannot hold each other up in a circle, as a
height comes to them from behind only.

Nothing is said about heights being least.  Draws that go down in height end,
whether there would have been a shorter way or not.
-/
import Typeforge.Proofs.Compiling.Build
import Typeforge.Proofs.Lowering.Passes
import Typeforge.Proofs.Lowering.Walking

namespace Typeforge

/-! ## Heights within a bound -/

/-- There is a height, and it is within a bound. -/
def HeightWithin (k : Nat) (h : Option Nat) : Prop := ∃ j ≤ k, h = some j

variable {k : Nat}

theorem heightWithin_some {h : Nat} : HeightWithin k (some h) ↔ h ≤ k := by
  constructor
  · rintro ⟨j, hj, heq⟩
    cases heq
    exact hj
  · exact fun hle => ⟨h, hle, rfl⟩

theorem not_heightWithin_none : ¬HeightWithin k none := by
  rintro ⟨j, -, heq⟩
  cases heq

theorem HeightWithin.mono {j : Nat} {h : Option Nat} (hh : HeightWithin j h) (hle : j ≤ k) :
    HeightWithin k h := by
  obtain ⟨i, hi, rfl⟩ := hh
  exact ⟨i, hi.trans hle, rfl⟩

theorem HeightWithin.ne_none {h : Option Nat} (hh : HeightWithin k h) : h ≠ none := by
  obtain ⟨i, -, rfl⟩ := hh
  exact Option.some_ne_none i

theorem heightWithin_above {h : Option Nat} :
    HeightWithin k (h.map (· + 1)) ↔ ∃ j < k, HeightWithin j h := by
  constructor
  · rintro ⟨j, hj, heq⟩
    obtain ⟨i, rfl, rfl⟩ := Option.map_eq_some_iff.mp heq
    exact ⟨i, hj, heightWithin_some.mpr (le_refl i)⟩
  · rintro ⟨j, hj, i, hi, rfl⟩
    exact ⟨i + 1, (Nat.succ_le_succ hi).trans hj, rfl⟩

theorem heightWithin_least {hs : List (Option Nat)} :
    HeightWithin k (leastHeight hs) ↔ ∃ h ∈ hs, HeightWithin k h := by
  induction hs with
  | nil =>
    refine iff_of_false not_heightWithin_none ?_
    rintro ⟨h, hmem, -⟩
    exact absurd hmem List.not_mem_nil
  | cons h rest ih =>
    rw [List.exists_mem_cons_iff, ← ih]
    cases h with
    | none => exact (or_iff_right not_heightWithin_none).symm
    | some h =>
      rw [leastHeight]
      cases leastHeight rest with
      | none => exact (or_iff_left not_heightWithin_none).symm
      | some least => simp only [heightWithin_some, min_le_iff]

theorem heightWithin_greatest {hs : List (Option Nat)} :
    HeightWithin k (greatestHeight hs) ↔ ∀ h ∈ hs, HeightWithin k h := by
  induction hs with
  | nil =>
    exact iff_of_true (heightWithin_some.mpr (Nat.zero_le k)) fun h hmem =>
      absurd hmem List.not_mem_nil
  | cons h rest ih =>
    rw [List.forall_mem_cons, ← ih]
    cases h with
    | none =>
      exact iff_of_false not_heightWithin_none fun hh => not_heightWithin_none hh.1
    | some h =>
      rw [greatestHeight]
      cases greatestHeight rest with
      | none => exact iff_of_false not_heightWithin_none fun hh => not_heightWithin_none hh.2
      | some greatest => simp only [Option.map_some, heightWithin_some, max_le_iff]

theorem leastHeight_eq_none {hs : List (Option Nat)} (h : ∀ k ∈ hs, k = none) :
    leastHeight hs = none := by
  cases hleast : leastHeight hs with
  | none => rfl
  | some k =>
    obtain ⟨h', hmem, hwithin⟩ :=
      heightWithin_least.mp (hleast ▸ heightWithin_some.mpr (le_refl k))
    exact absurd (h h' hmem) hwithin.ne_none

/-! ## What a height is made of -/

/-- The child that a node may do without: behind a member that may be left out, or repeated any
number of times. The node's height takes no account of it. -/
def Node.dispensable? (n : Node) : Option NodeId :=
  match n.shape with
  | .array child | .rest child | .indexSignature _ child | .parameter _ child true => some child
  | .property _ child | .tupleMember child | .promise child | .parameter _ child false =>
    if n.optional then some child else none
  | _ => none

/-- The child behind a member that must be there. The node is as high as the child. -/
def Node.required? (n : Node) : Option NodeId :=
  match n.shape with
  | .property _ child | .tupleMember child | .promise child | .parameter _ child false =>
    if n.optional then none else some child
  | _ => none

/-- Whether a node holds all of its children at once. -/
def Shape.isCollection : Shape → Bool
  | object _ _ _ | tuple _ => true
  | _ => false

namespace Arena

variable {a b : Arena} {n : Node} {id : NodeId}

theorem height_required {child : NodeId} (h : n.required? = some child) :
    a.height n = (a.node child).minHeight := by
  unfold Node.required? at h
  split at h <;> rename_i hshape
  · split at h <;> cases h
    rename_i hkept
    simp only [height, hshape, if_neg hkept]
  · split at h <;> cases h
    rename_i hkept
    simp only [height, hshape, if_neg hkept]
  · split at h <;> cases h
    rename_i hkept
    simp only [height, hshape, if_neg hkept]
  · split at h <;> cases h
    rename_i hkept
    simp only [height, hshape, Bool.false_or, if_neg hkept]
  · cases h

theorem heightWithin_union {members : List NodeId} (h : n.shape = .union members) :
    HeightWithin k (a.height n) ↔
      ∃ j < k, ∃ m ∈ members, HeightWithin j (a.node m).minHeight := by
  simp only [height, h, heightWithin_above, heightWithin_least, List.mem_map,
    exists_exists_and_eq_and]

theorem heightWithin_collection (h : n.shape.isCollection = true) :
    HeightWithin k (a.height n) ↔
      ∃ j < k, ∀ child ∈ n.children, HeightWithin j (a.node child).minHeight := by
  unfold Shape.isCollection at h
  split at h
  · rename_i hshape
    simp only [height, hshape, heightWithin_above, heightWithin_greatest, List.forall_mem_map]
  · rename_i hshape
    simp only [height, hshape, heightWithin_above, heightWithin_greatest, List.forall_mem_map]
  · cases h

/-- A height within a bound rests on heights below it, and that of a member on the one behind it. Where
these come down, it does. -/
theorem heightWithin_height_of_rests
    (le : ∀ child j, j < k ∨ j = k ∧ n.required? = some child →
      HeightWithin j (a.node child).minHeight → HeightWithin j (b.node child).minHeight)
    (h : HeightWithin k (a.height n)) : HeightWithin k (b.height n) := by
  have collection (hcollection : n.shape.isCollection = true) : HeightWithin k (b.height n) := by
    obtain ⟨j, hj, hall⟩ := (heightWithin_collection hcollection).mp h
    exact (heightWithin_collection hcollection).mpr
      ⟨j, hj, fun child hchild => le child j (.inl hj) (hall child hchild)⟩
  have member {child : NodeId} (hrequired : n.required? = some child) :
      HeightWithin k (b.height n) := by
    rw [height_required hrequired] at h ⊢
    exact le child k (.inr ⟨rfl, hrequired⟩) h
  cases hshape : n.shape with
  | union members =>
    obtain ⟨j, hj, m, hm, hwithin⟩ := (heightWithin_union hshape).mp h
    exact (heightWithin_union hshape).mpr ⟨j, hj, m, hm, le m j (.inl hj) hwithin⟩
  | object props index className => exact collection (by rw [hshape]; rfl)
  | tuple members => exact collection (by rw [hshape]; rfl)
  | property | tupleMember | promise =>
    cases hoptional : n.optional with
    | true =>
      simp only [height, hshape, hoptional, if_true]
      exact heightWithin_some.mpr (Nat.zero_le k)
    | false => exact member (by simp only [Node.required?, hshape, hoptional]; rfl)
  | parameter name child rest =>
    cases hskip : rest || n.optional with
    | true =>
      simp only [height, hshape, hskip, if_true]
      exact heightWithin_some.mpr (Nat.zero_le k)
    | false =>
      obtain ⟨rfl, hoptional⟩ := Bool.or_eq_false_iff.mp hskip
      exact member (by simp only [Node.required?, hshape, hoptional]; rfl)
  | atom x =>
    simp only [height, hshape] at h ⊢
    cases x with
    | enumeration members => cases members <;> exact h
    | _ => exact h
  | array | rest | indexSignature | function =>
    simp only [height, hshape] at h ⊢
    exact h

/-- Where the heights of children come down, the height of a node does. -/
theorem heightWithin_height_of_le
    (le : ∀ id k, HeightWithin k (a.node id).minHeight → HeightWithin k (b.node id).minHeight)
    (h : HeightWithin k (a.height n)) : HeightWithin k (b.height n) :=
  heightWithin_height_of_rests (fun child j _ => le child j) h

/-! ## Heights that hold each other up -/

/-- A node behind a member that must be there. -/
def Behind (a : Arena) (child id : NodeId) : Prop := (a.node id).required? = some child

/-- Heights rest on heights, and those of members on something behind them at last. -/
structure Supported (a : Arena) : Prop where
  rests : ∀ id k, (a.node id).minHeight = some k → HeightWithin k (a.height (a.node id))
  founded : ∀ id, (a.node id).minHeight ≠ none → Acc a.Behind id

theorem Supported.heightWithin (supported : a.Supported)
    (h : HeightWithin k (a.node id).minHeight) : HeightWithin k (a.height (a.node id)) := by
  obtain ⟨j, hj, hheight⟩ := h
  exact (supported.rests id j hheight).mono hj

/-- Giving a node a height, or a lower one, keeps heights supported. -/
theorem keeps_supported : Keeps improveHeight Supported := by
  intro b id n hb hid hn
  obtain ⟨new, hheight, rfl, hlt⟩ := eq_of_improveHeight hn
  have le (other : NodeId) (k : Nat) (h : HeightWithin k (b.node other).minHeight) :
      HeightWithin k
        ((b.set id { b.node id with minHeight := some new }).node other).minHeight := by
    refine node_set_cases (fun m => HeightWithin k m.minHeight) hid other (fun _ => h) ?_
    rintro rfl
    obtain ⟨old, hold, hsome⟩ := h
    exact heightWithin_some.mpr ((hlt old hsome).le.trans hold)
  refine ⟨fun other k => ?_, fun other => ?_⟩
  · refine node_set_cases (fun m => m.minHeight = some k → HeightWithin k (Arena.height _ m)) hid
      other (fun _ h => ?_) fun _ h => ?_
    · exact heightWithin_height_of_le le (hb.rests other k h)
    · cases h
      refine heightWithin_height_of_le (n := b.node id) le ?_
      rw [hheight]
      exact heightWithin_some.mpr (le_refl _)
  · have behind : (b.set id { b.node id with minHeight := some new }).Behind = b.Behind := by
      funext child other
      have same : ((b.set id { b.node id with minHeight := some new }).node other).required? =
          (b.node other).required? := field_set Node.required? (by rfl) other
      rw [Behind, Behind, same]
    rw [behind]
    refine node_set_cases (fun m => m.minHeight ≠ none → Acc b.Behind other) hid other
      (fun _ => hb.founded other) fun heq _ => ⟨other, fun child hchild => ?_⟩
    -- a member has its height from what is behind it
    subst heq
    refine hb.founded child ?_
    rw [← height_required hchild, hheight]
    exact Option.some_ne_none new

/-- No heights need support. -/
theorem supported_of_unheighted (h : ∀ id, (a.node id).minHeight = none) : a.Supported where
  rests id k hk := by
    rw [h id] at hk
    cases hk
  founded id hid := absurd (h id) hid

/-- **The heights of a lowered arena are supported.** -/
theorem supported_of_lower {g : TypeGraph} {root : TypeId} {maxDepth : Nat}
    (h : lower g root maxDepth = .ok a) : a.Supported := by
  obtain ⟨⟨root', walked⟩, hwalk, h⟩ := Except.bind_eq_ok.mp h
  dsimp only at h
  have hwalked (id : NodeId) : ((Arena.mk walked.nodes root').node id).minHeight = none := by
    rw [node, Array.getD_eq_getD_getElem?]
    cases hget : walked.nodes[id.index]? with
    | none => rfl
    | some n => exact (Walk.fresh_of_lowerType hwalk n (Array.mem_of_getElem? hget)).unheighted
  obtain ⟨⟨c, merged⟩, hmerge, h⟩ := Except.bind_eq_ok.mp h
  have hmerged (id : NodeId) : (c.node id).minHeight = none := by
    rw [field_mergeIndexes Node.minHeight (fun _ _ => rfl) hmerge,
      field_assignIdentities Node.minHeight (fun _ _ => rfl),
      field_markJsonNeeds Node.minHeight (fun _ _ _ => rfl), hwalked]
  have settled (c' : Arena) (hc : ∀ id, (c'.node id).minHeight = none) :
      c'.markShared.assignHeights.Supported := by
    refine settle_keeps keeps_supported _ (supported_of_unheighted fun id => ?_)
    rw [field_markShared Node.minHeight (fun _ _ => rfl), hc]
  cases merged with
  | true =>
    cases h
    refine settled c.assignIdentities fun id => ?_
    rw [field_assignIdentities Node.minHeight (fun _ _ => rfl), hmerged]
  | false =>
    cases h
    exact settled c hmerged

end Arena

end Typeforge
