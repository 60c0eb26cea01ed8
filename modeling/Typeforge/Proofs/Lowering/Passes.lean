/-
# `Typeforge.Proofs.Lowering.Passes` — what the passes after the walk leave alone

After the walk, passes over the arena fill in one kind of fact after another.
Each changes nodes in their places, so that what it does not fill in is the same
before and after it.  `field` is any view of a node: a fact it carries, or
several of them at once.
-/
import Typeforge.Proofs.Lowering.Sweeps

namespace Typeforge

namespace Arena

variable {a : Arena} {β : Type}

/-! ## Changes of nodes in their places -/

theorem field_of_getElem? (field : Node → β) {nodes : Array Node} {root : NodeId}
    (size : nodes.size = a.size)
    (h : ∀ (i : Nat) m n, a.nodes[i]? = some m → nodes[i]? = some n → field n = field m)
    (id : NodeId) : field ((Arena.mk nodes root).node id) = field (a.node id) := by
  simp only [node, Array.getD_eq_getD_getElem?]
  by_cases hid : id.index < a.size
  · have hn : id.index < nodes.size := size ▸ hid
    have hm : a.nodes[id.index]? = some a.nodes[id.index] := Array.getElem?_eq_getElem hid
    rw [hm, Array.getElem?_eq_getElem hn]
    exact h id.index _ _ hm (Array.getElem?_eq_getElem hn)
  · rw [Array.getElem?_eq_none (Nat.le_of_not_lt hid),
      Array.getElem?_eq_none (Nat.le_of_not_lt (size ▸ hid))]

theorem field_set (field : Node → β) {id : NodeId} {n : Node} (h : field n = field (a.node id))
    (other : NodeId) : field ((a.set id n).node other) = field (a.node other) := by
  by_cases hid : id ∈ a.ids
  · exact node_set_cases (fun m => field m = field (a.node other)) hid other (fun _ => rfl)
      fun heq => heq ▸ h
  · have hout : ¬id.index < a.nodes.size := fun hlt => hid (mem_ids.mpr hlt)
    simp only [node, set, Array.setIfInBounds_eq_of_size_le (Nat.le_of_not_lt hout)]

/-! ## Sweeps -/

section Sweeps

variable {improve : Arena → Node → Option Node}

theorem size_settle (fuel : Nat) (a : Arena) : (a.settle improve fuel).size = a.size :=
  settle_keeps (P := fun b => b.size = a.size) (fun _ _ _ hb _ _ => size_set.trans hb) fuel rfl

@[simp] theorem root_settle (fuel : Nat) (a : Arena) : (a.settle improve fuel).root = a.root :=
  settle_keeps (P := fun b => b.root = a.root) (fun _ _ _ hb _ _ => hb) fuel rfl

theorem field_settle (field : Node → β)
    (h : ∀ b m n, improve b m = some n → field n = field m) (fuel : Nat) (id : NodeId) :
    field ((a.settle improve fuel).node id) = field (a.node id) := by
  refine settle_keeps (P := fun b => field (b.node id) = field (a.node id)) ?_ fuel rfl
  intro b other n hb _ hn
  rw [field_set field (h b _ n hn) id, hb]

end Sweeps

theorem size_markJsonNeeds (a : Arena) : a.markJsonNeeds.size = a.size := size_settle _ a

theorem field_markJsonNeeds (field : Node → β)
    (h : ∀ n encode decode, field { n with needsEncode := encode, needsDecode := decode } = field n)
    (id : NodeId) : field (a.markJsonNeeds.node id) = field (a.node id) := by
  refine field_settle field (fun b m n hn => ?_) _ id
  unfold improveNeeds at hn
  dsimp only at hn
  split at hn <;> cases hn
  exact h m _ _

theorem eq_of_improveHeight {m n : Node} (h : a.improveHeight m = some n) :
    ∃ k, a.height m = some k ∧ n = { m with minHeight := some k } ∧
      ∀ old, m.minHeight = some old → k < old := by
  unfold improveHeight at h
  split at h
  · rename_i new old hnew hold
    split at h <;> cases h
    rename_i hlt
    refine ⟨new, hnew, rfl, fun old' hold' => ?_⟩
    rw [hold] at hold'
    cases hold'
    exact hlt
  · rename_i new hnew hnone
    cases h
    refine ⟨new, hnew, rfl, fun old hold => ?_⟩
    rw [hnone] at hold
    cases hold
  · cases h

theorem size_assignHeights (a : Arena) : a.assignHeights.size = a.size := size_settle _ a

theorem field_assignHeights (field : Node → β)
    (h : ∀ n height, field { n with minHeight := height } = field n) (id : NodeId) :
    field (a.assignHeights.node id) = field (a.node id) := by
  refine field_settle field (fun b m n hn => ?_) _ id
  obtain ⟨k, -, rfl, -⟩ := eq_of_improveHeight hn
  exact h m _

/-! ## Identities and shared types -/

theorem length_mapM_run {σ α β : Type} (f : α → StateM σ β) (xs : List α) (s : σ) :
    ((xs.mapM f).run s).1.length = xs.length := by
  induction xs generalizing s with
  | nil => rfl
  | cons x xs ih =>
    rw [List.mapM_cons]
    exact congrArg (· + 1) (ih _)

theorem length_identities (a : Arena) : a.identities.length = a.size := by
  refine (length_mapM_run _ a.ids _).trans ?_
  simp only [ids, List.length_map, List.length_range]

theorem size_assignIdentities (a : Arena) : a.assignIdentities.size = a.size := by
  rw [size, assignIdentities, List.size_toArray, List.length_map, List.length_zip,
    length_identities, Array.length_toList, size, Nat.min_self]

theorem field_assignIdentities (field : Node → β)
    (h : ∀ n identity, field { n with identity } = field n) (id : NodeId) :
    field (a.assignIdentities.node id) = field (a.node id) := by
  refine field_of_getElem? field (size_assignIdentities a) (fun i m n hm hn => ?_) id
  rw [assignIdentities, List.getElem?_toArray, List.getElem?_map, Option.map_eq_some_iff] at hn
  obtain ⟨⟨m', identity⟩, hzip, rfl⟩ := hn
  have hm' : a.nodes[i]? = some m' := by
    rw [← Array.getElem?_toList]
    exact (List.getElem?_zip_eq_some.mp hzip).1
  obtain rfl : m = m' := Option.some.inj (hm.symm.trans hm')
  exact h m identity

theorem size_markShared (a : Arena) : a.markShared.size = a.size := Array.size_map ..

theorem field_markShared (field : Node → β)
    (h : ∀ n isShared, field { n with isShared } = field n) (id : NodeId) :
    field (a.markShared.node id) = field (a.node id) := by
  refine field_of_getElem? field (size_markShared a) (fun i m n hm hn => ?_) id
  rw [markShared, Array.getElem?_map, hm] at hn
  cases hn
  exact h m _

/-! ## Index signatures -/

theorem root_mergeIndexes {aside : List (NodeId × NodeId)} {changed merged : Bool} {c : Arena}
    (hmerge : a.mergeIndexes changed aside = .ok (c, merged)) : c.root = a.root := by
  induction aside generalizing a changed with
  | nil =>
    cases hmerge
    rfl
  | cons x rest ih =>
    rw [mergeIndexes] at hmerge
    cases hfirst : a.mergeIndex x.1 x.2 with
    | error e =>
      rw [hfirst] at hmerge
      cases hmerge
    | ok s =>
      rw [hfirst] at hmerge
      refine (ih hmerge).trans ?_
      unfold mergeIndex at hfirst
      dsimp only at hfirst
      split at hfirst
      · split at hfirst
        · split at hfirst
          · cases hfirst
          · split at hfirst <;> cases hfirst <;> rfl
        · cases hfirst
          rfl
      · cases hfirst
        rfl

theorem field_mergeIndexes (field : Node → β) (h : ∀ n shape, field { n with shape } = field n)
    {aside : List (NodeId × NodeId)} {changed merged : Bool} {c : Arena}
    (hmerge : a.mergeIndexes changed aside = .ok (c, merged)) (id : NodeId) :
    field (c.node id) = field (a.node id) := by
  induction aside generalizing a changed with
  | nil =>
    cases hmerge
    rfl
  | cons x rest ih =>
    rw [mergeIndexes] at hmerge
    have hone {b : Arena} {changed' : Bool} (hb : a.mergeIndex x.1 x.2 = .ok (b, changed')) :
        field (b.node id) = field (a.node id) := by
      unfold mergeIndex at hb
      dsimp only at hb
      split at hb
      · split at hb
        · split at hb
          · cases hb
          · split at hb <;> cases hb
            · exact field_set field (h _ _) id
            · rfl
        · cases hb
          rfl
      · cases hb
        rfl
    cases hfirst : a.mergeIndex x.1 x.2 with
    | error e =>
      rw [hfirst] at hmerge
      cases hmerge
    | ok s =>
      rw [hfirst] at hmerge
      exact (ih hmerge).trans (hone hfirst)

end Arena

end Typeforge
