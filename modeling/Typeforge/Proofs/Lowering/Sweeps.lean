/-
# `Typeforge.Proofs.Lowering.Sweeps` — sweeping until nothing changes

A sweep improves nodes in place, and sweeping ends early when a sweep changes
nothing.  What every improvement keeps, sweeping keeps; and when improvements
are counted by something bounded, enough sweeps leave nothing to improve.
-/
import Mathlib.Order.Nat
import Typeforge.Arena.Lower

namespace Typeforge

namespace Arena

/-! ## Nodes and their replacement -/

variable {a : Arena} {id : NodeId} {n : Node}

theorem mem_ids : id ∈ a.ids ↔ id.index < a.size := by
  simp only [ids, List.mem_map, List.mem_range]
  exact ⟨fun ⟨i, hi, h⟩ => h ▸ hi, fun h => ⟨_, h, rfl⟩⟩

theorem node_eq_default (h : id ∉ a.ids) : a.node id = default := by
  rw [mem_ids] at h
  simp only [Arena.node, Array.getD_eq_getD_getElem?]
  rw [Array.getElem?_eq_none (Nat.le_of_not_lt h)]
  rfl

/-- What holds of the nodes of an arena and of the node found where there is none, holds of every
reference. -/
theorem forall_node {P : Node → Prop} (h : ∀ id ∈ a.ids, P (a.node id))
    (nothing : P default) (id : NodeId) : P (a.node id) := by
  by_cases hid : id ∈ a.ids
  · exact h id hid
  · rw [node_eq_default hid]
    exact nothing

@[simp] theorem size_set : (a.set id n).size = a.size := by
  simp only [set, size, Array.size_setIfInBounds]

@[simp] theorem ids_set : (a.set id n).ids = a.ids := by
  simp only [ids, size_set]

theorem node_set_self (h : id ∈ a.ids) : (a.set id n).node id = n := by
  have hlt : id.index < a.nodes.size := mem_ids.mp h
  simp only [node, set, Array.getD_eq_getD_getElem?]
  rw [Array.getElem?_setIfInBounds_self_of_lt hlt]
  rfl

theorem node_set_ne {other : NodeId} (h : other ≠ id) : (a.set id n).node other = a.node other := by
  have hne : id.index ≠ other.index := fun heq => h (congrArg NodeId.mk heq.symm)
  simp only [node, set, Array.getD_eq_getD_getElem?]
  rw [Array.getElem?_setIfInBounds_ne hne]

/-- What holds of a node before and of the one in its place after holds of the node afterwards. -/
theorem node_set_cases (P : Node → Prop) (h : id ∈ a.ids) (other : NodeId)
    (old : other ≠ id → P (a.node other)) (new : other = id → P n) :
    P ((a.set id n).node other) := by
  by_cases hid : other = id
  · rw [hid, node_set_self h]
    exact new hid
  · rw [node_set_ne hid]
    exact old hid

/-! ## Sweeping -/

variable {improve : Arena → Node → Option Node} {P : Arena → Prop}

/-- Nothing can be improved. -/
def Stable (improve : Arena → Node → Option Node) (a : Arena) : Prop :=
  ∀ id ∈ a.ids, improve a (a.node id) = none

/-- Every improvement keeps a property. -/
def Keeps (improve : Arena → Node → Option Node) (P : Arena → Prop) : Prop :=
  ∀ a id n, P a → id ∈ a.ids → improve a (a.node id) = some n → P (a.set id n)

/-- One step of a sweep. -/
def sweepStep (improve : Arena → Node → Option Node) (s : Arena × Bool) (id : NodeId) :
    Arena × Bool :=
  match improve s.1 (s.1.node id) with
  | some n => (s.1.set id n, true)
  | none => s

theorem sweep_eq (improve : Arena → Node → Option Node) (a : Arena) :
    a.sweep improve = a.ids.foldl (sweepStep improve) (a, false) := rfl

theorem ids_sweepStep (s : Arena × Bool) (id : NodeId) : (sweepStep improve s id).1.ids = s.1.ids := by
  unfold sweepStep
  split
  · exact ids_set
  · rfl

/-- A step of a sweep keeps what improvements keep. -/
theorem sweepStep_keeps (keeps : Keeps improve P) {s : Arena × Bool} (hid : id ∈ s.1.ids)
    (hs : P s.1) : P (sweepStep improve s id).1 := by
  unfold sweepStep
  split
  · rename_i n hn
    exact keeps s.1 id n hs hid hn
  · exact hs

theorem foldl_keeps (keeps : Keeps improve P) (ids : List NodeId) {s : Arena × Bool}
    (hmem : ∀ id ∈ ids, id ∈ s.1.ids) (hs : P s.1) : P (ids.foldl (sweepStep improve) s).1 := by
  induction ids generalizing s with
  | nil => exact hs
  | cons id rest ih =>
    obtain ⟨hid, hrest⟩ := List.forall_mem_cons.mp hmem
    refine ih (fun x hx => ?_) (sweepStep_keeps keeps hid hs)
    rw [ids_sweepStep]
    exact hrest x hx

/-- A sweep keeps what improvements keep. -/
theorem sweep_keeps (keeps : Keeps improve P) (ha : P a) : P (a.sweep improve).1 :=
  foldl_keeps keeps a.ids (s := (a, false)) (fun _ hid => hid) ha

/-- What the visit of a node brings about and improvements keep, a sweep brings about. -/
theorem sweep_brings {Q : Arena → Prop} (keeps : Keeps improve P)
    (keepsBoth : Keeps improve fun b => P b ∧ Q b) (hid : id ∈ a.ids)
    (visit : ∀ s : Arena × Bool, id ∈ s.1.ids → P s.1 → Q (sweepStep improve s id).1) (ha : P a) :
    Q (a.sweep improve).1 := by
  obtain ⟨before, after, hids⟩ := List.append_of_mem hid
  have inside (x : NodeId) (hx : x ∈ before ++ id :: after) : x ∈ a.ids := hids ▸ hx
  have keepsIds : Keeps improve fun b => P b ∧ b.ids = a.ids :=
    fun b x n hb hx hn => ⟨keeps b x n hb.1 hx hn, ids_set.trans hb.2⟩
  rw [sweep_eq, hids, List.foldl_append, List.foldl_cons]
  obtain ⟨hp, hsame⟩ := foldl_keeps keepsIds before (s := (a, false))
    (fun x hx => inside x (List.mem_append_left _ hx)) ⟨ha, rfl⟩
  have hvisited : id ∈ (before.foldl (sweepStep improve) (a, false)).1.ids := by rwa [hsame]
  refine (foldl_keeps keepsBoth after (fun x hx => ?_)
    ⟨sweepStep_keeps keeps hvisited hp, visit _ hvisited hp⟩).2
  rw [ids_sweepStep, hsame]
  exact inside x (List.mem_append_right _ (List.mem_cons_of_mem _ hx))

/-- A measure that no improvement lowers is not lowered by a sweep; a sweep that says it changed
something has raised it, and one that says it did not leaves a stable arena. -/
theorem sweep_measure {β : Type} [Preorder β] {μ : Arena → β} (keeps : Keeps improve P)
    (rises : ∀ a id n, P a → id ∈ a.ids → improve a (a.node id) = some n → μ a < μ (a.set id n))
    (ha : P a) :
    ((a.sweep improve).2 = true → μ a < μ (a.sweep improve).1) ∧
    ((a.sweep improve).2 = false → (a.sweep improve).1 = a ∧ Stable improve a) := by
  suffices h : ∀ ids : List NodeId, (∀ id ∈ ids, id ∈ a.ids) → ∀ b : Arena, P b → b.ids = a.ids →
      ∀ changed, let s := ids.foldl (sweepStep improve) (b, changed)
        μ b ≤ μ s.1 ∧ (changed = true → s.2 = true) ∧
        (s.2 = true → changed = true ∨ μ b < μ s.1) ∧
        (s.2 = false → s.1 = b ∧ ∀ id ∈ ids, improve b (b.node id) = none) by
    obtain ⟨-, -, hrise, hstable⟩ := h a.ids (fun _ hid => hid) a ha rfl false
    exact ⟨fun hs => (hrise hs).resolve_left Bool.false_ne_true, hstable⟩
  intro ids
  induction ids with
  | nil =>
    intro _ b _ _ changed
    exact ⟨le_refl _, id, .inl, fun _ => ⟨rfl, fun _ hx => absurd hx List.not_mem_nil⟩⟩
  | cons id rest ih =>
    intro hmem b hb hids changed
    have hid : id ∈ b.ids := hids ▸ hmem id List.mem_cons_self
    have hrest : ∀ x ∈ rest, x ∈ a.ids := fun x hx => hmem x (List.mem_cons_of_mem id hx)
    rw [List.foldl_cons]
    cases hn : improve b (b.node id) with
    | some n =>
      have hstep : sweepStep improve (b, changed) id = (b.set id n, true) := by
        simp only [sweepStep, hn]
      have hlt := rises b id n hb hid hn
      obtain ⟨hle, htrue, -, hstable⟩ :=
        ih hrest (b.set id n) (keeps b id n hb hid hn) (by rw [ids_set, hids]) true
      rw [hstep]
      have hlt' := lt_of_lt_of_le hlt hle
      refine ⟨hlt'.le, fun _ => htrue rfl, fun _ => .inr hlt', ?_⟩
      intro hfalse
      rw [htrue rfl] at hfalse
      cases hfalse
    | none =>
      have hstep : sweepStep improve (b, changed) id = (b, changed) := by
        simp only [sweepStep, hn]
      obtain ⟨hle, htrue, hrise, hstable⟩ := ih hrest b hb hids changed
      rw [hstep]
      refine ⟨hle, htrue, hrise, fun hfalse => ?_⟩
      obtain ⟨heq, hall⟩ := hstable hfalse
      exact ⟨heq, List.forall_mem_cons.mpr ⟨hn, hall⟩⟩

theorem settle_succ (fuel : Nat) (a : Arena) :
    settle improve (fuel + 1) a =
      if (a.sweep improve).2 then settle improve fuel (a.sweep improve).1
      else (a.sweep improve).1 := rfl

/-- Sweeping keeps what improvements keep. -/
theorem settle_keeps (keeps : Keeps improve P) (fuel : Nat) (ha : P a) :
    P (settle improve fuel a) := by
  induction fuel generalizing a with
  | zero => exact ha
  | succ fuel ih =>
    rw [settle_succ]
    split
    · exact ih (sweep_keeps keeps ha)
    · exact sweep_keeps keeps ha

/-- Sweeping until a sweep changes nothing ends, and in which arena. -/
inductive SettlesAt (improve : Arena → Node → Option Node) : Arena → Arena → Prop where
  | done {a : Arena} (unchanged : (a.sweep improve).2 = false) : SettlesAt improve a (a.sweep improve).1
  | again {a b : Arena} (changed : (a.sweep improve).2 = true)
      (rest : SettlesAt improve (a.sweep improve).1 b) : SettlesAt improve a b

/-- What improvements keep is kept to the end. -/
theorem SettlesAt.keeps {b : Arena} (h : SettlesAt improve a b) (keeps : Keeps improve P)
    (ha : P a) : P b := by
  induction h with
  | done _ => exact sweep_keeps keeps ha
  | again _ _ ih => exact ih (sweep_keeps keeps ha)

/-- Where sweeping has ended nothing is left to improve. -/
theorem SettlesAt.stable {β : Type} [Preorder β] {μ : Arena → β} {b : Arena} (h : SettlesAt improve a b) (keeps : Keeps improve P)
    (rises : ∀ a id n, P a → id ∈ a.ids → improve a (a.node id) = some n → μ a < μ (a.set id n))
    (ha : P a) : Stable improve b := by
  induction h with
  | done unchanged =>
    obtain ⟨heq, h⟩ := (sweep_measure keeps rises ha).2 unchanged
    rw [heq]
    exact h
  | again _ _ ih => exact ih (sweep_keeps keeps ha)

section Measure

variable {μ : Arena → Nat} {bound : Nat}

/-- Enough sweeps are all there are: each but the last raises a bounded measure. -/
theorem settlesAt_settle (keeps : Keeps improve P)
    (rises : ∀ a id n, P a → id ∈ a.ids → improve a (a.node id) = some n → μ a < μ (a.set id n))
    (bounded : ∀ a, P a → μ a ≤ bound) (ha : P a) {fuel : Nat} (hfuel : bound < μ a + fuel) :
    SettlesAt improve a (settle improve fuel a) := by
  induction fuel generalizing a with
  | zero => exact absurd (bounded a ha) (by omega)
  | succ fuel ih =>
    rw [settle_succ]
    cases hchanged : (a.sweep improve).2 with
    | true =>
      have hrise := (sweep_measure keeps rises ha).1 hchanged
      rw [if_pos rfl]
      exact .again hchanged (ih (sweep_keeps keeps ha) (by omega))
    | false =>
      rw [if_neg Bool.false_ne_true]
      exact .done hchanged

end Measure

end Arena

end Typeforge
