/-
# `Typeforge.Proofs.Types.Deciding` — judging a value part by part, in order

Whether a value is an instance of a type is a matter of finitely many places, but not of any
particular ones: `Judges` takes a part that fails wherever it finds it.  A run goes through the parts
in order, and through a union member by member; it comes to an answer only if each part before the
one that decides has an answer of its own.

`TypeTree.judge` goes this way, down to a depth.  What it comes to is what `Judges` says, and stays
the same at every greater depth.
-/
import Typeforge.Proofs.Types.Tree

namespace Typeforge

/-! ## Searches through lists -/

theorem allM_eq_some {α : Type} {p : α → Option Bool} {xs : List α} {b : Bool}
    (h : xs.allM p = some b) :
    (b = true → ∀ x ∈ xs, p x = some true) ∧ (b = false → ∃ x ∈ xs, p x = some false) := by
  induction xs with
  | nil =>
    cases h
    exact ⟨fun _ _ hx => absurd hx List.not_mem_nil, Bool.noConfusion⟩
  | cons x xs ih =>
    rw [List.allM] at h
    cases hx : p x with
    | none => simp [hx] at h
    | some c =>
      cases c with
      | false =>
        simp only [hx, Option.bind_eq_bind, Option.bind_some, Option.pure_def] at h
        cases h
        exact ⟨Bool.noConfusion, fun _ => ⟨x, List.mem_cons_self, hx⟩⟩
      | true =>
        simp only [hx, Option.bind_eq_bind, Option.bind_some] at h
        obtain ⟨htrue, hfalse⟩ := ih h
        refine ⟨fun hb => List.forall_mem_cons.mpr ⟨hx, htrue hb⟩, fun hb => ?_⟩
        obtain ⟨y, hy, hpy⟩ := hfalse hb
        exact ⟨y, List.mem_cons_of_mem x hy, hpy⟩

theorem anyM_eq_some {α : Type} {p : α → Option Bool} {xs : List α} {b : Bool}
    (h : xs.anyM p = some b) :
    (b = true → ∃ x ∈ xs, p x = some true) ∧ (b = false → ∀ x ∈ xs, p x = some false) := by
  induction xs with
  | nil =>
    cases h
    exact ⟨Bool.noConfusion, fun _ _ hx => absurd hx List.not_mem_nil⟩
  | cons x xs ih =>
    rw [List.anyM] at h
    cases hx : p x with
    | none => simp [hx] at h
    | some c =>
      cases c with
      | true =>
        simp only [hx, Option.bind_eq_bind, Option.bind_some, Option.pure_def] at h
        cases h
        exact ⟨fun _ => ⟨x, List.mem_cons_self, hx⟩, Bool.noConfusion⟩
      | false =>
        simp only [hx, Option.bind_eq_bind, Option.bind_some] at h
        obtain ⟨htrue, hfalse⟩ := ih h
        refine ⟨fun hb => ?_, fun hb => List.forall_mem_cons.mpr ⟨hx, hfalse hb⟩⟩
        obtain ⟨y, hy, hpy⟩ := htrue hb
        exact ⟨y, List.mem_cons_of_mem x hy, hpy⟩

/-- A search that comes to an answer comes to the same one where more answers are known. -/
def Known {α : Type} (known more : Option α) : Prop := ∀ b, known = some b → more = some b

theorem Known.rfl {α : Type} {x : Option α} : Known x x := fun _ h => h

theorem Known.trans {α : Type} {x y z : Option α} (h : Known x y) (h' : Known y z) : Known x z :=
  fun b hb => h' b (h b hb)

theorem Known.none {α : Type} {x : Option α} : Known Option.none x := nofun

theorem Known.allM {α : Type} {p q : α → Option Bool} {xs : List α}
    (h : ∀ x ∈ xs, Known (p x) (q x)) : Known (xs.allM p) (xs.allM q) := by
  induction xs with
  | nil => exact .rfl
  | cons x xs ih =>
    intro b hb
    rw [List.allM] at hb ⊢
    cases hx : p x with
    | none =>
      rw [hx] at hb
      cases hb
    | some c =>
      rw [hx] at hb
      rw [h x List.mem_cons_self c hx]
      cases c with
      | false => exact hb
      | true => exact ih (fun y hy => h y (List.mem_cons_of_mem x hy)) b hb

theorem Known.anyM {α : Type} {p q : α → Option Bool} {xs : List α}
    (h : ∀ x ∈ xs, Known (p x) (q x)) : Known (xs.anyM p) (xs.anyM q) := by
  induction xs with
  | nil => exact .rfl
  | cons x xs ih =>
    intro b hb
    rw [List.anyM] at hb ⊢
    cases hx : p x with
    | none =>
      rw [hx] at hb
      cases hb
    | some c =>
      rw [hx] at hb
      rw [h x List.mem_cons_self c hx]
      cases c with
      | true => exact hb
      | false => exact ih (fun y hy => h y (List.mem_cons_of_mem x hy)) b hb

/-! ## Judging in order -/

namespace TypeTree

/-- Whether a value is an instance of a type, the type followed down to a depth: the demands are
tried in order up to the first that fails, the members of a union up to the first that holds. -/
def judge : Nat → TypeTree → Value → Option Bool
  | 0, _, _ => none
  | n + 1, t, v =>
    match t.facet v with
    | .silent => none
    | .misfit _ => some false
    | .all demands => demands.allM fun d => judge n d.tree d.value
    | .oneOf members => members.anyM fun u => judge n u v

variable {t : TypeTree} {v : Value}

theorem judge_succ (n : Nat) (t : TypeTree) (v : Value) : Known (judge n t v) (judge (n + 1) t v) := by
  induction n generalizing t v with
  | zero => exact .none
  | succ n ih =>
    rw [judge, judge]
    cases t.facet v with
    | silent => exact .rfl
    | misfit => exact .rfl
    | all demands => exact .allM fun d _ => ih d.tree d.value
    | oneOf members => exact .anyM fun u _ => ih u v

/-- A greater depth does not change an answer. -/
theorem judge_mono {n m : Nat} (h : n ≤ m) : Known (judge n t v) (judge m t v) := by
  induction h with
  | refl => exact .rfl
  | step _ ih => exact ih.trans (judge_succ _ t v)

/-- What is found in order is what is to be found. -/
theorem judges_of_judge {n : Nat} {b : Bool} (h : judge n t v = some b) : Judges t v b := by
  induction n generalizing t v b with
  | zero => cases h
  | succ n ih =>
    rw [judge] at h
    cases hfacet : t.facet v with
    | silent =>
      rw [hfacet] at h
      cases h
    | misfit expected =>
      rw [hfacet] at h
      cases h
      exact .misfit hfacet
    | all demands =>
      rw [hfacet] at h
      obtain ⟨htrue, hfalse⟩ := allM_eq_some h
      cases b with
      | true => exact .holds hfacet fun d hd => ih (htrue rfl d hd)
      | false =>
        obtain ⟨d, hd, hfails⟩ := hfalse rfl
        exact .fails hfacet hd (ih hfails)
    | oneOf members =>
      rw [hfacet] at h
      obtain ⟨htrue, hfalse⟩ := anyM_eq_some h
      cases b with
      | true =>
        obtain ⟨u, hu, hholds⟩ := htrue rfl
        exact .member hfacet hu (ih hholds)
      | false => exact .noMember hfacet fun u hu => ih (hfalse rfl u hu)

end TypeTree

end Typeforge
