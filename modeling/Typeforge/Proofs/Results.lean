/-
# `Typeforge.Proofs.Results` — related lists, and results that are there

Two lists are related item by item, so what is known of an item of one is known of some
item of the other.  Of a computation that has given a result, each of its steps has given
one; a list of them that has failed did so at the first item that has an error.
-/
import Mathlib.Data.List.Forall2

namespace Typeforge

/-! ## Related lists -/

theorem exists_of_forall₂_left {α β : Type} {R : α → β → Prop} {xs : List α} {ys : List β}
    (h : List.Forall₂ R xs ys) {x : α} (hx : x ∈ xs) : ∃ y ∈ ys, R x y := by
  induction h with
  | nil => exact absurd hx List.not_mem_nil
  | cons hxy _ ih =>
    rcases List.mem_cons.mp hx with rfl | hx
    · exact ⟨_, List.mem_cons_self, hxy⟩
    · obtain ⟨y, hy, hr⟩ := ih hx
      exact ⟨y, List.mem_cons_of_mem _ hy, hr⟩

theorem exists_of_forall₂_right {α β : Type} {R : α → β → Prop} {xs : List α} {ys : List β}
    (h : List.Forall₂ R xs ys) {y : β} (hy : y ∈ ys) : ∃ x ∈ xs, R x y :=
  exists_of_forall₂_left h.flip hy

/-- Lists are related in two steps when their items are. -/
theorem forall₂_exists_iff {α β γ : Type} {R : α → β → Prop} {S : β → γ → Prop} {xs : List α}
    {zs : List γ} : List.Forall₂ (fun x z => ∃ y, R x y ∧ S y z) xs zs ↔
      ∃ ys, List.Forall₂ R xs ys ∧ List.Forall₂ S ys zs := by
  constructor
  · intro h
    induction h with
    | nil => exact ⟨[], .nil, .nil⟩
    | cons hxz _ ih =>
      obtain ⟨y, hxy, hyz⟩ := hxz
      obtain ⟨ys, hys, hzs⟩ := ih
      exact ⟨y :: ys, .cons hxy hys, .cons hyz hzs⟩
  · rintro ⟨ys, hys, hzs⟩
    induction hys generalizing zs with
    | nil =>
      cases hzs
      exact .nil
    | cons hxy _ ih =>
      cases hzs with
      | cons hyz hzs => exact .cons ⟨_, hxy, hyz⟩ (ih hzs)

/-! ## Results -/

theorem Except.bind_eq_ok {ε α β : Type} {x : Except ε α} {f : α → Except ε β} {b : β} :
    (x >>= f) = .ok b ↔ ∃ a, x = .ok a ∧ f a = .ok b := by
  cases x <;> simp [bind, Except.bind]

/-- A result that is there is the one that stands in for it otherwise. -/
theorem Except.eq_ok_getD {ε α : Type} {x : Except ε α} (h : x.isOk = true) (other : α) :
    x = .ok (x.toOption.getD other) := by
  cases x with
  | ok y => rfl
  | error e => cases h

/-- The error of a computation that has failed. -/
def Except.error? {ε α : Type} : Except ε α → Option ε
  | .ok _ => none
  | .error e => some e

theorem Except.error?_eq_some {ε α : Type} {x : Except ε α} {e : ε} :
    Except.error? x = some e ↔ x = .error e := by
  cases x <;> simp [Except.error?]

theorem Except.ne_error_of_isOk {ε α : Type} {x : Except ε α} (h : x.isOk = true) (e : ε) :
    x ≠ .error e := by
  rintro rfl
  cases h

theorem Except.exists_of_any {ε α : Type} {x : Except ε α} {f : α → Bool}
    (h : x.toOption.any f = true) : ∃ y, x = .ok y ∧ f y = true := by
  cases x with
  | ok y => exact ⟨y, rfl, h⟩
  | error e => cases h

theorem Except.map_eq_ok {ε α β : Type} {x : Except ε α} {f : α → β} {b : β} :
    x.map f = .ok b ↔ ∃ a, x = .ok a ∧ f a = b := by
  cases x <;> simp [Except.map]

theorem Except.map_eq_error {ε α β : Type} {x : Except ε α} {f : α → β} {e : ε} :
    x.map f = .error e ↔ x = .error e := by
  cases x <;> simp [Except.map]

/-! ## Lists of results -/

theorem Except.mapM_eq_ok {ε α β : Type} {f : α → Except ε β} {xs : List α} {ys : List β} :
    xs.mapM f = .ok ys ↔ List.Forall₂ (fun x y => f x = .ok y) xs ys := by
  induction xs generalizing ys with
  | nil =>
    rw [List.mapM_nil, List.forall₂_nil_left_iff]
    exact ⟨fun h => (Except.ok.inj h).symm, fun h => h ▸ rfl⟩
  | cons x xs ih =>
    simp only [List.mapM_cons, Except.bind_eq_ok, ih, List.forall₂_cons_left_iff]
    constructor
    · rintro ⟨y, hy, ys', hys, hpure⟩
      exact ⟨y, ys', hy, hys, (Except.ok.inj hpure).symm⟩
    · rintro ⟨y, ys', hy, hys, rfl⟩
      exact ⟨y, hy, ys', hys, rfl⟩

/-- The error of a list is that of the first item that has one. -/
theorem Except.mapM_eq_error {ε α β : Type} {f : α → Except ε β} {xs : List α} {e : ε} :
    xs.mapM f = .error e ↔ ∃ before x after, xs = before ++ x :: after ∧
      (∀ y ∈ before, (f y).isOk = true) ∧ f x = .error e := by
  induction xs with
  | nil =>
    refine ⟨nofun, ?_⟩
    rintro ⟨before, x, after, h, -⟩
    exact absurd h (by simp)
  | cons x xs ih =>
    rw [List.mapM_cons]
    cases hx : f x with
    | error e' =>
      constructor
      · intro h
        obtain rfl : e' = e := Except.error.inj h
        exact ⟨[], x, xs, rfl, fun _ hy => absurd hy List.not_mem_nil, hx⟩
      · rintro ⟨before, x', after, h, read, hx'⟩
        cases before with
        | nil =>
          obtain ⟨rfl, -⟩ := List.cons.inj h
          rw [hx] at hx'
          obtain rfl := Except.error.inj hx'
          rfl
        | cons y before =>
          obtain ⟨rfl, -⟩ := List.cons.inj h
          have hy := read x List.mem_cons_self
          rw [hx] at hy
          cases hy
    | ok y =>
      have hrest : (Except.ok y >>= fun y => xs.mapM f >>= fun ys => pure (y :: ys)) = .error e ↔
          xs.mapM f = .error e := by
        cases xs.mapM f <;> simp [bind, Except.bind, pure, Except.pure]
      rw [hrest, ih]
      constructor
      · rintro ⟨before, x', after, rfl, read, hx'⟩
        refine ⟨x :: before, x', after, rfl, List.forall_mem_cons.mpr ⟨?_, read⟩, hx'⟩
        rw [hx]
        rfl
      · rintro ⟨before, x', after, h, read, hx'⟩
        cases before with
        | nil =>
          obtain ⟨rfl, -⟩ := List.cons.inj h
          rw [hx] at hx'
          cases hx'
        | cons z before =>
          obtain ⟨rfl, rfl⟩ := List.cons.inj h
          exact ⟨before, x', after, rfl, (List.forall_mem_cons.mp read).2, hx'⟩

end Typeforge
