/-
# `Typeforge.Proofs.Members` — entries and their names

An entry is found by its name, and entering or replacing one leaves the entries
of other names as they are.
-/
import Mathlib.Data.List.Basic
import Typeforge.Members

namespace Typeforge

namespace Members

variable {α : Type}

/-! ## Finding -/

theorem get?_eq_none {name : String} {ms : Members α} (h : get? name ms = none) :
    name ∉ ms.map Prod.fst := by
  induction ms with
  | nil => exact List.not_mem_nil
  | cons m rest ih =>
    obtain ⟨k, x⟩ := m
    rw [get?] at h
    split at h
    · cases h
    · rename_i hne
      exact List.not_mem_cons_of_ne_of_not_mem (fun heq => hne heq.symm) (ih h)

theorem mem_of_get? {name : String} {ms : Members α} {x : α} (h : get? name ms = some x) :
    (name, x) ∈ ms := by
  induction ms with
  | nil => cases h
  | cons m rest ih =>
    obtain ⟨k, y⟩ := m
    rw [get?] at h
    split at h
    · rename_i heq
      rw [← heq, ← Option.some.inj h]
      exact List.mem_cons_self
    · exact List.mem_cons_of_mem _ (ih h)

/-- Where names are different, every entry is found. -/
theorem get?_eq_of_mem {ms : Members α} (distinct : (ms.map Prod.fst).Nodup) {m : String × α}
    (hm : m ∈ ms) : get? m.1 ms = some m.2 := by
  induction ms with
  | nil => cases hm
  | cons first rest ih =>
    obtain ⟨hfirst, hdistinct⟩ := List.nodup_cons.mp distinct
    rw [get?]
    rcases List.mem_cons.mp hm with rfl | hm
    · exact if_pos rfl
    · have hne : first.1 ≠ m.1 := fun heq => hfirst (heq ▸ List.mem_map_of_mem hm)
      rw [if_neg hne]
      exact ih hdistinct hm

/-! ## Entering -/

theorem mem_put {name : String} {a : α} {ms : Members α} {e : String × α} (h : e ∈ put name a ms) :
    e = (name, a) ∨ e ∈ ms := by
  induction ms with
  | nil => exact .inl (List.mem_singleton.mp h)
  | cons m ms ih =>
    rw [put] at h
    split at h
    · rename_i hname
      rcases List.mem_cons.mp h with rfl | h
      · exact .inl (by rw [hname])
      · exact .inr (List.mem_cons_of_mem _ h)
    · rcases List.mem_cons.mp h with rfl | h
      · exact .inr List.mem_cons_self
      · exact (ih h).imp_right (List.mem_cons_of_mem _)

theorem mem_putAll {ms entries : Members α} {e : String × α} (h : e ∈ putAll ms entries) :
    e ∈ entries ∨ e ∈ ms := by
  induction entries generalizing ms with
  | nil => exact .inr h
  | cons x entries ih =>
    rcases ih h with h | h
    · exact .inl (List.mem_cons_of_mem x h)
    · refine (mem_put h).imp_left fun h => ?_
      rw [h]
      exact List.mem_cons_self

theorem nodup_put {name : String} {a : α} {ms : Members α} (h : (ms.map Prod.fst).Nodup) :
    ((put name a ms).map Prod.fst).Nodup := by
  induction ms with
  | nil => exact List.nodup_cons.mpr ⟨List.not_mem_nil, List.nodup_nil⟩
  | cons m rest ih =>
    obtain ⟨k, x⟩ := m
    obtain ⟨hk, hrest⟩ := List.nodup_cons.mp h
    rw [put]
    split
    · exact h
    · rename_i hname
      refine List.nodup_cons.mpr ⟨fun hmem => ?_, ih hrest⟩
      obtain ⟨e, he, hek⟩ := List.mem_map.mp hmem
      rcases mem_put he with rfl | he
      · exact hname hek.symm
      · exact hk (hek ▸ List.mem_map_of_mem he)

theorem get?_put (name : String) (a : α) (ms : Members α) (other : String) :
    get? other (put name a ms) = if other = name then some a else get? other ms := by
  induction ms with
  | nil => simp only [put, get?, eq_comm]
  | cons m rest ih =>
    obtain ⟨k, x⟩ := m
    rw [put]
    split
    · rename_i hk
      rw [get?, hk]
      split
      · rename_i hother
        rw [if_pos hother.symm]
      · rename_i hother
        rw [if_neg (Ne.symm hother), get?, if_neg hother]
    · rename_i hk
      rw [get?, get?, ih]
      split
      · rename_i hother
        rw [if_neg (hother ▸ hk)]
      · rfl

/-! ## Replacing -/

theorem update_get? {name : String} {ms : Members α} {x : α}
    (h : get? name ms = some x) : update name (fun _ => x) ms = ms := by
  induction ms with
  | nil => rfl
  | cons m rest ih =>
    obtain ⟨k, y⟩ := m
    rw [get?] at h
    rw [update]
    split at h
    · cases h
      rw [if_pos ‹k = name›]
    · rw [if_neg ‹¬ k = name›, ih h]

theorem mem_update {name : String} {y : α} {ms : Members α} {m : String × α}
    (h : m ∈ update name (fun _ => y) ms) : m ∈ ms ∨ m = (name, y) := by
  induction ms with
  | nil => exact absurd h List.not_mem_nil
  | cons first rest ih =>
    obtain ⟨k, x⟩ := first
    rw [update] at h
    split at h
    · rename_i hk
      rcases List.mem_cons.mp h with rfl | h
      · exact .inr (by rw [hk])
      · exact .inl (List.mem_cons_of_mem _ h)
    · rcases List.mem_cons.mp h with rfl | h
      · exact .inl List.mem_cons_self
      · exact (ih h).imp_left (List.mem_cons_of_mem _)

end Members

end Typeforge
