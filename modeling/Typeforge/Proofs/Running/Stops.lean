/-
# `Typeforge.Proofs.Running.Stops` — what changes can be stopped by

A whole is changed by changing its parts, and what stops the change of a part stops
the change of the whole.  So whatever is true of everything that can stop the
changes of the parts is true of what can stop the change of the whole.
-/
import Typeforge.Proofs.Types.Altered

namespace Typeforge

namespace Changed

/-- Changes made to the end, or stopped by a halt of a kind. -/
def StopsAs (P : Halt → Prop) (c : Changed) : Prop := ∀ h, c.stop = some h → P h

variable {P : Halt → Prop} {c : Changed} {f : Value → Changed}

theorem StopsAs.done (v : Value) : (done v).StopsAs P := nofun

theorem StopsAs.stopped {v : Value} {h : Halt} (hp : P h) : (⟨v, some h⟩ : Changed).StopsAs P := by
  rintro _ ⟨⟩
  exact hp

theorem StopsAs.failed {v : Value} {e : RunError} (h : P (.failed e)) : (failed v e).StopsAs P :=
  .stopped h

theorem StopsAs.andThen (h : c.StopsAs P) (hf : ∀ v, (f v).StopsAs P) : (c.andThen f).StopsAs P := by
  obtain ⟨value, stop⟩ := c
  cases stop with
  | none => exact hf value
  | some halt => exact h

theorem StopsAs.inTurn {steps : List (Value → Changed)} (h : ∀ f ∈ steps, ∀ v, (f v).StopsAs P)
    (v : Value) : (inTurn steps v).StopsAs P := by
  induction steps generalizing v with
  | nil => exact .done v
  | cons f rest ih =>
    obtain ⟨hf, hrest⟩ := List.forall_mem_cons.mp h
    exact (hf v).andThen (ih hrest)

end Changed

/-- A codec that cannot decode says what it was met with. -/
theorem Codec.exists_decode_of_error {codec : Codec} {v : Value} {e : RunError}
    (h : codec.decode v = .error e) : ∃ expected found, e = .decode expected found := by
  unfold decode at h
  split at h
  · cases h
  · cases h
  · split at h <;> cases h
    exact ⟨_, _, rfl⟩
  · cases h
    exact ⟨_, _, rfl⟩

namespace Value

variable {P : Halt → Prop} {f : Value → Changed}

theorem stopsAs_changeItems (h : ∀ v, (f v).StopsAs P) (items : List Value) :
    ∀ halt, (changeItems f items).2 = some halt → P halt := by
  induction items with
  | nil => exact nofun
  | cons v rest ih =>
    intro halt hstop
    have hv := h v
    unfold changeItems at hstop
    split at hstop
    · rename_i w halt' hfv
      rw [hfv] at hv
      exact hv halt hstop
    · exact ih halt hstop

theorem stopsAs_changeMembers (chosen : String → Bool) (h : ∀ v, (f v).StopsAs P)
    (members : List (String × Value)) :
    ∀ halt, (changeMembers chosen f members).2 = some halt → P halt := by
  induction members with
  | nil => exact nofun
  | cons m rest ih =>
    obtain ⟨k, v⟩ := m
    intro halt hstop
    have hv := h v
    unfold changeMembers at hstop
    split at hstop
    · split at hstop
      · rename_i w halt' hfv
        rw [hfv] at hv
        exact hv halt hstop
      · exact ih halt hstop
    · exact ih halt hstop

theorem stopsAs_changeFrom (start : Nat) (h : ∀ v, (f v).StopsAs P) (v : Value) :
    (v.changeFrom start f).StopsAs P := by
  cases v with
  | array items => exact stopsAs_changeItems h (items.drop start)
  | _ => exact .done _

theorem stopsAs_changeCovered (covers : String → Bool) (h : ∀ v, (f v).StopsAs P) (v : Value) :
    (v.changeCovered covers f).StopsAs P := by
  cases v with
  | object members => exact stopsAs_changeMembers covers h members
  | _ => exact .done _

theorem stopsAs_changePart (access : Access) (h : ∀ v, (f v).StopsAs P) (v : Value) :
    (v.changePart access f).StopsAs P := by
  unfold changePart
  split
  · split
    · exact fun halt hstop => h _ halt hstop
    · exact .done _
  · split
    · exact fun halt hstop => h _ halt hstop
    · exact .done _
  · exact .done _

theorem stopsAs_changePresent (access : Access) (optional : Bool) (h : ∀ v, (f v).StopsAs P)
    (v : Value) : (v.changePresent access optional f).StopsAs P := by
  refine stopsAs_changePart access (fun w => ?_) v
  split
  · exact .done w
  · exact h w

end Value

end Typeforge
