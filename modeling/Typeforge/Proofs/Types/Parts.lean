/-
# `Typeforge.Proofs.Types.Parts` — a whole is changed part by part

An object is its members, found by names; an array is its elements, found by
numbers.  Encoding and decoding change a whole in several steps, one for each
property or fixed position and one for all parts besides, but no two steps touch
the same part.  So the order of the steps does not matter: unless a step fails,
every part becomes what its own change makes of it.
-/
import Typeforge.Proofs.Running.Transforms

namespace Typeforge

/-- Values made of parts that are found by keys, and the keys that such a value may have. -/
structure Whole (κ : Type) where
  make : List (κ × Value) → Value
  fits : List κ → Prop

namespace Whole

/-- Objects, whose members have different names. -/
def members : Whole String := ⟨.object, List.Nodup⟩

/-- Arrays, whose elements are numbered. -/
def elements : Whole Nat := ⟨fun parts => .array (parts.map Prod.snd), fun keys =>
  keys = List.range keys.length⟩

variable {κ : Type} {w : Whole κ} {K K' : κ → Bool} {g : κ → Value → Changed}
  {step step' : Value → Changed}

/-- A part, changed if its key is among the given ones. -/
def changed (K : κ → Bool) (g : κ → Value → Changed) (part : κ × Value) : κ × Value :=
  (part.1, if K part.1 then (g part.1 part.2).value else part.2)

theorem map_fst_changed (parts : List (κ × Value)) :
    (parts.map (changed K g)).map Prod.fst = parts.map Prod.fst := by
  rw [List.map_map]
  rfl

/-- What a step does to a whole that changes the parts with certain keys, each by its own change:
it changes all of them, or it stops as one of these changes does. -/
def Outcome (w : Whole κ) (K : κ → Bool) (g : κ → Value → Changed) (step : Value → Changed)
    (parts : List (κ × Value)) : Prop :=
  (∃ part ∈ parts, K part.1 = true ∧ ∃ h, (g part.1 part.2).stop = some h ∧
    (step (w.make parts)).stop = some h) ∨
  ((∀ part ∈ parts, K part.1 = true → (g part.1 part.2).stop = none) ∧
    step (w.make parts) = .done (w.make (parts.map (changed K g))))

/-- A step changes the parts with certain keys. -/
def Settles (w : Whole κ) (K : κ → Bool) (g : κ → Value → Changed) (step : Value → Changed) : Prop :=
  ∀ parts, w.fits (parts.map Prod.fst) → w.Outcome K g step parts

/-- A step changes the parts with certain keys, or it is cut off. -/
def Handles (w : Whole κ) (K : κ → Bool) (g : κ → Value → Changed) (step : Value → Changed) : Prop :=
  ∀ parts, w.fits (parts.map Prod.fst) →
    (step (w.make parts)).stop = some .cutOff ∨ w.Outcome K g step parts

theorem Settles.handles (h : w.Settles K g step) : w.Handles K g step :=
  fun parts hfits => .inr (h parts hfits)

namespace Handles

theorem cutOff (h : ∀ v, (step v).stop = some .cutOff) : w.Handles K g step :=
  fun _ _ => .inl (h _)

/-- Nothing is done, or nothing comes of it. -/
theorem done (h : ∀ k v, K k = true → g k v = .done v) : w.Handles K g Changed.done := by
  intro parts _
  refine .inr (.inr ⟨fun part _ hk => by rw [h _ _ hk]; rfl, ?_⟩)
  have hsame : parts.map (changed K g) = parts := by
    refine (List.map_congr_left fun part _ => ?_).trans (List.map_id parts)
    unfold changed
    split
    · rename_i hk
      rw [h _ _ hk]
      rfl
    · rfl
  rw [hsame]

/-- One step after the other, on different parts. -/
theorem andThen (h : w.Handles K g step) (h' : w.Handles K' g step')
    (disjoint : ∀ k, K k = true → K' k = false) :
    w.Handles (fun k => K k || K' k) g fun v => (step v).andThen step' := by
  intro parts hfits
  dsimp only [Outcome]
  have stays {halt : Halt} (hstop : (step (w.make parts)).stop = some halt) :
      ((step (w.make parts)).andThen step').stop = some halt := by
    rw [Changed.andThen, hstop]
    exact hstop
  have untouched (part : κ × Value) (hk : K' part.1 = true) : changed K g part = part := by
    have hnot : K part.1 = false := Bool.eq_false_iff.mpr fun hk' => by
      rw [disjoint _ hk'] at hk
      cases hk
    rw [changed, hnot, if_neg Bool.false_ne_true]
  rcases h parts hfits with hcut | ⟨part, hpart, hk, halt, hg, hstop⟩ | ⟨hdone, heq⟩
  · exact .inl (stays hcut)
  · exact .inr (.inl ⟨part, hpart, Bool.or_eq_true_iff.mpr (.inl hk), halt, hg, stays hstop⟩)
  have hfits' : w.fits ((parts.map (changed K g)).map Prod.fst) := by
    rw [map_fst_changed]
    exact hfits
  have hrest : (step (w.make parts)).andThen step' = step' (w.make (parts.map (changed K g))) := by
    rw [heq]
    rfl
  rw [hrest]
  rcases h' _ hfits' with hcut | ⟨part', hpart', hk, halt, hg, hstop⟩ | ⟨hdone', heq'⟩
  · exact .inl hcut
  · obtain ⟨part, hpart, rfl⟩ := List.mem_map.mp hpart'
    rw [untouched part hk] at hg
    exact .inr (.inl ⟨part, hpart, Bool.or_eq_true_iff.mpr (.inr hk), halt, hg, hstop⟩)
  · refine .inr (.inr ⟨fun part hpart hk => ?_, ?_⟩)
    · rcases Bool.or_eq_true_iff.mp hk with hk | hk
      · exact hdone part hpart hk
      · have := hdone' (changed K g part) (List.mem_map_of_mem hpart) hk
        rwa [untouched part hk] at this
    · rw [heq', List.map_map]
      congr 2
      refine List.map_congr_left fun part _ => ?_
      cases hk' : K' part.1 with
      | true =>
        rw [Function.comp_apply, untouched _ hk', changed, changed, hk', Bool.or_true]
      | false =>
        have hkeep : changed K' g (changed K g part) = changed K g part := by
          conv_lhs => rw [changed]
          rw [show K' (changed K g part).1 = false from hk', if_neg Bool.false_ne_true]
        rw [Function.comp_apply, hkeep, changed, changed, hk', Bool.or_false]

/-- Steps on different parts, one after the other. -/
theorem inTurn {ι : Type} {l : List ι} {f : ι → Value → Changed} {p : ι → κ → Bool}
    (h : ∀ x ∈ l, w.Handles (p x) g (f x))
    (disjoint : l.Pairwise fun x y => ∀ k, p x k = true → p y k = false) :
    w.Handles (fun k => l.any fun x => p x k) g (Changed.inTurn (l.map f)) := by
  induction l with
  | nil => exact done fun _ _ hk => nomatch hk
  | cons x l ih =>
    obtain ⟨hx, hl⟩ := List.pairwise_cons.mp disjoint
    have hfirst := h x List.mem_cons_self
    have hrest := ih (fun y hy => h y (List.mem_cons_of_mem _ hy)) hl
    refine hfirst.andThen hrest fun k hk => ?_
    exact List.any_eq_false.mpr fun y hy hk' => by
      rw [hx y hy k hk] at hk'
      cases hk'

/-- Parts without a change of their own count as changed. -/
theorem all (h : w.Handles K g step) (rest : ∀ k v, K k = false → g k v = .done v) :
    w.Handles (fun _ => true) g step := by
  intro parts hfits
  rcases h parts hfits with hcut | ⟨part, hpart, -, hstop⟩ | ⟨hdone, heq⟩
  · exact .inl hcut
  · exact .inr (.inl ⟨part, hpart, rfl, hstop⟩)
  · refine .inr (.inr ⟨fun part hpart _ => ?_, ?_⟩)
    · cases hk : K part.1 with
      | true => exact hdone part hpart hk
      | false => rw [rest _ _ hk]; rfl
    · rw [heq]
      congr 2
      refine List.map_congr_left fun part _ => ?_
      cases hk : K part.1 with
      | true => rw [changed, changed, hk]
      | false => rw [changed, changed, hk, if_neg Bool.false_ne_true, if_pos rfl, rest _ _ hk]; rfl

end Handles

end Whole

/-! ## The steps of objects -/

namespace Members

variable {α : Type}

/-- Where names are different, updating one touches its entry only. -/
theorem update_eq_map {name : String} {f : α → α} {ms : Members α} (h : (ms.map Prod.fst).Nodup) :
    update name f ms = ms.map fun m => (m.1, if m.1 == name then f m.2 else m.2) := by
  induction ms with
  | nil => rfl
  | cons m rest ih =>
    obtain ⟨k, x⟩ := m
    obtain ⟨hk, hrest⟩ := List.nodup_cons.mp h
    rw [update, List.map_cons]
    split
    · rename_i heq
      have hsame : rest = rest.map fun m => (m.1, if m.1 == name then f m.2 else m.2) := by
        refine ((List.map_id rest).symm).trans (List.map_congr_left fun m hm => ?_)
        have hne : (m.1 == name) = false := beq_eq_false_iff_ne.mpr fun hmk =>
          hk (List.mem_map.mpr ⟨m, hm, hmk.trans heq.symm⟩)
        rw [hne, if_neg Bool.false_ne_true]
        rfl
      rw [← hsame, heq, beq_self_eq_true, if_pos rfl]
    · rename_i hne
      rw [ih hrest, beq_eq_false_iff_ne.mpr hne, if_neg Bool.false_ne_true]

end Members

namespace Whole.Settles

variable {g : String → Value → Changed} {f : Value → Changed}

theorem member {name : String} (h : ∀ v, g name v = f v) :
    members.Settles (· == name) g (Value.changePart (.member name) f) := by
  intro parts hfits
  simp only [Outcome, members, Value.changePart]
  cases hget : Members.get? name parts with
  | none =>
    have hnot := Members.get?_eq_none hget
    have hkey {part : String × Value} (hpart : part ∈ parts) : (part.1 == name) = false :=
      beq_eq_false_iff_ne.mpr fun heq => hnot (List.mem_map.mpr ⟨part, hpart, heq⟩)
    refine .inr ⟨fun part hpart hk => ?_, ?_⟩
    · rw [hkey hpart] at hk
      cases hk
    · have hsame : parts.map (changed (· == name) g) = parts := by
        refine (List.map_congr_left fun part hpart => ?_).trans (List.map_id parts)
        rw [changed, hkey hpart, if_neg Bool.false_ne_true]
        rfl
      rw [hsame]
  | some v =>
    have hmem := Members.mem_of_get? hget
    cases hstop : (f v).stop with
    | some halt =>
      exact .inl ⟨_, hmem, beq_self_eq_true name, halt, by rw [h, hstop], rfl⟩
    | none =>
      have hv {part : String × Value} (hpart : part ∈ parts) (hk : (part.1 == name) = true) :
          part.2 = v := by
        obtain ⟨k, x⟩ := part
        obtain rfl : k = name := eq_of_beq hk
        exact congrArg Prod.snd (List.inj_on_of_nodup_map hfits hpart hmem rfl)
      refine .inr ⟨fun part hpart hk => ?_, ?_⟩
      · rw [eq_of_beq hk, h, hv hpart hk, hstop]
      · dsimp only
        rw [Members.update_eq_map hfits, hstop, Changed.done]
        congr 2
        refine List.map_congr_left fun part hpart => ?_
        cases hk : part.1 == name with
        | false => rw [changed, hk, if_neg Bool.false_ne_true, if_neg Bool.false_ne_true]
        | true => rw [changed, hk, if_pos rfl, if_pos rfl, eq_of_beq hk, h, hv hpart hk]

/-- What becomes of the members with certain names. -/
theorem changeMembers_cases (covers : String → Bool) (f : Value → Changed)
    (parts : List (String × Value)) :
    (∃ part ∈ parts, covers part.1 = true ∧ ∃ h, (f part.2).stop = some h ∧
      (Value.changeMembers covers f parts).2 = some h) ∨
    ((∀ part ∈ parts, covers part.1 = true → (f part.2).stop = none) ∧
      Value.changeMembers covers f parts = (parts.map (changed covers fun _ => f), none)) := by
  induction parts with
  | nil => exact .inr ⟨fun _ h => absurd h List.not_mem_nil, rfl⟩
  | cons part rest ih =>
    obtain ⟨k, v⟩ := part
    rw [Value.changeMembers, List.map_cons, changed]
    have later : (∃ part ∈ rest, covers part.1 = true ∧ ∃ h, (f part.2).stop = some h ∧
        (Value.changeMembers covers f rest).2 = some h) →
        ∃ part ∈ (k, v) :: rest, covers part.1 = true ∧ ∃ h, (f part.2).stop = some h ∧
          (Value.changeMembers covers f rest).2 = some h := by
      rintro ⟨part, hpart, hstop⟩
      exact ⟨part, List.mem_cons_of_mem _ hpart, hstop⟩
    cases hk : covers k with
    | false =>
      rw [if_neg Bool.false_ne_true]
      rcases ih with hstop | ⟨hdone, heq⟩
      · exact .inl (later hstop)
      · refine .inr ⟨List.forall_mem_cons.mpr ⟨fun h => ?_, hdone⟩, ?_⟩
        · rw [hk] at h
          cases h
        · rw [heq]
          rfl
    | true =>
      rw [if_pos rfl]
      cases hf : f v with
      | mk x stop =>
        cases stop with
        | some h => exact .inl ⟨_, List.mem_cons_self, hk, h, by rw [hf], rfl⟩
        | none =>
          rcases ih with hstop | ⟨hdone, heq⟩
          · exact .inl (later hstop)
          · refine .inr ⟨List.forall_mem_cons.mpr ⟨fun _ => by rw [hf], hdone⟩, ?_⟩
            rw [heq, if_pos rfl]

theorem covered {p : String → Bool} (h : ∀ k v, p k = true → g k v = f v) :
    members.Settles p g (Value.changeCovered p f) := by
  intro parts _
  simp only [Outcome, members, Value.changeCovered]
  rcases changeMembers_cases p f parts with
    ⟨part, hpart, hk, halt, hf, hstop⟩ | ⟨hdone, heq⟩
  · exact .inl ⟨part, hpart, hk, halt, by rw [h _ _ hk, hf], hstop⟩
  · refine .inr ⟨fun part hpart hk => by rw [h _ _ hk, hdone part hpart hk], ?_⟩
    rw [heq, Changed.done]
    congr 2
    refine List.map_congr_left fun part _ => ?_
    cases hk : p part.1 with
    | false => rw [changed, changed, hk, if_neg Bool.false_ne_true, if_neg Bool.false_ne_true]
    | true => rw [changed, changed, hk, if_pos rfl, if_pos rfl, h _ _ hk]

end Whole.Settles

/-! ## The steps of arrays -/

namespace Whole

/-- The numbered elements of an array. -/
def numbered (items : List Value) : List (Nat × Value) := items.zipIdx.map Prod.swap

theorem make_numbered (items : List Value) : elements.make (numbered items) = .array items := by
  simp only [elements, numbered, List.map_map]
  rw [show Prod.snd ∘ Prod.swap = (Prod.fst : Value × Nat → Value) from rfl, List.zipIdx_map_fst]

theorem fits_numbered (items : List Value) :
    elements.fits ((numbered items).map Prod.fst) := by
  simp only [elements, numbered, List.map_map, List.length_map, List.length_zipIdx]
  rw [show Prod.fst ∘ Prod.swap = (Prod.snd : Value × Nat → Nat) from rfl, List.zipIdx_map_snd,
    List.range_eq_range']

theorem make_map_numbered (g : Nat → Value → Value) (items : List Value) :
    elements.make ((numbered items).map fun part => (part.1, g part.1 part.2)) =
      .array (items.mapIdx g) := by
  simp only [elements, numbered, List.map_map, List.mapIdx_eq_zipIdx_map]
  rfl

/-- The elements whose keys fit are the numbered ones. -/
theorem eq_numbered {parts : List (Nat × Value)} (h : elements.fits (parts.map Prod.fst)) :
    parts = numbered (parts.map Prod.snd) := by
  refine List.ext_getElem (by simp [numbered]) fun i hi _ => ?_
  have hi' : i < (parts.map Prod.fst).length := by simpa using hi
  have hkey : (parts.map Prod.fst)[i] = i := by
    rw [List.getElem_of_eq h, List.getElem_range]
  rw [List.getElem_map] at hkey
  simp only [numbered, List.getElem_map, List.getElem_zipIdx, Prod.swap, Nat.zero_add]
  exact Prod.ext hkey rfl

theorem mem_numbered {items : List Value} {part : Nat × Value} :
    part ∈ numbered items ↔ items[part.1]? = some part.2 := by
  rw [numbered, List.mem_map]
  constructor
  · rintro ⟨x, hx, rfl⟩
    exact List.mem_zipIdx_iff_getElem?.mp hx
  · exact fun h => ⟨part.swap, List.mem_zipIdx_iff_getElem?.mpr h, Prod.swap_swap part⟩

end Whole

namespace Whole.Settles

variable {g : Nat → Value → Changed} {f : Value → Changed}

/-- A step that handles arrays as lists handles them by their numbers. -/
theorem of_items {K : Nat → Bool} {step : Value → Changed}
    (h : ∀ items : List Value,
      (∃ i v, items[i]? = some v ∧ K i = true ∧ ∃ halt, (g i v).stop = some halt ∧
        (step (.array items)).stop = some halt) ∨
      ((∀ i v, items[i]? = some v → K i = true → (g i v).stop = none) ∧
        step (.array items) =
          .done (.array (items.mapIdx fun i v => if K i then (g i v).value else v)))) :
    elements.Settles K g step := by
  intro parts hfits
  rw [eq_numbered hfits, Outcome, make_numbered]
  rcases h (parts.map Prod.snd) with ⟨i, v, hi, hk, halt, hg, hstop⟩ | ⟨hdone, heq⟩
  · exact .inl ⟨(i, v), mem_numbered.mpr hi, hk, halt, hg, hstop⟩
  · refine .inr ⟨fun part hpart hk => hdone _ _ (mem_numbered.mp hpart) hk, ?_⟩
    rw [heq, ← make_map_numbered]
    rfl

theorem element {i : Nat} (h : ∀ v, g i v = f v) :
    elements.Settles (· == i) g (Value.changePart (.element i) f) := by
  refine of_items fun items => ?_
  simp only [Value.changePart]
  cases hi : items[i]? with
  | none =>
    refine .inr ⟨fun j v hj hk => ?_, ?_⟩
    · rw [eq_of_beq hk, hi] at hj
      cases hj
    · dsimp only
      congr 2
      refine (List.ext_getElem? fun j => ?_).symm
      rw [List.getElem?_mapIdx]
      cases hj : items[j]? with
      | none => rfl
      | some v =>
        have hne : (j == i) = false := beq_eq_false_iff_ne.mpr fun hji => by
          rw [hji, hi] at hj
          cases hj
        rw [Option.map_some, hne, if_neg Bool.false_ne_true]
  | some v =>
    cases hstop : (f v).stop with
    | some halt =>
      exact .inl ⟨i, v, hi, beq_self_eq_true i, halt, by rw [h, hstop], rfl⟩
    | none =>
      refine .inr ⟨fun j w hj hk => ?_, ?_⟩
      · obtain rfl : j = i := eq_of_beq hk
        rw [hi] at hj
        cases hj
        rw [h, hstop]
      · dsimp only
        rw [hstop, Changed.done]
        congr 2
        refine List.ext_getElem? fun j => ?_
        rw [List.getElem?_mapIdx, List.getElem?_set]
        by_cases hji : i = j
        · subst hji
          obtain ⟨hlt, -⟩ := List.getElem?_eq_some_iff.mp hi
          rw [if_pos rfl, if_pos hlt, hi, Option.map_some, beq_self_eq_true, if_pos rfl, h]
        · have hne : (j == i) = false := beq_eq_false_iff_ne.mpr (Ne.symm hji)
          rw [if_neg hji, hne]
          cases items[j]? with
          | none => rfl
          | some w => rw [Option.map_some, if_neg Bool.false_ne_true]

/-- What becomes of items. -/
theorem changeItems_cases (f : Value → Changed) (items : List Value) :
    (∃ v ∈ items, ∃ h, (f v).stop = some h ∧ (Value.changeItems f items).2 = some h) ∨
    ((∀ v ∈ items, (f v).stop = none) ∧
      Value.changeItems f items = (items.map fun v => (f v).value, none)) := by
  induction items with
  | nil => exact .inr ⟨fun _ h => absurd h List.not_mem_nil, rfl⟩
  | cons v rest ih =>
    rw [Value.changeItems, List.map_cons]
    cases hf : f v with
    | mk x stop =>
      cases stop with
      | some h => exact .inl ⟨v, List.mem_cons_self, h, by rw [hf], rfl⟩
      | none =>
        rcases ih with ⟨w, hw, hstop⟩ | ⟨hdone, heq⟩
        · exact .inl ⟨w, List.mem_cons_of_mem _ hw, hstop⟩
        · refine .inr ⟨List.forall_mem_cons.mpr ⟨by rw [hf], hdone⟩, ?_⟩
          rw [heq]

theorem elementsFrom {s : Nat} (h : ∀ i v, s ≤ i → g i v = f v) :
    elements.Settles (decide <| s ≤ ·) g (Value.changeFrom s f) := by
  refine of_items fun items => ?_
  simp only [Value.changeFrom]
  rcases changeItems_cases f (items.drop s) with ⟨v, hv, halt, hf, hstop⟩ | ⟨hdone, heq⟩
  · obtain ⟨i, hi⟩ := List.mem_iff_getElem?.mp hv
    rw [List.getElem?_drop] at hi
    exact .inl ⟨s + i, v, hi, decide_eq_true (Nat.le_add_right ..), halt,
      by rw [h _ _ (Nat.le_add_right ..), hf], hstop⟩
  · refine .inr ⟨fun i v hi hk => ?_, ?_⟩
    · have hk := of_decide_eq_true hk
      rw [h _ _ hk]
      refine hdone v (List.mem_iff_getElem?.mpr ⟨i - s, ?_⟩)
      rw [List.getElem?_drop, Nat.add_sub_cancel' hk, hi]
    · rw [heq, Changed.done]
      congr 2
      refine List.ext_getElem? fun j => ?_
      rw [List.getElem?_mapIdx]
      by_cases hj : s ≤ j
      · have hlength : (items.take s).length ≤ j := (List.length_take_le _ _).trans hj
        rw [List.getElem?_append_right hlength, List.getElem?_map, List.getElem?_drop]
        by_cases hstart : s ≤ items.length
        · rw [List.length_take_of_le hstart, Nat.add_sub_cancel' hj]
          cases items[j]? with
          | none => rfl
          | some v => rw [Option.map_some, Option.map_some, decide_eq_true hj, if_pos rfl, h _ _ hj]
        · rw [List.getElem?_eq_none (by omega), List.getElem?_eq_none (by omega)]
          rfl
      · have hnot : decide (s ≤ j) = false := decide_eq_false hj
        simp only [hnot, Bool.false_eq_true, if_false, Option.map_id_fun']
        by_cases hlength : j < (items.take s).length
        · rw [List.getElem?_append_left hlength, List.getElem?_take_of_lt (not_le.mp hj)]
          rfl
        · rw [List.length_take] at hlength
          rw [List.drop_eq_nil_of_le (by omega), List.map_nil, List.append_nil,
            List.getElem?_take_of_lt (not_le.mp hj)]
          rfl

end Whole.Settles

namespace Whole.Handles

variable {f : Value → Changed}

theorem member {name : String} {g : String → Value → Changed} (h : ∀ v, g name v = f v) :
    members.Handles (· == name) g (Value.changePart (.member name) f) := (Settles.member h).handles

theorem covered {p : String → Bool} {g : String → Value → Changed}
    (h : ∀ k v, p k = true → g k v = f v) : members.Handles p g (Value.changeCovered p f) :=
  (Settles.covered h).handles

theorem element {i : Nat} {g : Nat → Value → Changed} (h : ∀ v, g i v = f v) :
    elements.Handles (· == i) g (Value.changePart (.element i) f) := (Settles.element h).handles

theorem elementsFrom {s : Nat} {g : Nat → Value → Changed} (h : ∀ i v, s ≤ i → g i v = f v) :
    elements.Handles (decide <| s ≤ ·) g (Value.changeFrom s f) := (Settles.elementsFrom h).handles

end Whole.Handles

end Typeforge
