/-
# `Typeforge.Proofs.Halting.Growth` — how deep values get while they are changed

Decoding makes no value deeper, as long as revivers do not: a tag is taken off, and
what was carried as a string is no array or object.  Encoding does, as every union
puts what it tags into an array.

If the names of an object's properties are different, neither matters, because a
member is changed once and not looked at again.  If a name is declared twice, the
second property is run on what the first one has made.  Even so a run ends.  Tags are
arrays, and objects are never put into objects by encoding: from one object to the
next inner one a value may get deeper and deeper, but there are no more objects inside
one another than there were.
-/
import Typeforge.Proofs.Halting.Transforms

namespace Typeforge

/-! ## What is left of a value when its parts are changed -/

namespace Value

/-- A value like another, but for parts that have become what they are related to. -/
inductive Reshaped (R : Value → Value → Prop) : Value → Value → Prop where
  | same (v : Value) : Reshaped R v v
  | array {items items' : List Value} (h : ∀ w' ∈ items', ∃ w ∈ items, w' = w ∨ R w w') :
      Reshaped R (.array items) (.array items')
  | object {members members' : List (String × Value)}
      (h : ∀ m' ∈ members', ∃ m ∈ members, m' = m ∨ R m.2 m'.2) :
      Reshaped R (.object members) (.object members')

variable {f : Value → Changed} {v v' : Value}

theorem exists_of_changeItems {items items' : List Value} (h : changeItems f items = (items', none)) :
    ∀ w' ∈ items', ∃ w ∈ items, f w = .done w' := by
  induction items generalizing items' with
  | nil =>
    cases h
    exact fun _ hw' => absurd hw' List.not_mem_nil
  | cons v rest ih =>
    rw [changeItems] at h
    split at h
    · cases h
    · rename_i w hw
      obtain ⟨rfl, hstop⟩ := Prod.mk.inj h
      refine List.forall_mem_cons.mpr ⟨⟨v, List.mem_cons_self, hw⟩, fun w' hw' => ?_⟩
      obtain ⟨u, hu, hdone⟩ := ih (Prod.ext rfl hstop) w' hw'
      exact ⟨u, List.mem_cons_of_mem _ hu, hdone⟩

theorem exists_of_changeMembers {chosen : String → Bool} {members members' : List (String × Value)}
    (h : changeMembers chosen f members = (members', none)) :
    ∀ m' ∈ members', ∃ m ∈ members, m' = m ∨ f m.2 = .done m'.2 := by
  induction members generalizing members' with
  | nil =>
    cases h
    exact fun _ hm' => absurd hm' List.not_mem_nil
  | cons m rest ih =>
    obtain ⟨k, v⟩ := m
    have more {rest' : List (String × Value)} (hrest : changeMembers chosen f rest = (rest', none))
        {m' : String × Value} (hm' : m' ∈ rest') :
        ∃ m ∈ (k, v) :: rest, m' = m ∨ f m.2 = .done m'.2 := by
      obtain ⟨m, hm, hdone⟩ := ih hrest m' hm'
      exact ⟨m, List.mem_cons_of_mem _ hm, hdone⟩
    rw [changeMembers] at h
    split at h
    · split at h
      · cases h
      · rename_i w hw
        obtain ⟨rfl, hstop⟩ := Prod.mk.inj h
        exact List.forall_mem_cons.mpr ⟨⟨(k, v), List.mem_cons_self, .inr hw⟩,
          fun m' hm' => more (Prod.ext rfl hstop) hm'⟩
    · obtain ⟨rfl, hstop⟩ := Prod.mk.inj h
      exact List.forall_mem_cons.mpr ⟨⟨(k, v), List.mem_cons_self, .inl rfl⟩,
        fun m' hm' => more (Prod.ext rfl hstop) hm'⟩

theorem reshaped_changeFrom {start : Nat} (h : v.changeFrom start f = .done v') :
    Reshaped (fun w w' => f w = .done w') v v' := by
  cases v with
  | array items =>
    obtain ⟨rfl, hstop⟩ := Changed.mk.inj h
    refine .array fun w' hw' => ?_
    rcases List.mem_append.mp hw' with hw' | hw'
    · exact ⟨w', List.mem_of_mem_take hw', .inl rfl⟩
    · obtain ⟨w, hw, hdone⟩ := exists_of_changeItems (Prod.ext rfl hstop) w' hw'
      exact ⟨w, List.mem_of_mem_drop hw, .inr hdone⟩
  | _ =>
    cases h
    exact .same _

theorem reshaped_changeCovered {covers : String → Bool} (h : v.changeCovered covers f = .done v') :
    Reshaped (fun w w' => f w = .done w') v v' := by
  cases v with
  | object members =>
    obtain ⟨rfl, hstop⟩ := Changed.mk.inj h
    exact .object (exists_of_changeMembers (Prod.ext rfl hstop))
  | _ =>
    cases h
    exact .same _

theorem reshaped_changePart {access : Access} (h : v.changePart access f = .done v') :
    Reshaped (fun w w' => f w = .done w') v v' := by
  cases access with
  | member name =>
    rcases eq_of_changePart_member h with rfl | ⟨members, w, w', rfl, hget, hw, rfl⟩
    · exact .same _
    · refine .object fun m' hm' => ?_
      rcases Members.mem_update hm' with hm' | rfl
      · exact ⟨m', hm', .inl rfl⟩
      · exact ⟨(name, w), Members.mem_of_get? hget, .inr hw⟩
  | element i =>
    rcases eq_of_changePart_element h with rfl | ⟨items, w, w', rfl, hget, hw, rfl⟩
    · exact .same _
    · refine .array fun u hu => ?_
      rcases List.mem_or_eq_of_mem_set hu with hu | rfl
      · exact ⟨u, hu, .inl rfl⟩
      · exact ⟨w, List.mem_of_getElem? hget, .inr hw⟩

/-! ## Depth -/

theorem depth_array_le {items : List Value} {d : Nat} (h : ∀ w ∈ items, w.depth ≤ d) :
    (array items).depth ≤ d + 1 := by
  refine Nat.succ_le_succ ?_
  induction items with
  | nil => exact Nat.zero_le d
  | cons w rest ih =>
    obtain ⟨hw, hrest⟩ := List.forall_mem_cons.mp h
    exact Nat.max_le.mpr ⟨hw, ih hrest⟩

theorem depth_object_le {members : List (String × Value)} {d : Nat}
    (h : ∀ m ∈ members, m.2.depth ≤ d) : (object members).depth ≤ d + 1 := by
  refine Nat.succ_le_succ ?_
  induction members with
  | nil => exact Nat.zero_le d
  | cons m rest ih =>
    obtain ⟨k, w⟩ := m
    obtain ⟨hw, hrest⟩ := List.forall_mem_cons.mp h
    exact Nat.max_le.mpr ⟨hw, ih hrest⟩

theorem depth_item_lt {items : List Value} {w : Value} (hw : w ∈ items) :
    w.depth < (array items).depth := Nat.lt_succ_of_le (depth_le_of_mem_items hw)

theorem depth_member_lt {members : List (String × Value)} {m : String × Value} (hm : m ∈ members) :
    m.2.depth < (object members).depth :=
  Nat.lt_succ_of_le (depth_le_of_mem_members (k := m.1) (v := m.2) hm)

theorem Reshaped.depth_le {R : Value → Value → Prop} (h : Reshaped R v v')
    (hR : ∀ w w', R w w' → w'.depth ≤ w.depth) : v'.depth ≤ v.depth := by
  cases h with
  | same => exact le_rfl
  | @array items _ h =>
    refine depth_array_le (d := itemsDepth items) fun w' hw' => ?_
    obtain ⟨w, hw, rfl | hchanged⟩ := h w' hw'
    · exact depth_le_of_mem_items hw
    · exact (hR w w' hchanged).trans (depth_le_of_mem_items hw)
  | @object members _ h =>
    refine depth_object_le (d := membersDepth members) fun m' hm' => ?_
    obtain ⟨m, hm, rfl | hchanged⟩ := h m' hm'
    · exact depth_le_of_mem_members hm
    · exact (hR m.2 m'.2 hchanged).trans (depth_le_of_mem_members (k := m.1) hm)

end Value

/-! ## Decoding -/

/-- Changes that make nothing deeper. -/
def Changed.Flat (f : Value → Changed) : Prop := ∀ v v', f v = .done v' → v'.depth ≤ v.depth

theorem Changed.flat_done : Changed.Flat Changed.done := by
  rintro v _ ⟨⟩
  exact le_rfl

theorem Changed.flat_inTurn {fs : List (Value → Changed)} (h : ∀ f ∈ fs, Changed.Flat f) :
    Changed.Flat (Changed.inTurn fs) := by
  induction fs with
  | nil => exact Changed.flat_done
  | cons f fs ih =>
    obtain ⟨hf, hfs⟩ := List.forall_mem_cons.mp h
    intro v v' hv
    obtain ⟨w, hfirst, hrest⟩ := andThen_eq_done hv
    exact (ih hfs w v' hrest).trans (hf v w hfirst)

/-- Revivers that make nothing deeper. -/
def Revivers.Flat (revivers : Revivers) : Prop :=
  ∀ name reviver, Members.get? name revivers = some reviver → ∀ v, (reviver v).depth ≤ v.depth

theorem Codec.depth_ofText? {codec : Codec} {s : String} {w : Value} (h : codec.ofText? s = some w) :
    w.depth = 0 := by
  cases codec with
  | undefined =>
    obtain rfl := Option.some.inj h
    rfl
  | _ =>
    obtain ⟨x, -, rfl⟩ := Option.map_eq_some_iff.mp h
    rfl

theorem Codec.depth_decode {codec : Codec} {v w : Value} (h : codec.decode v = .ok w) :
    w.depth ≤ v.depth := by
  unfold Codec.decode at h
  split at h
  · cases h
    exact Nat.zero_le _
  · cases h
    exact le_rfl
  · split at h
    · rename_i htext
      cases h
      exact (depth_ofText? htext).le
    · cases h
  · cases h

namespace TypeTree

variable {revivers : Revivers} {f : TypeTree → Value → Changed}

theorem flat_carry (codec : Codec) : Changed.Flat (Way.decode.carry codec) := by
  intro v v' h
  rw [Way.carry] at h
  split at h
  · rename_i hdecode
    cases h
    exact Codec.depth_decode hdecode
  · cases h

theorem flat_restore (slot : Slot) (i : Nat) : ∀ g ∈ Way.decode.restore slot i, Changed.Flat g := by
  intro g hg
  obtain ⟨optional, _ | _⟩ := slot
  · exact absurd hg List.not_mem_nil
  · obtain rfl := List.mem_singleton.mp hg
    refine fun v v' h => (Value.reshaped_changePart h).depth_le fun w w' hw => ?_
    obtain rfl := (Changed.mk.inj hw).1
    split
    · exact Nat.zero_le _
    · exact le_rfl

theorem flat_revive (flat : revivers.Flat) (className : Option String) :
    ∀ g ∈ Way.decode.revive revivers className, Changed.Flat g := by
  intro g hg
  cases className with
  | none => exact absurd hg List.not_mem_nil
  | some name =>
    obtain rfl := List.mem_singleton.mp hg
    intro v v' h
    split at h
    · rename_i reviver hget
      cases h
      exact flat name reviver hget v
    · cases h

theorem flat_untagged (hf : ∀ t, Changed.Flat (f t)) (members : List TypeTree) :
    Changed.Flat (untagged f members) := by
  intro v v' h
  unfold untagged at h
  split at h
  · rename_i n inner
    split at h
    · cases h
    · split at h
      · cases h
      · split at h
        · rename_i hdone
          cases h
          refine (hf _ _ _ hdone).trans (Nat.le_of_lt (Value.depth_item_lt ?_))
          exact List.mem_cons_of_mem _ (List.mem_singleton_self _)
        · cases h
  · cases h

theorem flat_changePresent (hf : ∀ t, Changed.Flat (f t)) (access : Access) (optional : Bool)
    (t : TypeTree) : Changed.Flat (Value.changePresent access optional (f t)) := by
  refine fun v v' h => (Value.reshaped_changePart h).depth_le fun w w' hw => ?_
  split at hw
  · cases hw
    exact le_rfl
  · exact hf t w w' hw

theorem flat_steps (flat : revivers.Flat) (hf : ∀ t, Changed.Flat (f t)) (t : TypeTree) :
    ∀ g ∈ t.steps .decode revivers f, Changed.Flat g := by
  have cut : ∀ g ∈ [fun v => (⟨v, some .cutOff⟩ : Changed)], Changed.Flat g := by
    refine List.forall_mem_singleton.mpr ?_
    rintro v _ ⟨⟩
  unfold steps
  split
  · exact cut
  · exact cut
  · exact cut
  · split
    · exact cut
    · intro g hg
      obtain ⟨codec, -, rfl⟩ := List.mem_map.mp hg
      exact flat_carry codec
  · refine List.forall_mem_singleton.mpr fun v v' h => ?_
    exact (Value.reshaped_changeFrom h).depth_le (hf _)
  · exact List.forall_mem_singleton.mpr (flat_changePresent hf _ _ _)
  · intro g hg
    rcases List.mem_append.mp hg with hg | hg
    · rcases List.mem_append.mp hg with hg | hg
      · obtain ⟨p, -, rfl⟩ := List.mem_map.mp hg
        exact hf _
      · unfold indexSteps at hg
        split at hg
        · obtain rfl := List.mem_singleton.mp hg
          exact fun v v' h => (Value.reshaped_changeCovered h).depth_le (hf _)
        · exact absurd hg List.not_mem_nil
    · exact flat_revive flat _ g hg
  · intro g hg
    rcases List.mem_append.mp hg with hg | hg
    · obtain ⟨p, -, hg⟩ := List.mem_flatMap.mp hg
      rcases List.mem_append.mp hg with hg | hg
      · exact flat_restore _ _ g hg
      · obtain rfl := List.mem_singleton.mp hg
        exact flat_changePresent hf _ _ _
    · split at hg
      · obtain rfl := List.mem_singleton.mp hg
        exact fun v v' h => (Value.reshaped_changeFrom h).depth_le (hf _)
      · exact absurd hg List.not_mem_nil
  · exact List.forall_mem_singleton.mpr (flat_untagged hf _)

/-- **Decoding makes nothing deeper**, if revivers do not. -/
theorem flat_alter (flat : revivers.Flat) (n : Nat) (t : TypeTree) :
    Changed.Flat (alter .decode revivers n t) := by
  induction n generalizing t with
  | zero =>
    rintro v _ ⟨⟩
  | succ n ih =>
    by_cases hneeds : t.Needs .decode
    · intro v v' h
      rw [alter_of_needs hneeds] at h
      exact Changed.flat_inTurn (flat_steps flat ih t) v v' h
    · intro v v' h
      rw [alter_of_not_needs hneeds] at h
      exact Changed.flat_done v v' h

end TypeTree

/-! ## Members that get no deeper -/

namespace Arena

variable {a : Arena}

/-- The properties of every object have different names. -/
def NamesDiffer (a : Arena) : Prop :=
  ∀ id props index className, (a.node id).shape = .object props index className →
    (Compile.declaredNames (a.properties props)).Nodup

/-- Where names are different, a member that has been changed is not changed again. -/
theorem NamesDiffer.paced (differ : a.NamesDiffer) (way : Way) (revivers : Revivers) :
    a.Paced way revivers Value.depth where
  undefined_lt _ := Nat.succ_pos _
  item_lt _ _ := Value.depth_item_lt
  member_lt _ _ := Value.depth_member_lt
  course id props index className hshape members := by
    let declared := Compile.declaredNames (a.properties props)
    refine ⟨fun names key v => key ∈ names ∨ key ∉ declared → v.depth < (Value.object members).depth,
      { next := ?_, reach := ?_, changed := ?_, rest := ?_ },
      fun m hm _ => Value.depth_member_lt hm⟩
    · exact fun name names key v h hkey => h (hkey.imp_left (List.mem_cons_of_mem _))
    · exact fun name names v h => h (.inl List.mem_cons_self)
    · intro name names suffix v _ n child v' _ hname
      have hnodup := (differ id props index className hshape).sublist suffix.sublist
      rcases hname with hname | hname
      · exact absurd hname (List.nodup_cons.mp hnodup).1
      · exact absurd (suffix.subset List.mem_cons_self) hname
    · exact fun key v h hkey => h (.inr hkey)

/-- Decoding leaves members as small as they were. -/
theorem paced_decode {revivers : Revivers} (flat : revivers.Flat) :
    a.Paced .decode revivers Value.depth where
  undefined_lt _ := Nat.succ_pos _
  item_lt _ _ := Value.depth_item_lt
  member_lt _ _ := Value.depth_member_lt
  course id props index className hshape members := by
    refine ⟨fun names key v => v.depth < (Value.object members).depth,
      { next := fun _ _ _ _ h => h, reach := fun _ _ _ h => h, changed := ?_,
        rest := fun _ _ h _ => h },
      fun m hm => Value.depth_member_lt hm⟩
    exact fun _ _ _ v hv n id v' h => (TypeTree.flat_alter flat n _ v v' h).trans_lt hv

end Arena

end Typeforge
