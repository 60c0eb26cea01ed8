/-
# `Typeforge.Proofs.Halting.Transforms` — encoding and decoding guarded types comes to an end

An encoder or decoder changes a value while it goes through it, so that what it
comes to need not be a part of the value it was run on.  Nearly always it is: an
element of an array and a member of an object are changed once, by what there is for
them, and then are left alone.  Only where an object declares a name twice is a
member changed again, and whatever the first change has made of it.

So the size of values by which a run goes down is left open here, and so is the way
in which sizes develop while an object is gone through.  All that counts is that a
member is smaller than the object was, whenever its turn comes.
-/
import Typeforge.Proofs.Halting.Reports
import Typeforge.Proofs.Running.Transforms

namespace Typeforge

/-! ## Changes that come to an end -/

namespace Changed

/-- Changes that come to an end, or fail for a reason of their own. -/
def Halts (c : Changed) : Prop := c.stop ≠ some .cutOff

variable {c : Changed} {f : Value → Changed}

theorem Halts.done (v : Value) : (done v).Halts := by
  rintro ⟨⟩

theorem Halts.failed (v : Value) (e : RunError) : (failed v e).Halts := by
  rintro ⟨⟩

theorem Halts.andThen (h : c.Halts) (hf : ∀ v, c = .done v → (f v).Halts) :
    (c.andThen f).Halts := by
  obtain ⟨v, _ | halt⟩ := c
  · exact hf v rfl
  · exact h

theorem andThen_eq_done {v : Value} (h : c.andThen f = .done v) :
    ∃ w, c = .done w ∧ f w = .done v := by
  obtain ⟨w, _ | halt⟩ := c
  · exact ⟨w, rfl, h⟩
  · cases h

end Changed

namespace Value

variable {f : Value → Changed} {v : Value}

theorem halts_changeItems {items : List Value} (h : ∀ w ∈ items, (f w).Halts) :
    (changeItems f items).2 ≠ some .cutOff := by
  induction items with
  | nil => rintro ⟨⟩
  | cons w rest ih =>
    obtain ⟨hw, hrest⟩ := List.forall_mem_cons.mp h
    rw [changeItems]
    split
    · rename_i hf
      rw [hf] at hw
      exact hw
    · exact ih hrest

theorem halts_changeMembers {chosen : String → Bool} {members : List (String × Value)}
    (h : ∀ m ∈ members, chosen m.1 = true → (f m.2).Halts) :
    (changeMembers chosen f members).2 ≠ some .cutOff := by
  induction members with
  | nil => rintro ⟨⟩
  | cons m rest ih =>
    obtain ⟨k, w⟩ := m
    obtain ⟨hm, hrest⟩ := List.forall_mem_cons.mp h
    rw [changeMembers]
    split
    · rename_i hk
      have hw := hm hk
      split
      · rename_i hf
        rw [hf] at hw
        exact hw
      · exact ih hrest
    · exact ih hrest

/-- A part that a value has. -/
inductive Part : Access → Value → Value → Prop where
  | member {name : String} {members : List (String × Value)} {w : Value}
      (h : Members.get? name members = some w) : Part (.member name) (.object members) w
  | element {i : Nat} {items : List Value} {w : Value} (h : items[i]? = some w) :
      Part (.element i) (.array items) w

theorem halts_changePart {access : Access} (h : ∀ w, Part access v w → (f w).Halts) :
    (v.changePart access f).Halts := by
  unfold changePart
  split
  · split
    · rename_i hget
      exact h _ (.member hget)
    · exact .done _
  · split
    · rename_i hget
      exact h _ (.element hget)
    · exact .done _
  · exact .done _

/-- What changing a member leaves of an object. -/
theorem eq_of_changePart_member {name : String} {v' : Value}
    (h : v.changePart (.member name) f = .done v') : v' = v ∨ ∃ members w w',
      v = .object members ∧ Members.get? name members = some w ∧ f w = .done w' ∧
        v' = .object (Members.update name (fun _ => w') members) := by
  unfold changePart at h
  split at h
  · rename_i key members haccess
    obtain rfl := Access.member.inj haccess
    split at h
    · rename_i w hget
      obtain ⟨hvalue, hstop⟩ := Changed.mk.inj h
      refine .inr ⟨members, w, (f w).value, rfl, hget, ?_, hvalue.symm⟩
      rw [Changed.done, ← hstop]
    · exact .inl (Changed.mk.inj h).1.symm
  · rename_i haccess
    cases haccess
  · exact .inl (Changed.mk.inj h).1.symm

/-- What changing an element leaves of an array. -/
theorem eq_of_changePart_element {i : Nat} {v' : Value}
    (h : v.changePart (.element i) f = .done v') : v' = v ∨ ∃ items w w',
      v = .array items ∧ items[i]? = some w ∧ f w = .done w' ∧ v' = .array (items.set i w') := by
  unfold changePart at h
  split at h
  · rename_i haccess
    cases haccess
  · rename_i key items haccess
    obtain rfl := Access.element.inj haccess
    split at h
    · rename_i w hget
      obtain ⟨hvalue, hstop⟩ := Changed.mk.inj h
      refine .inr ⟨items, w, (f w).value, rfl, hget, ?_, hvalue.symm⟩
      rw [Changed.done, ← hstop]
    · exact .inl (Changed.mk.inj h).1.symm
  · exact .inl (Changed.mk.inj h).1.symm

end Value

theorem Value.depth_le_levels (v : Value) : v.depth ≤ v.levels := by
  cases v with
  | undefined => exact le_rfl
  | _ => exact Nat.le_succ _

/-! ## Sizes -/

/-- What the code of a type may be run on: what is below, and for a property any object of which
its part is smaller. -/
inductive TypeTree.Touches (size : Value → Nat) (m k : Nat) (t : TypeTree) (v : Value) : Prop where
  | below (h : t.Below size m k v)
  | property {name : String} {optional : Bool} (label : t.label = some (.property name optional))
      (part : ∀ w, Value.Part (.member name) v w → size w < m)

namespace Arena

variable (a : Arena) (way : Way) (revivers : Revivers)

/-- What may be members of an object while its properties are changed one after the other: `fine
names key v` says that the member of a key may be a value when the properties of these names are
still to come. -/
structure Course (size : Value → Nat) (bound : Nat) (declared : List String)
    (fine : List String → String → Value → Prop) : Prop where
  next : ∀ name names key v, fine (name :: names) key v → fine names key v
  /-- What is to be changed is small. -/
  reach : ∀ name names v, fine (name :: names) name v → size v < bound
  changed : ∀ name names, name :: names <:+ declared → ∀ v, fine (name :: names) name v →
    ∀ n id v', TypeTree.alter way revivers n (a.unfolding id) v = .done v' → fine names name v'
  /-- What no property is for is small to the end. -/
  rest : ∀ key v, fine [] key v → key ∉ declared → size v < bound

/-- Sizes by which parts are smaller, and stay so while a value is changed. -/
structure Paced (size : Value → Nat) : Prop where
  undefined_lt : ∀ items, size .undefined < size (.array items)
  item_lt : ∀ items, ∀ v ∈ items, size v < size (.array items)
  member_lt : ∀ members, ∀ m ∈ members, size m.2 < size (.object members)
  course : ∀ id props index className, (a.node id).shape = .object props index className →
    ∀ members, ∃ fine, a.Course way revivers size (size (.object members))
        (Compile.declaredNames (a.properties props)) fine ∧
      ∀ m ∈ members, fine (Compile.declaredNames (a.properties props)) m.1 m.2

variable {a way revivers} {size : Value → Nat}

theorem Paced.part_lt (paced : a.Paced way revivers size) {access : Access} {v w : Value}
    (h : Value.Part access v w) : size w < size v := by
  cases h with
  | member h => exact paced.member_lt _ _ (Members.mem_of_get? h)
  | element h => exact paced.item_lt _ _ (List.mem_of_getElem? h)

/-- What becomes of an object on the way of one of its properties. -/
theorem alter_property {id child : NodeId} {name : String} {n : Nat} {v v' : Value}
    (h : (a.node id).shape = .property name child)
    (halter : TypeTree.alter way revivers n (a.unfolding id) v = .done v') :
    v' = v ∨ ∃ members w w' k, k < n ∧ v = .object members ∧
      Members.get? name members = some w ∧
      TypeTree.alter way revivers k (a.unfolding child) w = .done w' ∧
      v' = .object (Members.update name (fun _ => w') members) := by
  cases n with
  | zero => cases halter
  | succ n =>
    by_cases hneeds : (a.unfolding id).Needs way
    · rw [TypeTree.alter_of_needs hneeds, steps_property h, Changed.inTurn_singleton] at halter
      rcases Value.eq_of_changePart_member halter with rfl | ⟨members, w, w', rfl, hget, hw, rfl⟩
      · exact .inl rfl
      · split at hw
        · obtain rfl := (Changed.mk.inj hw).1
          rw [Members.update_get? hget]
          exact .inl rfl
        · exact .inr ⟨members, w, w', n, Nat.lt_succ_self n, rfl, hget, hw, rfl⟩
    · rw [TypeTree.alter_of_not_needs hneeds] at halter
      exact .inl (Changed.mk.inj halter).1.symm

/-- Where there are no members there is nothing to say. -/
theorem Course.none (a : Arena) (way : Way) (revivers : Revivers) (size : Value → Nat) (bound : Nat)
    (declared : List String) : a.Course way revivers size bound declared fun _ _ _ => False where
  next _ _ _ _ := id
  reach _ _ _ := False.elim
  changed _ _ _ _ h := h.elim
  rest _ _ h := h.elim

/-- The course of an object goes on when a property has been changed. -/
theorem Course.property {bound : Nat} {declared names : List String} {name : String}
    {fine : List String → String → Value → Prop}
    (course : a.Course way revivers size bound declared fine) (suffix : name :: names <:+ declared)
    {id child : NodeId} (h : (a.node id).shape = .property name child) {n : Nat} {v v' : Value}
    (halter : TypeTree.alter way revivers n (a.unfolding id) v = .done v')
    (hv : ∀ members, v = .object members → ∀ m ∈ members, fine (name :: names) m.1 m.2) :
    ∀ members, v' = .object members → ∀ m ∈ members, fine names m.1 m.2 := by
  rintro members rfl m hm
  rcases alter_property h halter with rfl | ⟨before, w, w', k, -, rfl, hget, hw, heq⟩
  · exact course.next _ _ _ _ (hv members rfl m hm)
  · rw [Value.object.inj heq] at hm
    rcases Members.mem_update hm with hm | rfl
    · exact course.next _ _ _ _ (hv before rfl m hm)
    · exact course.changed name names suffix w (hv before rfl _ (Members.mem_of_get? hget)) k child
        w' hw

end Arena

namespace Transform

variable {x : Context} {body others : List Transform} {v : Value}

/-! ## Statements -/

theorem halts_singleton {t : Transform} (h : (t.run x v).Halts) : (runAll x [t] v).Halts := by
  rw [runAll_singleton]
  exact h

theorem halts_append (h : (runAll x body v).Halts)
    (hothers : ∀ w, runAll x body v = .done w → (runAll x others w).Halts) :
    (runAll x (body ++ others) v).Halts := by
  rw [runAll_append]
  exact h.andThen hothers

theorem halts_unlessEmpty {wrap : List Transform → Transform} (h : ((wrap body).run x v).Halts) :
    (runAll x (Compile.unlessEmpty body wrap) v).Halts := by
  unfold Compile.unlessEmpty
  split
  · exact .done v
  · exact halts_singleton h

theorem halts_part {access : Access} (optional : Bool)
    (h : ∀ w, Value.Part access v w → (runAll x body w).Halts) :
    ((part access optional body).run x v).Halts := by
  rw [run]
  refine Value.halts_changePart fun w hw => ?_
  split
  · exact .done w
  · exact h w hw

theorem halts_each (start : Nat)
    (h : ∀ items, v = .array items → ∀ w ∈ items.drop start, (runAll x body w).Halts) :
    ((each start body).run x v).Halts := by
  rw [run]
  cases v with
  | array items => exact Value.halts_changeItems (h items rfl)
  | _ => exact .done _

theorem halts_eachKey (filter : KeyFilter) (skip : List String)
    (h : ∀ members, v = .object members → ∀ m ∈ members, m.1 ∉ skip → (runAll x body m.2).Halts) :
    ((eachKey filter skip body).run x v).Halts := by
  rw [run]
  cases v with
  | object members =>
    refine Value.halts_changeMembers fun m hm hcovered => h members rfl m hm fun hskip => ?_
    rw [KeyFilter.covers, List.contains_iff_mem.mpr hskip, Bool.not_true, Bool.and_false]
      at hcovered
    cases hcovered
  | _ => exact .done _

theorem halts_revive (className : Option String) (v : Value) :
    (runAll x (className.toList.map .revive) v).Halts := by
  cases className with
  | none => exact .done v
  | some name =>
    refine halts_singleton ?_
    rw [run]
    split
    · exact .done _
    · exact .failed _ _

theorem halts_codec (make : Codec → Transform) (codec : Option Codec)
    (h : ∀ codec, ((make codec).run x v).Halts) : (runAll x (codec.toList.map make) v).Halts := by
  cases codec with
  | none => exact .done v
  | some codec => exact halts_singleton (h codec)

theorem halts_decode (codec : Codec) (v : Value) : ((decode codec).run x v).Halts := by
  rw [run]
  split
  · exact .done _
  · exact .failed _ _

theorem halts_tagged {arms : List (Check × List Transform)}
    (h : ∀ arm ∈ arms, x.check arm.1 v ≠ none ∧ (runAll x arm.2 v).Halts) (union : String)
    (i : Nat) : (runTagged x union i arms v).Halts := by
  induction arms generalizing i with
  | nil => exact .failed _ _
  | cons arm rest ih =>
    obtain ⟨⟨hcheck, hbody⟩, hrest⟩ := List.forall_mem_cons.mp h
    obtain ⟨passed, hpassed⟩ := Option.ne_none_iff_exists'.mp hcheck
    rw [runTagged, hpassed]
    cases passed with
    | true => exact hbody.andThen fun w _ => .done _
    | false => exact ih hrest (i + 1)

theorem halts_arm {arms : List (List Transform)} (h : ∀ body ∈ arms, (runAll x body v).Halts)
    {i : Nat} {c : Changed} (hrun : runArm x i arms v = some c) : c.Halts := by
  induction arms generalizing i with
  | nil => cases i <;> cases hrun
  | cons body rest ih =>
    obtain ⟨hbody, hrest⟩ := List.forall_mem_cons.mp h
    cases i with
    | zero =>
      obtain rfl := Option.some.inj hrun
      exact hbody
    | succ i => exact ih hrest hrun

theorem halts_untag {arms : List (List Transform)}
    (h : ∀ n inner, v = .array [.number n, inner] → ∀ body ∈ arms, (runAll x body inner).Halts) :
    ((untag arms).run x v).Halts := by
  by_cases hv : ∃ n inner, v = .array [.number n, inner]
  · obtain ⟨n, inner, rfl⟩ := hv
    rw [run]
    split
    · exact .failed _ _
    · split
      · exact .failed _ _
      · exact .done _
      · rename_i hrun
        have hc := halts_arm (h n inner rfl) hrun
        exact hc
  · rw [run]
    · exact .failed _ _
    · exact fun n inner heq => hv ⟨n, inner, heq⟩

/-! ## Nodes -/

section Nodes

variable {a : Arena} {way : Way} {size : Value → Nat} {child : NodeId → List Transform → Prop}
  {id : NodeId} {m k : Nat}

/-- The code of children comes to an end on what it may be run on. -/
abbrev ChildrenHalt (x : Context) (a : Arena) (size : Value → Nat) (m k : Nat)
    (child : NodeId → List Transform → Prop) : Prop :=
  ∀ id body, child id body → ∀ w, (a.unfolding id).Touches size m k w → (runAll x body w).Halts

/-- What the code of children comes to is what becomes of a value by their types. -/
abbrev ChildrenAlter (x : Context) (way : Way) (a : Arena)
    (child : NodeId → List Transform → Prop) : Prop :=
  ∀ id body, child id body → ∀ v v', runAll x body v = .done v' →
    ∃ n, TypeTree.alter way x.revivers n (a.unfolding id) v = .done v'

/-- The changes of an object's properties come to an end, and so does what follows if it does on
what has come of the object. -/
theorem halts_declared (hchild : ChildrenHalt x a size m k child)
    (halter : ChildrenAlter x way a child) {all : List String} {bound : Nat}
    {fine : List String → String → Value → Prop}
    (course : a.Course way x.revivers size bound all fine) (hbound : bound ≤ m)
    {props : List NodeId} {ps : List Arena.Property} (hps : ps ⊆ a.properties props)
    (suffix : Compile.declaredNames ps <:+ all) {declared : List (List Transform)}
    (hdeclared : List.Forall₂ (fun p body => child p.id body) ps declared)
    (hv : ∀ members, v = .object members → ∀ m ∈ members,
      fine (Compile.declaredNames ps) m.1 m.2)
    (hothers : ∀ w, (∀ members, w = .object members → ∀ m ∈ members, fine [] m.1 m.2) →
      (runAll x others w).Halts) :
    (runAll x (declared.flatten ++ others) v).Halts := by
  induction hdeclared generalizing v with
  | nil => exact hothers v hv
  | @cons p body ps rest hbody _ ih =>
    obtain ⟨hp, hps⟩ := List.cons_subset.mp hps
    obtain ⟨-, -, part, hshape⟩ := Arena.shape_of_mem_properties hp
    rw [List.flatten_cons, List.append_assoc]
    refine halts_append (hchild _ _ hbody v ?_) fun w hw => ?_
    · refine .property (Arena.label_of_mem_properties hp) fun w hw => ?_
      cases hw with
      | member hget =>
        exact (course.reach _ _ _ (hv _ rfl _ (Members.mem_of_get? hget))).trans_le hbound
    · obtain ⟨n, hn⟩ := halter _ _ hbody v w hw
      exact ih hps ((List.suffix_cons _ _).trans suffix) (course.property suffix hshape hn hv)

theorem halts_object (paced : a.Paced way x.revivers size)
    (hchild : ChildrenHalt x a size m k child) (halter : ChildrenAlter x way a child)
    (hsize : size v ≤ m) {props : List NodeId} {index : Option NodeId} {className : Option String}
    (h : (a.node id).shape = .object props index className)
    (hbody : Compile.ObjectTransform a child props index body) : (runAll x body v).Halts := by
  have main {bound : Nat} {fine : List String → String → Value → Prop}
      (course : a.Course way x.revivers size bound
        (Compile.declaredNames (a.properties props)) fine) (hbound : bound ≤ m)
      (hv : ∀ members, v = .object members → ∀ m ∈ members,
        fine (Compile.declaredNames (a.properties props)) m.1 m.2) : (runAll x body v).Halts := by
    cases hbody with
    | mk hdeclared hothers =>
      refine halts_declared hchild halter course hbound (List.Subset.refl _) List.suffix_rfl
        hdeclared hv fun w hw => ?_
      cases hothers with
      | absent => exact .done w
      | present _ hbody =>
        refine halts_unlessEmpty (halts_eachKey _ _ fun ms hms entry hentry hkey => ?_)
        refine hchild _ _ hbody _ (.below (.inl ?_))
        exact (course.rest _ _ (hw ms hms entry hentry) hkey).trans_le hbound
  cases v with
  | object members =>
    obtain ⟨fine, course, hfine⟩ := paced.course id props index className h members
    refine main course hsize ?_
    rintro _ ⟨⟩
    exact hfine
  | _ =>
    refine main (Arena.Course.none a way x.revivers size m _) le_rfl ?_
    rintro _ ⟨⟩

/-- An array whose elements from an index on are smaller than a bound, as what is not there. -/
def Fits (size : Value → Nat) (bound i : Nat) (v : Value) : Prop :=
  ∀ items, v = .array items → size .undefined < bound ∧
    ∀ j w, i ≤ j → items[j]? = some w → size w < bound

theorem Fits.next {bound i : Nat} (h : Fits size bound i v) : Fits size bound (i + 1) v :=
  fun items hitems => ⟨(h items hitems).1, fun j w hj => (h items hitems).2 j w (by omega)⟩

theorem Fits.change {bound i : Nat} (h : Fits size bound i v) {f : Value → Changed} {v' : Value}
    (hv : v.changePart (.element i) f = .done v') : Fits size bound (i + 1) v' := by
  rcases Value.eq_of_changePart_element hv with rfl | ⟨items, w, w', rfl, -, -, rfl⟩
  · exact h.next
  · rintro _ ⟨⟩
    obtain ⟨hundefined, hitems⟩ := h items rfl
    refine ⟨hundefined, fun j u hj hu => hitems j u (by omega) ?_⟩
    rwa [List.getElem?_set_ne (by omega)] at hu

/-- An element that was left out is restored as what is not there. -/
theorem Fits.restore {bound i : Nat} (h : Fits size bound i v) {v' : Value}
    (hv : runAll x [.absent (.element i)] v = .done v') : Fits size bound i v' := by
  rw [runAll_singleton, run] at hv
  rcases Value.eq_of_changePart_element hv with rfl | ⟨items, w, w', rfl, hget, hw, rfl⟩
  · exact h
  · rintro _ ⟨⟩
    obtain ⟨hundefined, hitems⟩ := h items rfl
    refine ⟨hundefined, fun j u hj hu => ?_⟩
    obtain rfl := (Changed.mk.inj hw).1
    rw [List.getElem?_set] at hu
    split at hu
    · split at hu
      · obtain rfl := Option.some.inj hu
        split
        · exact hundefined
        · exact hitems i w le_rfl hget
      · cases hu
    · exact hitems j u hj hu

theorem exists_changePart {access : Access} {optional : Bool} {v' : Value}
    (h : runAll x (Compile.unlessEmpty body (.part access optional)) v = .done v') :
    v' = v ∨ ∃ f, v.changePart access f = .done v' := by
  unfold Compile.unlessEmpty at h
  split at h
  · exact .inl (Changed.mk.inj h).1.symm
  · rw [runAll_singleton, run] at h
    exact .inr ⟨_, h⟩

/-- What is done first in the fixed positions of a tuple comes to an end, and leaves the elements
small. -/
abbrev Prepares (x : Context) (size : Value → Nat) (before : NodeId → Nat → List Transform) : Prop :=
  ∀ id i v, (runAll x (before id i) v).Halts ∧
    ∀ v', runAll x (before id i) v = .done v' → ∀ bound, Fits size bound i v → Fits size bound i v'

theorem halts_elements (hchild : ChildrenHalt x a size m k child)
    {before : NodeId → Nat → List Transform} (hbefore : Prepares x size before)
    {fixed : List NodeId} {i : Nat} {elements : List (List Transform)}
    (helements : List.Forall₂ (fun y out => ∃ body, child y.1 body ∧
        out = before y.1 y.2 ++
          Compile.unlessEmpty body (.part (.element y.2) (a.node y.1).optional))
      (fixed.zipIdx i) elements)
    (hv : Fits size m i v)
    (hothers : ∀ w, Fits size m (i + fixed.length) w → (runAll x others w).Halts) :
    (runAll x (elements.flatten ++ others) v).Halts := by
  induction fixed generalizing i v elements with
  | nil =>
    cases helements
    exact hothers v hv
  | cons id fixed ih =>
    rw [List.zipIdx_cons] at helements
    cases helements with
    | cons hout helements =>
      obtain ⟨body, hbody, rfl⟩ := hout
      rw [List.flatten_cons, List.append_assoc, List.append_assoc]
      obtain ⟨hhalts, hfits⟩ := hbefore id i v
      refine halts_append hhalts fun w hw => ?_
      have hwfits := hfits w hw m hv
      refine halts_append (halts_unlessEmpty (halts_part _ fun part hpart => ?_)) fun u hu => ?_
      · refine hchild _ _ hbody part (.below (.inl ?_))
        cases hpart with
        | element hget => exact (hwfits _ rfl).2 i part le_rfl hget
      · refine ih helements ?_ fun w hw => hothers w ?_
        · rcases exists_changePart hu with rfl | ⟨f, hf⟩
          · exact hwfits.next
          · exact hwfits.change hf
        · rwa [List.length_cons, Nat.add_comm fixed.length, ← Nat.add_assoc]

theorem halts_tuple (paced : a.Paced way x.revivers size)
    (hchild : ChildrenHalt x a size m k child) (hsize : size v ≤ m)
    {before : NodeId → Nat → List Transform} (hbefore : Prepares x size before)
    {members : List NodeId} (hbody : Compile.TupleTransform a before child members body) :
    (runAll x body v).Halts := by
  have hfits : Fits size m 0 v := by
    rintro items rfl
    refine ⟨(paced.undefined_lt items).trans_le hsize, fun j w _ hget => ?_⟩
    exact (paced.item_lt items w (List.mem_of_getElem? hget)).trans_le hsize
  cases hbody with
  | @mk fixed _ _ _ _ helements hothers =>
    refine halts_elements hchild hbefore helements hfits fun w hw => ?_
    rw [Nat.zero_add] at hw
    cases hothers with
    | absent => exact .done w
    | present _ hbody =>
      refine halts_unlessEmpty (halts_each _ fun items hitems u hu => ?_)
      obtain ⟨j, hj⟩ := List.mem_iff_getElem?.mp hu
      rw [List.getElem?_drop] at hj
      exact hchild _ _ hbody u (.below (.inl ((hw items hitems).2 _ u (Nat.le_add_right _ _) hj)))

theorem halts_array (paced : a.Paced way x.revivers size)
    (hchild : ChildrenHalt x a size m k child) (hsize : size v ≤ m) {item : NodeId}
    (hbody : child item body) : (runAll x (Compile.unlessEmpty body (.each 0)) v).Halts := by
  refine halts_unlessEmpty (halts_each 0 ?_)
  rintro items rfl w hw
  exact hchild _ _ hbody w (.below (.inl ((paced.item_lt items w hw).trans_le hsize)))

theorem prepares_nil : Prepares x size fun _ _ => [] := by
  refine fun _ _ v => ⟨.done v, ?_⟩
  rintro _ ⟨⟩ _ h
  exact h

theorem prepares_absence : Prepares x size (Compile.absence a) := by
  intro id i v
  unfold Compile.absence
  split
  · refine ⟨halts_singleton ?_, fun v' hv' bound h => h.restore hv'⟩
    rw [run]
    exact Value.halts_changePart fun w _ => .done _
  · exact prepares_nil id i v

/-- A part that is smaller is all that the code of a property comes to. -/
theorem halts_property (hchild : ChildrenHalt x a size m k child) {name : String} {part : NodeId}
    {optional : Bool} (hbody : child part body)
    (hv : ∀ w, Value.Part (.member name) v w → size w < m) :
    (runAll x (Compile.unlessEmpty body (.part (.member name) optional)) v).Halts :=
  halts_unlessEmpty (halts_part optional fun w hw => hchild _ _ hbody w (.below (.inl (hv w hw))))

theorem halts_encodeNode (shallow : a.Shallow) (paced : a.Paced .encode x.revivers size)
    {check : NodeId → Check → Prop} (hcheck : ∀ id c, check id c → ∀ v, x.check c v ≠ none)
    (hchild : ChildrenHalt x a size m k child) (halter : ChildrenAlter x .encode a child)
    (hself : (a.node id).standsFor? = none) (hsize : size v ≤ m)
    (hrank : (a.unfolding id).rank ≤ k)
    (h : Compile.EncodeNode a check child (a.node id) body) : (runAll x body v).Halts := by
  cases h with
  | atom => exact halts_codec .encode _ fun codec => .done _
  | array _ hbody => exact halts_array paced hchild hsize hbody
  | property _ hbody =>
    exact halts_property hchild hbody fun w hw => (paced.part_lt hw).trans_le hsize
  | standsFor h => cases hself.symm.trans h
  | object h hbody => exact halts_object paced hchild halter hsize h hbody
  | tuple _ hbody => exact halts_tuple paced hchild hsize prepares_nil hbody
  | union h harms =>
    refine halts_singleton (halts_tagged (fun arm harm => ?_) _ 0)
    obtain ⟨member, hmember, hc, hbody⟩ := exists_of_forall₂_right harms harm
    refine ⟨hcheck _ _ hc v, hchild _ _ hbody v (.below (.inr ⟨hsize, ?_⟩))⟩
    exact Nat.lt_of_lt_of_le (shallow.member_lt h hmember) hrank

theorem halts_decodeNode (paced : a.Paced .decode x.revivers size)
    (hchild : ChildrenHalt x a size m k child) (halter : ChildrenAlter x .decode a child)
    (hself : (a.node id).standsFor? = none) (hsize : size v ≤ m)
    (h : Compile.DecodeNode a child (a.node id) body) : (runAll x body v).Halts := by
  cases h with
  | atom => exact halts_codec .decode _ fun codec => halts_decode codec v
  | array _ hbody => exact halts_array paced hchild hsize hbody
  | property _ hbody =>
    exact halts_property hchild hbody fun w hw => (paced.part_lt hw).trans_le hsize
  | standsFor h => cases hself.symm.trans h
  | object h hbody =>
    exact halts_append (halts_object paced hchild halter hsize h hbody) fun w _ => halts_revive _ w
  | tuple _ hbody => exact halts_tuple paced hchild hsize prepares_absence hbody
  | union _ harms =>
    refine halts_singleton (halts_untag ?_)
    rintro n inner rfl body hbody
    obtain ⟨member, -, hmember⟩ := exists_of_forall₂_right harms hbody
    refine hchild _ _ hmember inner (.below (.inl ?_))
    exact (paced.item_lt _ _ (List.mem_cons_of_mem _ (List.mem_singleton_self _))).trans_le hsize

end Nodes

/-! ## Code -/

section Calls

variable {a : Arena} {way : Way} {size : Value → Nat} {known : Keys} {id : NodeId} {m k depth : Nat}

/-- Calls of known encoders or decoders come to an end below a size and a rank. -/
abbrev CallsHalt (call : String → Value → Changed) (way : Way) (a : Arena) (known : Keys)
    (size : Value → Nat) (m k : Nat) : Prop :=
  ∀ id, (a.node id).hasBody = true → known ⟨(a.node id).identity, way.target⟩ → ∀ w,
    (a.unfolding id).Below size m k w → (call (a.node id).identity w).Halts

/-- What code of visits rests on to come to an end: what code comes to is what its types do, and
where it tests values, as encoders do, the tests have answers. -/
structure Steady (x : Context) (way : Way) (a : Arena) (known : Keys) (size : Value → Nat) :
    Prop where
  shallow : way = .encode → a.Shallow
  paced : a.Paced way x.revivers size
  check : way = .encode → ∀ depth id c, Compile.CheckAt a known depth id c → ∀ v, x.check c v ≠ none
  alter : ∀ depth, ChildrenAlter x way a (way.CodeAt a known depth)

theorem Steady.halts_node (steady : Steady x way a known size)
    (hchild : ChildrenHalt x a size m k (way.CodeAt a known depth))
    (hself : (a.node id).standsFor? = none) (hsize : size v ≤ m) (hrank : (a.unfolding id).rank ≤ k)
    (h : way.CodeNode a known depth (a.node id) body) : (runAll x body v).Halts := by
  cases way with
  | encode =>
    exact halts_encodeNode (steady.shallow rfl) steady.paced (steady.check rfl depth) hchild
      (steady.alter depth) hself hsize hrank h
  | decode => exact halts_decodeNode steady.paced hchild (steady.alter depth) hself hsize h

theorem halts_propertyNode (hchild : ChildrenHalt x a size m k (way.CodeAt a known depth))
    {name : String} {part : NodeId} (hshape : (a.node id).shape = .property name part)
    (h : way.CodeNode a known depth (a.node id) body)
    (hv : ∀ w, Value.Part (.member name) v w → size w < m) : (runAll x body v).Halts := by
  cases way with
  | encode =>
    cases h with
    | property h hbody =>
      obtain ⟨rfl, rfl⟩ := Shape.property.inj (hshape.symm.trans h)
      exact halts_property hchild hbody hv
    | standsFor hself => simp only [Node.standsFor?, hshape, reduceCtorEq] at hself
    | atom h | array h | object h | tuple h | union h => cases hshape.symm.trans h
  | decode =>
    cases h with
    | property h hbody =>
      obtain ⟨rfl, rfl⟩ := Shape.property.inj (hshape.symm.trans h)
      exact halts_property hchild hbody hv
    | standsFor hself => simp only [Node.standsFor?, hshape, reduceCtorEq] at hself
    | atom h | array h | object h | tuple h | union h => cases hshape.symm.trans h

theorem Steady.halts_at (steady : Steady x way a known size)
    (hcall : CallsHalt x.call way a known size m k) (h : way.CodeAt a known depth id body)
    (hv : (a.unfolding id).Touches size m k v) : (runAll x body v).Halts := by
  induction depth using Nat.strong_induction_on generalizing m k id body v with
  | _ depth ih =>
    cases h.visited with
    | plain hplain =>
      obtain ⟨-, rfl⟩ := Way.plain?_eq_some hplain
      exact .done v
    | called _ hknown own =>
      have hcode : way.language.call (a.node id).identity [] = [.call (a.node id).identity] := by
        cases way <;> rfl
      rw [hcode]
      refine halts_singleton ?_
      cases hv with
      | below h =>
        refine hcall id own ?_ v h
        cases way <;> exact hknown
      | property label => exact absurd label (Arena.label_of_hasBody own _ _)
    | inPlace _ hbody =>
      obtain ⟨below, rfl, hnode⟩ := hbody
      cases hself : (a.node id).standsFor? with
      | some child =>
        rw [Arena.unfolding_of_standsFor hself] at hv
        exact ih below (Nat.lt_succ_self _) hcall (hnode.of_standsFor hself) hv
      | none =>
        cases hv with
        | below hv =>
          refine steady.halts_node (fun _ _ hbody w hw => ?_) hself le_rfl le_rfl hnode
          refine ih below (Nat.lt_succ_self _) ?_ hbody hw
          exact fun callee own hknown w hw => hcall callee own hknown w (hv.trans hw)
        | property label part =>
          obtain ⟨child, hshape⟩ := Arena.shape_of_label_property hself label
          exact halts_propertyNode
            (fun _ _ hbody w hw => ih below (Nat.lt_succ_self _) hcall hbody hw) hshape hnode part

/-- What the code of visits comes to is what becomes of a value by their types. -/
theorem alter_of_done {n : Nat} (marked : a.Marked) (hcheck : ChecksJudge x a known)
    (hcall : CallsDo x way a known n) (depth : Nat) :
    ChildrenAlter x way a (way.CodeAt a known depth) := by
  intro id body hbody v v' hv
  refine ⟨n + depth + 1, ?_⟩
  rcases within_at marked hcheck hcall hbody (Nat.lt_succ_self _) v with hcut | heq
  · rw [hv] at hcut
    cases hcut
  · rw [← heq, hv]
    rfl

end Calls

end Transform

/-! ## Programs -/

namespace Program

variable {a : Arena} {r : Registry} {limit : Nat} {way : Way} {size : Value → Nat}
  (revivers : Revivers) (shallow : way = .encode → a.Shallow) (faithful : a.Faithful)
  (marked : a.Marked) (grounded : r.Grounded a limit) (paced : a.Paced way revivers size)

include shallow faithful marked grounded paced

theorem steady (steps : Nat) :
    Transform.Steady ⟨(Program.mk r.functions revivers).check, revivers,
      (Program.mk r.functions revivers).transformCall way.target steps⟩ way a
      (r.contains · = true) size where
  shallow := shallow
  paced := paced
  check encodes _ _ _ hc v := check_ne_none revivers (shallow encodes) faithful grounded hc v
  alter := by
    have filled := grounded.compiled.filledFrom faithful
    refine Transform.alter_of_done marked
      (fun _ _ _ hc v b => judges_of_check revivers filled rfl hc v b)
      (n := steps * (limit + 2)) fun id hknown m hm v => ?_
    exact within_transformCall revivers filled (fun _ hb => hb ▸ marked) rfl steps
      (Registry.contains_iff.mp hknown) hm v

/-- A registered encoder or decoder comes to an end if the calls below it do. -/
theorem halts_transformCall_succ {id : NodeId}
    (hkey : ⟨(a.node id).identity, way.target⟩ ∈ r.keys) {v : Value} {steps : Nat}
    (hcall : Transform.CallsHalt ((Program.mk r.functions revivers).transformCall way.target steps)
      way a (r.contains · = true) size (size v) (a.unfolding id).rank) :
    ((Program.mk r.functions revivers).transformCall way.target (steps + 1) (a.node id).identity
      v).Halts := by
  have steady := steady revivers shallow faithful marked grounded paced steps
  obtain ⟨f, hf, hbody, node, hself, hof, htree⟩ :=
    exists_grounded revivers faithful grounded hkey
  have main {body : List Transform} {depth : Nat} (h : way.CodeNode a (r.contains · = true) depth
      (a.node node) body) (hsame : (a.node node).identity = (a.node id).identity) :
      (Transform.runAll ⟨(Program.mk r.functions revivers).check, revivers,
        (Program.mk r.functions revivers).transformCall way.target steps⟩ body v).Halts := by
    rw [← htree hsame] at hcall
    exact steady.halts_node (fun _ _ hbody w hw => steady.halts_at hcall hbody hw) hself le_rfl
      le_rfl h
  rw [transformCall, hbody]
  cases way with
  | encode =>
    cases hof with
    | jsonEncode _ h =>
      cases h with
      | plain hplain =>
        obtain ⟨-, rfl⟩ := Way.plain?_eq_some (w := .encode) hplain
        exact .done v
      | inPlace _ hnode => exact main hnode (congrArg FunctionKey.identity hf)
    | isType | typeErrors | jsonDecode | jsonStringify => cases congrArg FunctionKey.target hf
  | decode =>
    cases hof with
    | jsonDecode _ h =>
      cases h with
      | plain hplain =>
        obtain ⟨-, rfl⟩ := Way.plain?_eq_some (w := .decode) hplain
        exact .done v
      | inPlace _ hnode => exact main hnode (congrArg FunctionKey.identity hf)
    | isType | typeErrors | jsonEncode | jsonStringify => cases congrArg FunctionKey.target hf

/-- Calls of registered encoders and decoders come to an end, if as many may be nested as there is
room for. -/
theorem halts_transformCall {names : List String}
    (hnames : ∀ id, (a.node id).hasBody = true → ⟨(a.node id).identity, way.target⟩ ∈ r.keys →
      (a.node id).identity ∈ names)
    (steps : Nat) {id : NodeId} (own : (a.node id).hasBody = true)
    (hkey : ⟨(a.node id).identity, way.target⟩ ∈ r.keys) {v : Value}
    (room : a.room names (a.unfolding id) (size v) ≤ steps) :
    ((Program.mk r.functions revivers).transformCall way.target steps (a.node id).identity
      v).Halts := by
  induction steps generalizing id v with
  | zero => exact absurd (Arena.room_pos (hnames id own hkey)) (Nat.not_lt_of_le room)
  | succ steps ih =>
    refine halts_transformCall_succ revivers shallow faithful marked grounded paced hkey ?_
    intro callee own' hknown w hw
    refine ih own' (Registry.contains_iff.mp hknown) (Nat.le_of_lt_succ ?_)
    exact (Arena.room_lt faithful (hnames id own hkey) hw).trans_le room

/-- Registered encoders and decoders make no more nested calls than the bound. -/
theorem halts_transformCall_of_bound {id : NodeId}
    (hkey : ⟨(a.node id).identity, way.target⟩ ∈ r.keys) {v : Value} {steps : Nat}
    (bound : a.callBound (size v) ≤ steps) :
    ((Program.mk r.functions revivers).transformCall way.target steps (a.node id).identity
      v).Halts := by
  obtain ⟨steps, rfl⟩ := Nat.exists_eq_add_one.mpr (a.callBound_pos.trans_le bound)
  refine halts_transformCall_succ revivers shallow faithful marked grounded paced hkey ?_
  intro callee own hknown w hw
  refine halts_transformCall revivers shallow faithful marked grounded paced
    (fun id own _ => a.mem_nodeNames own) _ own (Registry.contains_iff.mp hknown)
    (Nat.le_of_lt_succ ?_)
  exact (Arena.room_lt_callBound (hw.elim Nat.le_of_lt And.left)).trans_le bound

omit paced in
/-- Registered encoders and decoders are not cut off, if depths are sizes. -/
theorem halts_transform (paced : a.Paced way revivers Value.depth) {id : NodeId}
    (hkey : ⟨(a.node id).identity, way.target⟩ ∈ r.keys) (v : Value) :
    ((Program.mk r.functions revivers).transform (a.node id).identity way.target v).Halts := by
  have hroom := Arena.room_le_steps (a := a) (t := a.unfolding id)
    (Program.mk r.functions revivers) v.depth_le_levels
  have hpos := (Arena.room_pos (a := a) (m := v.depth)
    (identity_mem_names revivers hkey)).trans_le hroom
  obtain ⟨steps, hsteps⟩ := Nat.exists_eq_add_one.mpr hpos
  rw [transform, hsteps]
  refine halts_transformCall_succ revivers shallow faithful marked grounded paced hkey ?_
  intro callee own hknown w hw
  refine halts_transformCall revivers shallow faithful marked grounded paced
    (fun id _ => identity_mem_names revivers) _ own (Registry.contains_iff.mp hknown)
    (Nat.le_of_lt_succ ?_)
  exact ((Arena.room_lt faithful (identity_mem_names revivers hkey) hw).trans_le hroom).trans_eq
    hsteps

end Program

end Typeforge
