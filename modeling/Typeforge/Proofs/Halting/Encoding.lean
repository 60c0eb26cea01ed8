/-
# `Typeforge.Proofs.Halting.Encoding` — how deep encoding may get

An encoder puts what a union takes into an array with a number, so that a value gets
deeper by as many arrays as unions stand one inside another; elements and members get
deeper likewise.  A member that is declared more than once is encoded as often, each
time as deep as the last time has left it.  What these changes may come to is bounded
by how deep objects stand inside one another, and how deep the value is as a whole.
-/
import Typeforge.Proofs.Halting.Growth

namespace Typeforge

/-! ## Objects inside objects -/

namespace Value

mutual

/-- How deep objects stand inside one another. -/
def nesting : Value → Nat
  | array items => itemsNesting items
  | object members => membersNesting members + 1
  | _ => 0

def itemsNesting : List Value → Nat
  | [] => 0
  | x :: rest => max x.nesting (itemsNesting rest)

def membersNesting : List (String × Value) → Nat
  | [] => 0
  | (_, x) :: rest => max x.nesting (membersNesting rest)

end

theorem itemsNesting_le {items : List Value} {o : Nat} :
    itemsNesting items ≤ o ↔ ∀ w ∈ items, w.nesting ≤ o := by
  induction items with
  | nil => exact ⟨fun _ _ hw => absurd hw List.not_mem_nil, fun _ => Nat.zero_le o⟩
  | cons w rest ih => rw [itemsNesting, Nat.max_le, ih, List.forall_mem_cons]

theorem membersNesting_le {members : List (String × Value)} {o : Nat} :
    membersNesting members ≤ o ↔ ∀ m ∈ members, m.2.nesting ≤ o := by
  induction members with
  | nil => exact ⟨fun _ _ hm => absurd hm List.not_mem_nil, fun _ => Nat.zero_le o⟩
  | cons m rest ih =>
    obtain ⟨k, w⟩ := m
    rw [membersNesting, Nat.max_le, ih, List.forall_mem_cons]

/-- Values in which objects stand no deeper inside one another, and which are no deeper, than
bounds. -/
structure Sized (o d : Nat) (v : Value) : Prop where
  nesting : v.nesting ≤ o
  depth : v.depth ≤ d

namespace Sized

variable {o d d' : Nat} {v : Value}

theorem refl (v : Value) : v.Sized v.nesting v.depth := ⟨le_rfl, le_rfl⟩

theorem mono (h : v.Sized o d) (hle : d ≤ d') : v.Sized o d' := ⟨h.nesting, h.depth.trans hle⟩

theorem array {items : List Value} (h : ∀ w ∈ items, w.Sized o d) :
    (Value.array items).Sized o (d + 1) where
  nesting := itemsNesting_le.mpr fun w hw => (h w hw).nesting
  depth := depth_array_le fun w hw => (h w hw).depth

theorem object {members : List (String × Value)} (h : ∀ m ∈ members, m.2.Sized o d) :
    (Value.object members).Sized (o + 1) (d + 1) where
  nesting := Nat.succ_le_succ (membersNesting_le.mpr fun m hm => (h m hm).nesting)
  depth := depth_object_le fun m hm => (h m hm).depth

theorem items {items : List Value} (h : (Value.array items).Sized o d) :
    ∃ below, d = below + 1 ∧ ∀ w ∈ items, w.Sized o below := by
  obtain ⟨below, rfl⟩ := Nat.exists_eq_add_one.mpr ((Nat.succ_pos _).trans_le h.depth)
  exact ⟨below, rfl, fun w hw => ⟨itemsNesting_le.mp h.nesting w hw,
    Nat.le_of_lt_succ ((depth_item_lt hw).trans_le h.depth)⟩⟩

theorem members {members : List (String × Value)} (h : (Value.object members).Sized o d) :
    ∃ inner below, o = inner + 1 ∧ d = below + 1 ∧ ∀ m ∈ members, m.2.Sized inner below := by
  obtain ⟨inner, rfl⟩ := Nat.exists_eq_add_one.mpr ((Nat.succ_pos _).trans_le h.nesting)
  obtain ⟨below, rfl⟩ := Nat.exists_eq_add_one.mpr ((Nat.succ_pos _).trans_le h.depth)
  have hnesting := membersNesting_le.mp (Nat.le_of_succ_le_succ h.nesting)
  exact ⟨inner, below, rfl, rfl, fun m hm => ⟨hnesting m hm,
    Nat.le_of_lt_succ ((depth_member_lt hm).trans_le h.depth)⟩⟩

end Sized

end Value

/-! ## Bounds -/

section Bounds

variable (tags changes : Nat)

/-- How deep a value may be encoded to, but for the unions it stands in itself, if objects stand so
deep inside one another and the value is so deep, no more unions than `tags` stand one inside
another, and a member is changed no more than `changes` times. -/
def encodedDepth : Nat → Nat → Nat
  | 0, d => d * (tags + 1)
  | o + 1, d => d * (tags + 1) + (fun d => encodedDepth o d + tags)^[changes] d

/-- How deep a value may be encoded to, with the unions it stands in. -/
def taggedDepth (o d : Nat) : Nat := encodedDepth tags changes o d + tags

/-- A size by which members are smaller than an object, however often they have been changed. -/
def encodingSize : Nat → Nat → Nat
  | 0, d => d
  | o + 1, d => d + 1 + encodingSize o ((taggedDepth tags changes o)^[changes] d)

variable {tags changes} {o d d' i j : Nat}

theorem encodedDepth_succ : encodedDepth tags changes (o + 1) d =
    d * (tags + 1) + (taggedDepth tags changes o)^[changes] d := rfl

theorem monotone_taggedDepth (o : Nat) : Monotone (taggedDepth tags changes o) := by
  induction o with
  | zero => exact fun d d' h => Nat.add_le_add_right (Nat.mul_le_mul_right _ h) _
  | succ o ih =>
    intro d d' h
    exact Nat.add_le_add_right (Nat.add_le_add (Nat.mul_le_mul_right _ h) (ih.iterate _ h)) _

theorem mul_le_encodedDepth (o d : Nat) : d * (tags + 1) ≤ encodedDepth tags changes o d := by
  cases o with
  | zero => exact le_rfl
  | succ o => exact Nat.le_add_right _ _

theorem le_encodedDepth (o d : Nat) : d ≤ encodedDepth tags changes o d :=
  (Nat.le_mul_of_pos_right d (Nat.succ_pos tags)).trans (mul_le_encodedDepth o d)

theorem encodedDepth_le_taggedDepth (o d : Nat) :
    encodedDepth tags changes o d ≤ taggedDepth tags changes o d := Nat.le_add_right _ _

/-- One change more makes a member no less deep. -/
theorem iterate_taggedDepth_le (o d : Nat) (h : i ≤ j) :
    (taggedDepth tags changes o)^[i] d ≤ (taggedDepth tags changes o)^[j] d :=
  Function.monotone_iterate_of_id_le
    (fun d => (le_encodedDepth o d).trans (encodedDepth_le_taggedDepth o d)) h d

theorem iterate_taggedDepth_le_succ (o d : Nat) :
    (taggedDepth tags changes o)^[changes] d ≤ (taggedDepth tags changes o)^[changes] (d + 1) :=
  (monotone_taggedDepth o).iterate changes (Nat.le_succ d)

/-- An array gets no deeper than its elements allow. -/
theorem taggedDepth_succ_le (o d : Nat) :
    taggedDepth tags changes o d + 1 ≤ encodedDepth tags changes o (d + 1) := by
  have hmul : (d + 1) * (tags + 1) = d * (tags + 1) + (tags + 1) := Nat.succ_mul ..
  cases o with
  | zero =>
    rw [taggedDepth, encodedDepth, encodedDepth, hmul]
    omega
  | succ o =>
    have hmono : (taggedDepth tags changes o)^[changes] d ≤ _ := iterate_taggedDepth_le_succ o d
    rw [taggedDepth, encodedDepth_succ, encodedDepth_succ, hmul]
    omega

/-- An object gets no deeper than its members, however often they are changed. -/
theorem iterate_succ_le (o d : Nat) :
    (taggedDepth tags changes o)^[changes] d + 1 ≤ encodedDepth tags changes (o + 1) (d + 1) := by
  have hmono : (taggedDepth tags changes o)^[changes] d ≤ _ := iterate_taggedDepth_le_succ o d
  have hmul : (d + 1) * (tags + 1) = d * (tags + 1) + (tags + 1) := Nat.succ_mul ..
  rw [encodedDepth_succ, hmul]
  omega

theorem strictMono_encodingSize (o : Nat) : StrictMono (encodingSize tags changes o) := by
  induction o with
  | zero => exact fun d d' h => h
  | succ o ih =>
    refine fun d d' h => Nat.add_lt_add_of_lt_of_le (Nat.succ_lt_succ h) (ih.monotone ?_)
    exact (monotone_taggedDepth o).iterate changes (Nat.le_of_lt h)

theorem encodingSize_lt_succ (o d : Nat) :
    encodingSize tags changes o ((taggedDepth tags changes o)^[changes] d) <
      encodingSize tags changes (o + 1) d := by
  rw [encodingSize]
  omega

theorem monotone_encodingSize (d : Nat) : Monotone (encodingSize tags changes · d) := by
  refine monotone_nat_of_le_succ fun o => ?_
  have hdepth : d ≤ (taggedDepth tags changes o)^[changes] d :=
    iterate_taggedDepth_le o d (Nat.zero_le changes)
  exact ((strictMono_encodingSize o).monotone hdepth).trans (encodingSize_lt_succ o d).le

end Bounds

/-! ## Encoding -/

namespace Arena

open TypeTree Value

variable {a : Arena} {revivers : Revivers} {tags changes n : Nat} {id : NodeId} {o d : Nat}
  {v v' : Value}

/-- Numbers that bound how many unions stand inside one another, and how often a member of an object
may be changed. -/
structure Bounded (a : Arena) (tags changes : Nat) : Prop where
  shallow : a.Shallow
  changes_pos : 0 < changes
  rank_le : ∀ id, (a.unfolding id).rank ≤ tags
  changes_lt : ∀ id props index className, (a.node id).shape = .object props index className →
    (a.properties props).length < changes

/-- Encoding at some depth, by the type of a node, makes a value no deeper than the bound. -/
abbrev EncodesWithin (a : Arena) (revivers : Revivers) (tags changes n : Nat) : Prop :=
  ∀ id o d v v', v.Sized o d → alter .encode revivers n (a.unfolding id) v = .done v' →
    v'.Sized o (encodedDepth tags changes o d + (a.unfolding id).rank)

theorem EncodesWithin.tagged (bounded : a.Bounded tags changes)
    (h : a.EncodesWithin revivers tags changes n) (hv : v.Sized o d)
    (halter : alter .encode revivers n (a.unfolding id) v = .done v') :
    v'.Sized o (taggedDepth tags changes o d) :=
  (h id o d v v' hv halter).mono (Nat.add_le_add_left (bounded.rank_le id) _)

theorem le_taggedDepth (tags changes o d : Nat) : d ≤ taggedDepth tags changes o d :=
  (le_encodedDepth o d).trans (encodedDepth_le_taggedDepth o d)

/-- A value whose elements are encoded once at most. -/
theorem sized_array_of_reshaped {R : Value → Value → Prop} (hv : v.Sized o d)
    (harray : Kind.array.holds v = true) (h : Reshaped R v v')
    (hR : ∀ w w' below, w.Sized o below → R w w' → w'.Sized o (taggedDepth tags changes o below)) :
    v'.Sized o (encodedDepth tags changes o d) := by
  cases h with
  | same => exact hv.mono (le_encodedDepth o d)
  | array h =>
    obtain ⟨below, rfl, hitems⟩ := hv.items
    refine (Sized.array fun w' hw' => ?_).mono (taggedDepth_succ_le o below)
    obtain ⟨w, hw, rfl | hchanged⟩ := h w' hw'
    · exact (hitems _ hw).mono (le_taggedDepth _ _ _ _)
    · exact hR w w' below (hitems w hw) hchanged
  | object => cases harray

theorem sized_encode (codec : Codec) (hv : v.Sized o d) : (codec.encode v).Sized o d := by
  unfold Codec.encode
  split
  · exact ⟨Nat.zero_le _, Nat.zero_le _⟩
  · exact ⟨Nat.zero_le _, Nat.zero_le _⟩
  · exact ⟨Nat.zero_le _, Nat.zero_le _⟩
  · exact ⟨Nat.zero_le _, Nat.zero_le _⟩
  · exact ⟨Nat.zero_le _, Nat.zero_le _⟩
  · exact hv

theorem sized_tagFirst {f : TypeTree → Value → Changed} {trees : List TypeTree} {i bound : Nat}
    (h : ∀ t ∈ trees, ∀ w, f t v = .done w → w.Sized o bound)
    (htag : tagFirst f v i trees = .done v') : v'.Sized o (bound + 1) := by
  induction trees generalizing i with
  | nil => cases htag
  | cons t rest ih =>
    obtain ⟨ht, hrest⟩ := List.forall_mem_cons.mp h
    rw [tagFirst] at htag
    split at htag
    · obtain ⟨w, hf, hpair⟩ := Changed.andThen_eq_done htag
      cases hpair
      refine .array (List.forall_mem_cons.mpr ⟨⟨Nat.zero_le _, Nat.zero_le _⟩, ?_⟩)
      exact List.forall_mem_singleton.mpr (ht w hf)
    · exact ih hrest htag

/-! ### Objects -/

/-- An object with members that are no deeper than so many changes may have made them. -/
def MembersSized (tags changes inner below count : Nat) (v : Value) : Prop :=
  ∃ members, v = .object members ∧ ∀ m ∈ members,
    m.2.Sized inner ((taggedDepth tags changes inner)^[count] below)

namespace MembersSized

variable {inner below count : Nat}

theorem next (h : MembersSized tags changes inner below count v) :
    MembersSized tags changes inner below (count + 1) v := by
  obtain ⟨members, rfl, hmembers⟩ := h
  exact ⟨members, rfl, fun m hm => (hmembers m hm).mono (iterate_taggedDepth_le _ _ (Nat.le_succ _))⟩

/-- Whatever changes members once each. -/
theorem reshaped {R : Value → Value → Prop} (hv : MembersSized tags changes inner below count v)
    (h : Reshaped R v v')
    (hR : ∀ w w' d, w.Sized inner d → R w w' → w'.Sized inner (taggedDepth tags changes inner d)) :
    MembersSized tags changes inner below (count + 1) v' := by
  cases h with
  | same => exact hv.next
  | array =>
    obtain ⟨members, hmembers, -⟩ := hv
    cases hmembers
  | @object members members' h =>
    have hmembers := hv.next
    obtain ⟨_, heq, hnext⟩ := hmembers
    obtain ⟨_, heq', hsized⟩ := hv
    obtain rfl := Value.object.inj heq
    obtain rfl := Value.object.inj heq'
    refine ⟨members', rfl, fun m' hm' => ?_⟩
    obtain ⟨m, hm, rfl | hchanged⟩ := h m' hm'
    · exact hnext _ hm
    · rw [Function.iterate_succ_apply']
      exact hR _ _ _ (hsized m hm) hchanged

/-- A property changes a member no more than once. -/
theorem property (bounded : a.Bounded tags changes)
    (ih : ∀ k < n, a.EncodesWithin revivers tags changes k) {name : String} {child : NodeId}
    (hshape : (a.node id).shape = .property name child)
    (hv : MembersSized tags changes inner below count v)
    (halter : alter .encode revivers n (a.unfolding id) v = .done v') :
    MembersSized tags changes inner below (count + 1) v' := by
  rcases alter_property hshape halter with rfl | ⟨members, w, w', k, hk, rfl, hget, hw, rfl⟩
  · exact hv.next
  · obtain ⟨_, heq, hnext⟩ := hv.next
    obtain ⟨_, heq', hsized⟩ := hv
    obtain rfl := Value.object.inj heq
    obtain rfl := Value.object.inj heq'
    refine ⟨_, rfl, fun m hm => ?_⟩
    rcases Members.mem_update hm with hm | rfl
    · exact hnext m hm
    · rw [Function.iterate_succ_apply']
      exact (ih k hk).tagged bounded (hsized _ (Members.mem_of_get? hget)) hw

theorem properties (bounded : a.Bounded tags changes)
    (ih : ∀ k < n, a.EncodesWithin revivers tags changes k) {ps : List Property}
    {props : List NodeId} (hps : ps ⊆ a.properties props)
    (hv : MembersSized tags changes inner below count v)
    (halter : Changed.inTurn (ps.map fun p => alter .encode revivers n (a.unfolding p.id)) v =
      .done v') : MembersSized tags changes inner below (count + ps.length) v' := by
  induction ps generalizing v count with
  | nil =>
    cases halter
    exact hv
  | cons p ps hrest =>
    obtain ⟨hp, hps⟩ := List.cons_subset.mp hps
    obtain ⟨-, -, child, hshape⟩ := shape_of_mem_properties hp
    obtain ⟨w, hfirst, halter⟩ := Changed.andThen_eq_done halter
    rw [List.length_cons, Nat.add_comm ps.length, ← Nat.add_assoc]
    exact hrest hps (hv.property bounded ih hshape hfirst) halter

theorem sized (hv : MembersSized tags changes inner below count v) (hcount : count ≤ changes) :
    v.Sized (inner + 1) (encodedDepth tags changes (inner + 1) (below + 1)) := by
  obtain ⟨members, rfl, hmembers⟩ := hv
  refine (Sized.object fun m hm => ?_).mono (iterate_succ_le inner below)
  exact (hmembers m hm).mono (iterate_taggedDepth_le _ _ hcount)

end MembersSized

/-- The properties of an object type leave alone what is no object. -/
theorem properties_idle {ps : List Property} {props : List NodeId} (hps : ps ⊆ a.properties props)
    (hv : ∀ members, v ≠ .object members)
    (halter : Changed.inTurn (ps.map fun p => alter .encode revivers n (a.unfolding p.id)) v =
      .done v') : v' = v := by
  induction ps with
  | nil =>
    cases halter
    rfl
  | cons p ps ih =>
    obtain ⟨hp, hps⟩ := List.cons_subset.mp hps
    obtain ⟨-, -, child, hshape⟩ := shape_of_mem_properties hp
    obtain ⟨w, hfirst, hrest⟩ := Changed.andThen_eq_done halter
    rcases alter_property hshape hfirst with rfl | ⟨members, _, _, _, _, heq, _⟩
    · exact ih hps hrest
    · exact absurd heq (hv members)

theorem sized_object (bounded : a.Bounded tags changes)
    (ih : ∀ k ≤ n, a.EncodesWithin revivers tags changes k) {props : List NodeId}
    {index : Option NodeId} {className : Option String}
    (h : (a.node id).shape = .object props index className) (hv : v.Sized o d)
    (halter : Changed.inTurn (a.memberSteps (alter .encode revivers n) props index) v = .done v') :
    v'.Sized o (encodedDepth tags changes o d) := by
  rw [memberSteps, Changed.inTurn_append] at halter
  obtain ⟨w, hprops, hindex⟩ := Changed.andThen_eq_done halter
  have hcount := bounded.changes_lt id props index className h
  by_cases hobject : ∃ members, v = .object members
  · obtain ⟨members, rfl⟩ := hobject
    obtain ⟨inner, below, rfl, rfl, hmembers⟩ := hv.members
    have hstart : MembersSized tags changes inner below 0 (.object members) :=
      ⟨members, rfl, hmembers⟩
    have hw := hstart.properties bounded (fun k hk => ih k hk.le) (List.Subset.refl _) hprops
    rw [Nat.zero_add] at hw
    cases hfilter : a.indexFilter index with
    | none =>
      rw [hfilter] at hindex
      cases hindex
      exact hw.sized hcount.le
    | some x =>
      rw [hfilter] at hindex
      rw [Changed.inTurn_singleton] at hindex
      refine MembersSized.sized (hw.reshaped (Value.reshaped_changeCovered hindex) ?_) hcount
      exact fun u u' d hu halter => (ih n le_rfl).tagged bounded hu halter
  · have hne (members : List (String × Value)) (heq : v = .object members) : False :=
      hobject ⟨members, heq⟩
    obtain rfl := properties_idle (List.Subset.refl _) hne hprops
    have hsame : v' = w := by
      cases hfilter : a.indexFilter index with
      | none =>
        rw [hfilter] at hindex
        cases hindex
        rfl
      | some x =>
        rw [hfilter] at hindex
        rw [Changed.inTurn_singleton] at hindex
        cases w with
        | object members => exact (hne members rfl).elim
        | _ =>
          cases hindex
          rfl
    rw [hsame]
    exact hv.mono (le_encodedDepth o d)

/-! ### Tuples -/

/-- An array whose elements are no deeper than one change may have made them, and from an index on
are as they were. -/
def ElementsSized (tags changes o below i : Nat) (v : Value) : Prop :=
  ∃ items, v = .array items ∧ ∀ j w, items[j]? = some w →
    w.Sized o (taggedDepth tags changes o below) ∧ (i ≤ j → w.Sized o below)

namespace ElementsSized

variable {below i : Nat}

theorem change {f : Value → Changed} {optional : Bool}
    (hf : ∀ w w', w.Sized o below → f w = .done w' → w'.Sized o (taggedDepth tags changes o below))
    (hv : ElementsSized tags changes o below i v)
    (h : v.changePresent (.element i) optional f = .done v') :
    ElementsSized tags changes o below (i + 1) v' := by
  obtain ⟨items, rfl, hitems⟩ := hv
  have hlater (j : Nat) (w : Value) (hw : items[j]? = some w) :
      w.Sized o (taggedDepth tags changes o below) ∧ (i + 1 ≤ j → w.Sized o below) :=
    (hitems j w hw).imp_right fun h hj => h (Nat.le_of_succ_le hj)
  rcases eq_of_changePart_element h with rfl | ⟨_, w, w', heq, hget, hw, rfl⟩
  · exact ⟨items, rfl, hlater⟩
  · obtain rfl := Value.array.inj heq
    refine ⟨_, rfl, fun j u hu => ?_⟩
    by_cases hj : i = j
    · subst hj
      obtain ⟨hlt, -⟩ := List.getElem?_eq_some_iff.mp hget
      rw [List.getElem?_set_self hlt] at hu
      obtain rfl := Option.some.inj hu
      refine ⟨?_, fun hle => absurd hle (Nat.not_succ_le_self i)⟩
      split at hw
      · cases hw
        exact (hitems i w hget).1
      · exact hf w _ ((hitems i w hget).2 le_rfl) hw
    · rw [List.getElem?_set_ne hj] at hu
      exact hlater j u hu

theorem elements (bounded : a.Bounded tags changes)
    (ih : a.EncodesWithin revivers tags changes n) {fixed : List NodeId}
    (hv : ElementsSized tags changes o below i v)
    (halter : Changed.inTurn ((fixed.zipIdx i).flatMap fun x =>
      Way.encode.restore (a.slot x.1) x.2 ++ [Value.changePresent (.element x.2)
        (a.node x.1).optional (alter .encode revivers n (a.unfolding x.1))]) v = .done v') :
    ElementsSized tags changes o below (i + fixed.length) v' := by
  induction fixed generalizing v i with
  | nil =>
    cases halter
    exact hv
  | cons id fixed hrest =>
    rw [List.zipIdx_cons, List.flatMap_cons, Changed.inTurn_append] at halter
    obtain ⟨w, hfirst, hlater⟩ := Changed.andThen_eq_done halter
    change Changed.inTurn [_] v = _ at hfirst
    rw [Changed.inTurn_singleton] at hfirst
    rw [List.length_cons, Nat.add_comm fixed.length, ← Nat.add_assoc]
    refine hrest (hv.change (fun u u' hu halter => ?_) hfirst) hlater
    exact ih.tagged bounded hu halter

theorem rest {f : Value → Changed}
    (hf : ∀ w w', w.Sized o below → f w = .done w' → w'.Sized o (taggedDepth tags changes o below))
    (hv : ElementsSized tags changes o below i v) (h : v.changeFrom i f = .done v') :
    v'.Sized o (taggedDepth tags changes o below + 1) := by
  obtain ⟨items, rfl, hitems⟩ := hv
  obtain ⟨rfl, hstop⟩ := Changed.mk.inj h
  refine .array fun w' hw' => ?_
  rcases List.mem_append.mp hw' with hw' | hw'
  · obtain ⟨j, hj⟩ := List.mem_iff_getElem?.mp (List.mem_of_mem_take hw')
    exact (hitems j w' hj).1
  · obtain ⟨w, hw, hdone⟩ := exists_of_changeItems (Prod.ext rfl hstop) w' hw'
    obtain ⟨j, hj⟩ := List.mem_iff_getElem?.mp hw
    rw [List.getElem?_drop] at hj
    exact hf w w' ((hitems _ w hj).2 (Nat.le_add_right _ _)) hdone

theorem sized (hv : ElementsSized tags changes o below i v) :
    v.Sized o (taggedDepth tags changes o below + 1) := by
  obtain ⟨items, rfl, hitems⟩ := hv
  refine .array fun w hw => ?_
  obtain ⟨j, hj⟩ := List.mem_iff_getElem?.mp hw
  exact (hitems j w hj).1

end ElementsSized

/-- The elements of a tuple type leave alone what is no array. -/
theorem elements_idle {fixed : List NodeId} {i : Nat} (hv : ∀ items, v ≠ .array items)
    (halter : Changed.inTurn ((fixed.zipIdx i).flatMap fun x =>
      Way.encode.restore (a.slot x.1) x.2 ++ [Value.changePresent (.element x.2)
        (a.node x.1).optional (alter .encode revivers n (a.unfolding x.1))]) v = .done v') :
    v' = v := by
  induction fixed generalizing i with
  | nil =>
    cases halter
    rfl
  | cons id fixed ih =>
    rw [List.zipIdx_cons, List.flatMap_cons, Changed.inTurn_append] at halter
    obtain ⟨w, hfirst, hlater⟩ := Changed.andThen_eq_done halter
    change Changed.inTurn [_] v = _ at hfirst
    rw [Changed.inTurn_singleton] at hfirst
    rcases eq_of_changePart_element hfirst with rfl | ⟨items, _, _, heq, _⟩
    · exact ih hlater
    · exact absurd heq (hv items)

theorem sized_tuple (bounded : a.Bounded tags changes)
    (ih : a.EncodesWithin revivers tags changes n) {members : List NodeId} (hv : v.Sized o d)
    (halter : Changed.inTurn (a.elementSteps .encode (alter .encode revivers n) members) v =
      .done v') : v'.Sized o (encodedDepth tags changes o d) := by
  rw [elementSteps, Changed.inTurn_append] at halter
  obtain ⟨w, hfixed, hrest⟩ := Changed.andThen_eq_done halter
  by_cases harray : ∃ items, v = .array items
  · obtain ⟨items, rfl⟩ := harray
    obtain ⟨below, rfl, hitems⟩ := hv.items
    have hstart : ElementsSized tags changes o below 0 (.array items) :=
      ⟨items, rfl, fun j w hw => ⟨(hitems w (List.mem_of_getElem? hw)).mono (le_taggedDepth _ _ _ _),
        fun _ => hitems w (List.mem_of_getElem? hw)⟩⟩
    have hw := hstart.elements bounded ih hfixed
    rw [Nat.zero_add] at hw
    refine Sized.mono ?_ (taggedDepth_succ_le o below)
    cases hlast : (a.splitTuple members).2 with
    | none =>
      rw [hlast] at hrest
      cases hrest
      exact hw.sized
    | some last =>
      rw [hlast] at hrest
      rw [Changed.inTurn_singleton] at hrest
      exact hw.rest (fun u u' hu halter => ih.tagged bounded hu halter) hrest
  · have hne (items : List Value) (heq : v = .array items) : False := harray ⟨items, heq⟩
    obtain rfl := elements_idle hne hfixed
    have hsame : v' = w := by
      cases hlast : (a.splitTuple members).2 with
      | none =>
        rw [hlast] at hrest
        cases hrest
        rfl
      | some last =>
        rw [hlast] at hrest
        rw [Changed.inTurn_singleton] at hrest
        cases w with
        | array items => exact (hne items rfl).elim
        | _ =>
          cases hrest
          rfl
    rw [hsame]
    exact hv.mono (le_encodedDepth o d)

/-! ### Nodes -/

theorem sized_steps (bounded : a.Bounded tags changes)
    (ih : ∀ k ≤ n, a.EncodesWithin revivers tags changes k)
    (hself : (a.node id).standsFor? = none) (hv : v.Sized o d)
    (halter : Changed.inTurn ((a.unfolding id).steps .encode revivers (alter .encode revivers n)) v =
      .done v') : v'.Sized o (encodedDepth tags changes o d + (a.unfolding id).rank) := by
  have untagged (h : v'.Sized o (encodedDepth tags changes o d)) :=
    h.mono (Nat.le_add_right _ (a.unfolding id).rank)
  have cut {w : Value} (h : Changed.inTurn [fun v => ⟨v, some .cutOff⟩] v = .done w) : False := by
    cases h
  cases hshape : (a.node id).shape with
  | atom x =>
    cases hnever : x.isNever with
    | true =>
      simp only [steps, label_unfolding hself, labelOf, hshape, x.isNever_canonical, hnever,
        if_true] at halter
      exact (cut halter).elim
    | false =>
      rw [steps_atom hshape hnever] at halter
      refine untagged (Sized.mono ?_ (le_encodedDepth o d))
      cases hcodec : x.codec? with
      | none =>
        rw [hcodec] at halter
        cases halter
        exact hv
      | some codec =>
        rw [hcodec] at halter
        cases halter
        exact sized_encode codec hv
  | array item =>
    rw [steps_array hshape, Changed.inTurn_singleton] at halter
    cases v with
    | array items =>
      refine untagged (sized_array_of_reshaped hv rfl (reshaped_changeFrom halter) ?_)
      exact fun w w' below hw h => (ih n le_rfl).tagged bounded hw h
    | _ =>
      cases halter
      exact untagged (hv.mono (le_encodedDepth o d))
  | property name child =>
    rw [steps_property hshape, Changed.inTurn_singleton] at halter
    cases v with
    | object members =>
      obtain ⟨inner, below, rfl, rfl, hmembers⟩ := hv.members
      have hstart : MembersSized tags changes inner below 0 (.object members) :=
        ⟨members, rfl, hmembers⟩
      refine untagged ((hstart.reshaped (reshaped_changePart halter) ?_).sized bounded.changes_pos)
      intro w w' d hw h
      split at h
      · cases h
        exact hw.mono (le_taggedDepth _ _ _ _)
      · exact (ih n le_rfl).tagged bounded hw h
    | _ =>
      cases halter
      exact untagged (hv.mono (le_encodedDepth o d))
  | object props index className =>
    rw [steps_object hshape] at halter
    refine untagged (sized_object bounded ih hshape hv ?_)
    rwa [show Way.encode.revive revivers className = [] from rfl, List.append_nil] at halter
  | tuple members =>
    rw [steps_tuple hshape] at halter
    exact untagged (sized_tuple bounded (ih n le_rfl) hv halter)
  | union members =>
    rw [steps_union hshape, Changed.inTurn_singleton] at halter
    cases members with
    | nil => cases halter
    | cons first others =>
      -- every member has a lower rank, and the array around it makes up for that
      obtain ⟨below, hbelow⟩ := Nat.exists_eq_add_one.mpr
        ((Nat.zero_le _).trans_lt (bounded.shallow.member_lt hshape List.mem_cons_self))
      rw [hbelow, ← Nat.add_assoc]
      refine sized_tagFirst (fun t ht w hw => ?_) halter
      obtain ⟨member, hmember, rfl⟩ := List.mem_map.mp ht
      refine (ih n le_rfl member o d v w hv hw).mono (Nat.add_le_add_left ?_ _)
      exact Nat.le_of_lt_succ ((bounded.shallow.member_lt hshape hmember).trans_eq hbelow)
  | promise child | function f =>
    simp only [steps, label_unfolding hself, labelOf, hshape] at halter
    exact (cut halter).elim
  | tupleMember child | indexSignature _ child | rest child | parameter _ child _ =>
    simp only [Node.standsFor?, hshape, reduceCtorEq] at hself

/-- **Encoding makes a value no deeper than the bound.** -/
theorem encodesWithin (bounded : a.Bounded tags changes) (n : Nat) :
    a.EncodesWithin revivers tags changes n := by
  induction n using Nat.strong_induction_on with
  | _ n ih =>
    intro id o d v v' hv halter
    cases n with
    | zero => cases halter
    | succ n =>
      have idle (h : Changed.done v = .done v') :
          v'.Sized o (encodedDepth tags changes o d + (a.unfolding id).rank) := by
        cases h
        exact hv.mono ((le_encodedDepth o d).trans (Nat.le_add_right _ _))
      by_cases hneeds : (a.unfolding id).Needs .encode
      · cases hcore : a.core id with
        | none => exact absurd (unfolding_eq_empty hcore) hneeds.ne_empty
        | some core =>
          rw [unfolding_core hcore] at hneeds halter ⊢
          rw [alter_of_needs hneeds] at halter
          exact sized_steps bounded (fun k hk => ih k (Nat.lt_succ_of_le hk))
            (standsFor_of_core hcore) hv halter
      · exact idle ((alter_of_not_needs hneeds n v).symm.trans halter)

/-! ## Sizes for encoders -/

/-- Whatever names objects declare, a member is smaller than the object was whenever it is encoded
again. -/
theorem Bounded.paced (bounded : a.Bounded tags changes) (revivers : Revivers) :
    a.Paced .encode revivers fun v => encodingSize tags changes v.nesting v.depth where
  undefined_lt items := by
    have hzero : encodingSize tags changes 0 0 ≤ encodingSize tags changes _ 0 :=
      monotone_encodingSize 0 (Nat.zero_le (Value.array items).nesting)
    exact hzero.trans_lt (strictMono_encodingSize _ (Nat.succ_pos _))
  item_lt items v hv := by
    have hnesting : encodingSize tags changes v.nesting v.depth ≤ encodingSize tags changes _ _ :=
      monotone_encodingSize v.depth
        (itemsNesting_le.mp le_rfl v hv : v.nesting ≤ (Value.array items).nesting)
    exact hnesting.trans_lt (strictMono_encodingSize _ (depth_item_lt hv))
  member_lt members m hm := by
    have hnesting : encodingSize tags changes m.2.nesting m.2.depth ≤ encodingSize tags changes _ _ :=
      monotone_encodingSize m.2.depth
        ((membersNesting_le.mp le_rfl m hm).trans (Nat.le_succ _) :
          m.2.nesting ≤ (Value.object members).nesting)
    exact hnesting.trans_lt (strictMono_encodingSize _ (depth_member_lt hm))
  course id props index className hshape members := by
    obtain ⟨inner, below, hinner, hbelow, hmembers⟩ := (Sized.refl (.object members)).members
    have hdeclared := (bounded.changes_lt id props index className hshape).le
    have hnames : (Compile.declaredNames (a.properties props)).length =
        (a.properties props).length := List.length_map _
    have small (v : Value) {count : Nat} (hcount : count ≤ changes)
        (hv : v.Sized inner ((taggedDepth tags changes inner)^[count] below)) :
        encodingSize tags changes v.nesting v.depth <
          encodingSize tags changes (Value.object members).nesting (Value.object members).depth := by
      have hdepth : v.depth ≤ (taggedDepth tags changes inner)^[changes] below :=
        hv.depth.trans (iterate_taggedDepth_le inner below hcount)
      have hle : encodingSize tags changes v.nesting v.depth ≤ encodingSize tags changes inner _ :=
        (monotone_encodingSize v.depth hv.nesting).trans
          ((strictMono_encodingSize inner).monotone hdepth)
      rw [hinner, hbelow]
      exact (hle.trans_lt (encodingSize_lt_succ inner below)).trans
        (strictMono_encodingSize _ (Nat.lt_succ_self below))
    refine ⟨fun names _ v => v.Sized inner
        ((taggedDepth tags changes inner)^[(a.properties props).length - names.length] below),
      { next := ?_, reach := ?_, changed := ?_, rest := ?_ }, fun m hm => ?_⟩
    · exact fun name names _ v h => h.mono (iterate_taggedDepth_le _ _
        (Nat.sub_le_sub_left (Nat.le_succ _) _))
    · exact fun name names v h => small v ((Nat.sub_le _ _).trans hdeclared) h
    · intro name names suffix v hv n child v' halter
      have hlength : (a.properties props).length - names.length =
          (a.properties props).length - (name :: names).length + 1 := by
        have hle := suffix.length_le
        rw [hnames, List.length_cons] at hle
        rw [List.length_cons]
        omega
      rw [hlength, Function.iterate_succ_apply']
      exact (encodesWithin bounded n).tagged bounded hv halter
    · exact fun key v h _ => small v ((Nat.sub_le _ _).trans hdeclared) h
    · dsimp only
      rw [hnames, Nat.sub_self]
      exact hmembers m hm

end Arena

end Typeforge
