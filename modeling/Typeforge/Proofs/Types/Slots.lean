/-
# `Typeforge.Proofs.Types.Slots` — what each part of a whole is to be

The steps that change an object or a tuple are listed by its type, and each of
them reaches for its own part.  Seen from the parts, there is one change for each:
that of the property with its name, or else of the index signature that covers
its key; that of the fixed position with its number, or else of the rest.  Where
properties have different names, the steps come to just that.
-/
import Typeforge.Proofs.Types.Parts

namespace Typeforge

open Whole

namespace TypeTree

variable {w : Way} {revivers : Revivers} {n : Nat} {u : TypeTree}

open Classical in
/-- What becomes of the member of a property, the property followed down to a depth. -/
noncomputable def alterMember (w : Way) (revivers : Revivers) : Nat → TypeTree → Value → Changed
  | 0, _, v => ⟨v, some .cutOff⟩
  | n + 1, u, v =>
    if u.Needs w ∧ (u.isOptional && v.isUndefined) = false then alter w revivers n (u.part 0) v
    else .done v

/-- A property changes its member. -/
theorem handles_property {name : String} {optional : Bool} {g : String → Value → Changed}
    (h : u.label = some (.property name optional))
    (hg : ∀ v, g name v = alterMember w revivers n u v) :
    members.Handles (· == name) g (alter w revivers n u) := by
  have hoptional : u.isOptional = optional := by rw [isOptional, h]
  cases n with
  | zero => exact .cutOff fun v => rfl
  | succ n =>
    by_cases hneeds : u.Needs w
    · have hstep : alter w revivers (n + 1) u = Value.changePart (.member name) fun v =>
          if optional && v.isUndefined then .done v else alter w revivers n (u.part 0) v := by
        funext v
        rw [alter_of_needs hneeds]
        simp only [steps, h, Changed.inTurn_singleton]
        rfl
      rw [hstep]
      refine .member fun v => ?_
      rw [hg, alterMember, hoptional]
      cases optional && v.isUndefined with
      | true => rw [if_neg (fun hn => Bool.noConfusion hn.2), if_pos rfl]
      | false => rw [if_pos ⟨hneeds, rfl⟩, if_neg Bool.false_ne_true]
    · have hstep : alter w revivers (n + 1) u = Changed.done :=
        funext fun v => alter_of_not_needs hneeds n v
      rw [hstep]
      refine .done fun k v hk => ?_
      rw [eq_of_beq hk, hg, alterMember, if_neg (fun hn => hneeds hn.1)]

end TypeTree

namespace Arena

open TypeTree

variable {a : Arena} {w : Way} {revivers : Revivers} {n : Nat}

/-! ## Objects -/

/-- What becomes of a member of an object. -/
noncomputable def alterMember (a : Arena) (w : Way) (revivers : Revivers) (n : Nat)
    (props : List NodeId) (index : Option NodeId) (k : String) (v : Value) : Changed :=
  match (a.properties props).find? (·.name = k) with
  | some p => TypeTree.alterMember w revivers n (a.unfolding p.id) v
  | none =>
    match a.indexFilter index with
    | some (id, filter) => if filter.accepts k then alter w revivers n (a.unfolding id) v else .done v
    | none => .done v

/-- A property of an object is a property node. -/
theorem shape_of_mem_properties {props : List NodeId} {p : Arena.Property}
    (h : p ∈ a.properties props) :
    p.id ∈ props ∧ p.optional = (a.node p.id).optional ∧
      ∃ child, (a.node p.id).shape = .property p.name child := by
  obtain ⟨id, hid, hp⟩ := List.mem_filterMap.mp h
  split at hp
  · rename_i name child hshape
    cases hp
    exact ⟨hid, rfl, child, hshape⟩
  · cases hp

/-- Where names are different, a property is found by its name. -/
theorem find?_properties {props : List NodeId}
    (distinct : (Compile.declaredNames (a.properties props)).Nodup) {p : Arena.Property}
    (h : p ∈ a.properties props) : (a.properties props).find? (·.name = p.name) = some p := by
  rw [Compile.declaredNames] at distinct
  cases hfound : (a.properties props).find? (·.name = p.name) with
  | none => exact absurd (decide_eq_true rfl) (List.find?_eq_none.mp hfound p h)
  | some q =>
    have hname : q.name = p.name := by simpa using List.find?_some hfound
    rw [List.inj_on_of_nodup_map distinct (List.mem_of_find?_eq_some hfound) h hname]

/-- The steps of an object change each of its members as its name says. -/
theorem handles_memberSteps {props : List NodeId} {index : Option NodeId}
    (distinct : (Compile.declaredNames (a.properties props)).Nodup) :
    members.Handles (fun _ => true) (a.alterMember w revivers n props index)
      (Changed.inTurn (a.memberSteps (alter w revivers n) props index)) := by
  have hprops := Handles.inTurn (w := members) (g := a.alterMember w revivers n props index)
    (l := a.properties props) (f := fun p => alter w revivers n (a.unfolding p.id))
    (p := fun p k => k == p.name) (fun p hp => ?_) ?_
  rotate_left
  · obtain ⟨-, -, child, hshape⟩ := shape_of_mem_properties hp
    refine handles_property (label_of_property hshape).1 fun v => ?_
    rw [alterMember, find?_properties distinct hp]
  · refine (List.pairwise_map.mp distinct).imp fun hne k hk => ?_
    rw [eq_of_beq hk]
    exact beq_eq_false_iff_ne.mpr hne
  have hdeclared (k : String) : ((a.properties props).any fun p => k == p.name) =
      (Compile.declaredNames (a.properties props)).contains k := by
    rw [Compile.declaredNames, List.contains_eq_any_beq, List.any_map]
    rfl
  have hnone {k : String} (hk : (Compile.declaredNames (a.properties props)).contains k = false) :
      (a.properties props).find? (·.name = k) = none := by
    rw [← hdeclared, List.any_eq_false] at hk
    refine List.find?_eq_none.mpr fun p hp hname => hk p hp ?_
    rw [of_decide_eq_true hname]
    exact beq_self_eq_true k
  simp only [hdeclared] at hprops
  cases hindex : a.indexFilter index with
  | none =>
    rw [memberSteps, hindex, List.append_nil]
    refine hprops.all fun k v hk => ?_
    rw [alterMember, hnone hk, hindex]
  | some x =>
    obtain ⟨id, filter⟩ := x
    have hcovered := Handles.covered (g := a.alterMember w revivers n props index)
      (p := filter.covers (Compile.declaredNames (a.properties props)))
      (f := alter w revivers n (a.unfolding id)) fun k v hk => ?_
    rotate_left
    · obtain ⟨haccepts, hk⟩ := Bool.and_eq_true_iff.mp hk
      rw [alterMember, hnone (Bool.not_eq_eq_eq_not.mp hk), hindex]
      exact if_pos haccepts
    have hboth := hprops.andThen hcovered fun k hk => by rw [KeyFilter.covers, hk, Bool.not_true,
      Bool.and_false]
    have hsteps : Changed.inTurn (a.memberSteps (alter w revivers n) props index) =
        fun v => (Changed.inTurn ((a.properties props).map fun p =>
          alter w revivers n (a.unfolding p.id)) v).andThen (Value.changeCovered
            (filter.covers (Compile.declaredNames (a.properties props)))
              (alter w revivers n (a.unfolding id))) := by
      funext v
      rw [memberSteps, hindex, Changed.inTurn_append]
      congr 1
      exact funext fun v => Changed.inTurn_singleton _ v
    rw [hsteps]
    refine hboth.all fun k v hk => ?_
    obtain ⟨hk, hnot⟩ := Bool.or_eq_false_iff.mp hk
    rw [KeyFilter.covers, hk, Bool.not_false, Bool.and_true] at hnot
    rw [alterMember, hnone hk, hindex]
    exact if_neg (by rw [hnot]; exact Bool.false_ne_true)

/-! ## Tuples -/

/-- What becomes of an element of a tuple. -/
noncomputable def alterElement (a : Arena) (w : Way) (revivers : Revivers) (n : Nat)
    (tuple : List NodeId) (i : Nat) (v : Value) : Changed :=
  match (a.splitTuple tuple).1[i]? with
  | some id =>
    if (a.node id).optional && v.isUndefined then .done v else alter w revivers n (a.unfolding id) v
  | none =>
    match (a.splitTuple tuple).2 with
    | some id => alter w revivers n (a.unfolding id) v
    | none => .done v

/-- The steps of a tuple encode each of its elements as its number says. -/
theorem handles_elementSteps (tuple : List NodeId) :
    elements.Handles (fun _ => true) (a.alterElement .encode revivers n tuple)
      (Changed.inTurn (a.elementSteps .encode (alter .encode revivers n) tuple)) := by
  generalize hfixed : (a.splitTuple tuple).1 = fixed
  have hpositions := Handles.inTurn (w := elements) (g := a.alterElement .encode revivers n tuple)
    (l := fixed.zipIdx) (f := fun x => Value.changePresent (.element x.2) (a.node x.1).optional
      (alter .encode revivers n (a.unfolding x.1)))
    (p := fun x i => i == x.2) (fun x hx => ?_) ?_
  rotate_left
  · refine .element fun v => ?_
    simp only [alterElement, hfixed, List.mem_zipIdx_iff_getElem?.mp hx]
    rfl
  · have hnumbers : (fixed.zipIdx.map Prod.snd).Nodup := by
      rw [List.zipIdx_map_snd]
      exact List.nodup_range'
    refine (List.pairwise_map.mp hnumbers).imp fun hne k hk => ?_
    rw [eq_of_beq hk]
    exact beq_eq_false_iff_ne.mpr hne
  have hkeys (i : Nat) : (fixed.zipIdx.any fun x => i == x.2) = decide (i < fixed.length) := by
    have hmap := List.any_map (l := fixed.zipIdx) (f := Prod.snd) (p := (i == ·))
    rw [List.zipIdx_map_snd] at hmap
    refine hmap.symm.trans (Bool.eq_iff_iff.mpr ?_)
    simp
  simp only [hkeys] at hpositions
  have hsteps : a.elementSteps .encode (alter .encode revivers n) tuple =
      fixed.zipIdx.map (fun x => Value.changePresent (.element x.2) (a.node x.1).optional
        (alter .encode revivers n (a.unfolding x.1))) ++
      match (a.splitTuple tuple).2 with
      | some id => [Value.changeFrom fixed.length (alter .encode revivers n (a.unfolding id))]
      | none => [] := by
    rw [elementSteps, hfixed, List.map_eq_flatMap]
    rfl
  have hbehind {i : Nat} (hi : decide (i < fixed.length) = false) : fixed[i]? = none :=
    List.getElem?_eq_none (not_lt.mp (of_decide_eq_false hi))
  rw [hsteps]
  cases hrest : (a.splitTuple tuple).2 with
  | none =>
    rw [List.append_nil]
    refine hpositions.all fun i v hi => ?_
    simp only [alterElement, hfixed, hbehind hi, hrest]
  | some id =>
    have hothers := Handles.elementsFrom (g := a.alterElement .encode revivers n tuple)
      (s := fixed.length) (f := alter .encode revivers n (a.unfolding id)) fun i v hi => ?_
    rotate_left
    · simp only [alterElement, hfixed, List.getElem?_eq_none hi, hrest]
    have hboth := hpositions.andThen hothers fun i hi =>
      decide_eq_false (not_le.mpr (of_decide_eq_true hi))
    have hturn (v : Value) := Changed.inTurn_append (fixed.zipIdx.map fun x =>
      Value.changePresent (.element x.2) (a.node x.1).optional
        (alter .encode revivers n (a.unfolding x.1)))
      [Value.changeFrom fixed.length (alter .encode revivers n (a.unfolding id))] v
    simp only [show Changed.inTurn [Value.changeFrom fixed.length
      (alter .encode revivers n (a.unfolding id))] = _ from funext (Changed.inTurn_singleton _)]
      at hturn
    rw [funext hturn]
    refine hboth.all fun i v hi => ?_
    obtain ⟨hi, hnot⟩ := Bool.or_eq_false_iff.mp hi
    exact absurd (not_lt.mp (of_decide_eq_false hi)) (of_decide_eq_false hnot)

end Arena

end Typeforge
