/-
# `Typeforge.Proofs.Running.Transforms` — encoders and decoders do what their types do

An encoder or decoder leaves out what has nothing to change, and calls other
functions for types with functions of their own.  Whatever it comes to without
being cut off, the unfolded type comes to as well, at every depth from some
depth on that is the same for all values.

The order on results is flat: one that is cut off is below every other.  All
ways to change a whole by changing its parts respect it, which is what the
proof is made of.
-/
import Typeforge.Proofs.Members
import Typeforge.Proofs.Running.Tests
import Typeforge.Proofs.Types.Altered

namespace Typeforge

/-! ## Changes that may be cut off -/

namespace Changed

/-- Whether changes come to the same end as others, names of unions apart, or are cut off. -/
def Within (c d : Changed) : Prop := c.stop = some .cutOff ∨ c.unnamed = d

variable {c d : Changed} {f g : Value → Changed}

theorem Within.done (v : Value) : (done v).Within (done v) := .inr rfl

theorem Within.andThen (h : c.Within d) (hf : ∀ v, (f v).Within (g v)) :
    (c.andThen f).Within (d.andThen g) := by
  obtain ⟨value, stop⟩ := c
  rcases h with h | rfl
  · obtain rfl : stop = some .cutOff := h
    exact .inl rfl
  · cases stop with
    | none => exact hf value
    | some h => exact .inr rfl

theorem andThen_done (c : Changed) : c.andThen done = c := by
  obtain ⟨value, _ | h⟩ := c <;> rfl

theorem andThen_assoc (c : Changed) (f g : Value → Changed) :
    (c.andThen f).andThen g = c.andThen fun v => (f v).andThen g := by
  obtain ⟨value, _ | h⟩ := c <;> rfl

theorem inTurn_singleton (f : Value → Changed) (v : Value) : inTurn [f] v = f v :=
  andThen_done (f v)

theorem inTurn_append (fs gs : List (Value → Changed)) (v : Value) :
    inTurn (fs ++ gs) v = (inTurn fs v).andThen (inTurn gs) := by
  induction fs generalizing v with
  | nil => rfl
  | cons f fs ih =>
    simp only [List.cons_append, inTurn, andThen_assoc]
    congr 1
    funext w
    exact ih w

/-- Whether a way to change a whole by changing its parts keeps the order on results, and does
nothing where nothing is done to the parts. -/
structure Lifts (whole : (Value → Changed) → Value → Changed) : Prop where
  within {f g : Value → Changed} (h : ∀ v, (f v).Within (g v)) (v : Value) :
    (whole f v).Within (whole g v)
  done (v : Value) : whole done v = Changed.done v

end Changed

namespace Value

open Changed

variable {f g : Value → Changed}

theorem changeItems_done (items : List Value) : changeItems done items = (items, none) := by
  induction items with
  | nil => rfl
  | cons v rest ih => simp only [changeItems, done, ih]

theorem changeItems_within (h : ∀ v, (f v).Within (g v)) (items : List Value) :
    (changeItems f items).2 = some .cutOff ∨ changeItems g items =
      ((changeItems f items).1, (changeItems f items).2.map Halt.unnamed) := by
  induction items with
  | nil => exact .inr rfl
  | cons v rest ih =>
    have hv := h v
    cases hf : f v with
    | mk w stop =>
      rw [hf] at hv
      cases stop with
      | some halt =>
        rcases hv with hv | hv
        · exact .inl (by simpa only [changeItems, hf] using hv)
        · refine .inr ?_
          simp only [changeItems, hf, ← hv, unnamed, Option.map_some]
      | none =>
        rcases hv with hv | hv
        · cases hv
        · simp only [changeItems, hf, ← hv, unnamed, Option.map_none]
          rcases ih with ih | ih
          · exact .inl ih
          · exact .inr (by rw [ih])

theorem changeMembers_done (chosen : String → Bool) (members : List (String × Value)) :
    changeMembers chosen done members = (members, none) := by
  induction members with
  | nil => rfl
  | cons m rest ih =>
    obtain ⟨k, v⟩ := m
    simp only [changeMembers, done, ih, ite_self]

theorem changeMembers_within (chosen : String → Bool) (h : ∀ v, (f v).Within (g v))
    (members : List (String × Value)) :
    (changeMembers chosen f members).2 = some .cutOff ∨ changeMembers chosen g members =
      ((changeMembers chosen f members).1,
        (changeMembers chosen f members).2.map Halt.unnamed) := by
  induction members with
  | nil => exact .inr rfl
  | cons m rest ih =>
    obtain ⟨k, v⟩ := m
    cases hk : chosen k with
    | false =>
      simp only [changeMembers, hk, Bool.false_eq_true, if_false]
      rcases ih with ih | ih
      · exact .inl ih
      · exact .inr (by rw [ih])
    | true =>
      have hv := h v
      cases hf : f v with
      | mk w stop =>
        rw [hf] at hv
        cases stop with
        | some halt =>
          rcases hv with hv | hv
          · exact .inl (by simpa only [changeMembers, hk, hf, if_true] using hv)
          · refine .inr ?_
            simp only [changeMembers, hk, hf, ← hv, unnamed, Option.map_some, if_true]
        | none =>
          rcases hv with hv | hv
          · cases hv
          · simp only [changeMembers, hk, hf, ← hv, unnamed, Option.map_none, if_true]
            rcases ih with ih | ih
            · exact .inl ih
            · exact .inr (by rw [ih])

theorem lifts_changeFrom (start : Nat) : Lifts (changeFrom start) where
  within h v := by
    cases v with
    | array items =>
      rcases changeItems_within h (items.drop start) with hcut | heq
      · exact .inl hcut
      · refine .inr ?_
        simp only [changeFrom, heq, unnamed]
    | _ => exact .done _
  done v := by
    cases v with
    | array items =>
      simp only [changeFrom, changeItems_done, List.take_append_drop]
      rfl
    | _ => rfl

theorem lifts_changeCovered (covers : String → Bool) : Lifts (changeCovered covers) where
  within h v := by
    cases v with
    | object members =>
      rcases changeMembers_within covers h members with hcut | heq
      · exact .inl hcut
      · refine .inr ?_
        simp only [changeCovered, heq, unnamed]
    | _ => exact .done _
  done v := by
    cases v with
    | object members =>
      simp only [changeCovered, changeMembers_done]
      rfl
    | _ => rfl

theorem lifts_changePart (access : Access) : Lifts (changePart access) where
  within {f g} h v := by
    have hpart (w : Value) (whole : Value → Value) :
        (Changed.mk (whole (f w).value) (f w).stop).Within
          ⟨whole (g w).value, (g w).stop⟩ := by
      rcases h w with hcut | heq
      · exact .inl hcut
      · refine .inr ?_
        rw [← heq]
        rfl
    cases access with
    | member name =>
      cases v with
      | object members =>
        simp only [changePart]
        cases Members.get? name members with
        | none => exact .done _
        | some w => exact hpart w fun x => object (Members.update name (fun _ => x) members)
      | _ => exact .done _
    | element i =>
      cases v with
      | array items =>
        simp only [changePart]
        cases items[i]? with
        | none => exact .done _
        | some w => exact hpart w fun x => array (items.set i x)
      | _ => exact .done _
  done v := by
    cases access with
    | member name =>
      cases v with
      | object members =>
        simp only [changePart]
        cases h : Members.get? name members with
        | none => rfl
        | some w => simp only [Changed.done, Members.update_get? h]
      | _ => rfl
    | element i =>
      cases v with
      | array items =>
        simp only [changePart]
        cases h : items[i]? with
        | none => rfl
        | some w =>
          obtain ⟨hi, rfl⟩ := List.getElem?_eq_some_iff.mp h
          simp only [Changed.done, List.set_getElem_self]
      | _ => rfl

theorem lifts_changePresent (access : Access) (optional : Bool) :
    Lifts (changePresent access optional) where
  within h v := (lifts_changePart access).within (fun w => by
    cases optional && w.isUndefined with
    | true => exact .done w
    | false => exact h w) v
  done v := by
    simp only [changePresent, ite_self]
    exact (lifts_changePart access).done v

end Value

theorem Codec.unnamed_of_decode {codec : Codec} {v : Value} {e : RunError}
    (h : codec.decode v = .error e) : e.unnamed = e := by
  unfold Codec.decode at h
  split at h
  · cases h
  · cases h
  · split at h
    · cases h
    · cases h
      rfl
  · cases h
    rfl

/-! ## Code and the changes it makes -/

namespace Transform

variable {x : Context}

/-- Whether code makes the changes of a list, unless it is cut off. -/
def Does (x : Context) (body : List Transform) (fs : List (Value → Changed)) : Prop :=
  ∀ v, (runAll x body v).Within (Changed.inTurn fs v)

theorem runAll_append (x : Context) (body others : List Transform) (v : Value) :
    runAll x (body ++ others) v = (runAll x body v).andThen (runAll x others) := by
  induction body generalizing v with
  | nil => rfl
  | cons t body ih =>
    simp only [List.cons_append, runAll, Changed.andThen_assoc]
    congr 1
    funext w
    exact ih w

theorem runAll_singleton (x : Context) (t : Transform) (v : Value) :
    runAll x [t] v = t.run x v := by
  simp only [runAll]
  exact Changed.andThen_done _

namespace Does

variable {body others : List Transform} {fs gs : List (Value → Changed)} {g : Value → Changed}

theorem nil : Does x [] [] := .done

theorem append (h : Does x body fs) (h' : Does x others gs) :
    Does x (body ++ others) (fs ++ gs) := by
  intro v
  rw [runAll_append, Changed.inTurn_append]
  exact (h v).andThen h'

theorem of_within (h : ∀ v, (runAll x body v).Within (g v)) : Does x body [g] := by
  intro v
  rw [Changed.inTurn_singleton]
  exact h v

theorem single {t : Transform} (h : ∀ v, (t.run x v).Within (g v)) : Does x [t] [g] :=
  of_within fun v => by
    rw [runAll_singleton]
    exact h v

/-- Code for a part, if there is any, in code for the whole. -/
theorem unlessEmpty {wrap : List Transform → Transform}
    {whole : (Value → Changed) → Value → Changed} (lifts : Changed.Lifts whole)
    (hwrap : ∀ v, (wrap body).run x v = whole (runAll x body) v)
    (h : ∀ v, (runAll x body v).Within (g v)) :
    Does x (Compile.unlessEmpty body wrap) [whole g] := by
  cases body with
  | nil =>
    refine of_within fun v => ?_
    have hwhole := lifts.within h v
    rwa [show runAll x [] = Changed.done from rfl, lifts.done v] at hwhole
  | cons t body =>
    refine single fun v => ?_
    rw [hwrap]
    exact lifts.within h v

theorem part (access : Access) (optional : Bool) (h : ∀ v, (runAll x body v).Within (g v)) :
    Does x (Compile.unlessEmpty body (.part access optional))
      [Value.changePresent access optional g] :=
  unlessEmpty (Value.lifts_changePresent access optional) (fun _ => rfl) h

theorem each (start : Nat) (h : ∀ v, (runAll x body v).Within (g v)) :
    Does x (Compile.unlessEmpty body (.each start)) [Value.changeFrom start g] :=
  unlessEmpty (Value.lifts_changeFrom start) (fun _ => rfl) h

theorem eachKey (filter : KeyFilter) (skip : List String)
    (h : ∀ v, (runAll x body v).Within (g v)) :
    Does x (Compile.unlessEmpty body (.eachKey filter skip))
      [Value.changeCovered (filter.covers skip) g] :=
  unlessEmpty (Value.lifts_changeCovered _) (fun _ => rfl) h

end Does

/-! ## The code of nodes -/

section Nodes

variable {a : Arena} {w : Way} {revivers : Revivers} {f : TypeTree → Value → Changed}
  {child : NodeId → List Transform → Prop} {id : NodeId} {body : List Transform}

/-- The code of children does what their types do. -/
abbrev ChildrenDo (x : Context) (a : Arena) (child : NodeId → List Transform → Prop)
    (f : TypeTree → Value → Changed) : Prop :=
  ∀ id body, child id body → ∀ v, (runAll x body v).Within (f (a.unfolding id) v)

theorem does_declared (hchild : ChildrenDo x a child f) {props : List Arena.Property}
    {declared : List (List Transform)}
    (hdeclared : List.Forall₂ (fun p body => child p.id body) props declared) :
    Does x declared.flatten (props.map fun p => f (a.unfolding p.id)) := by
  induction hdeclared with
  | nil => exact .nil
  | cons hbody _ ih => exact .append (.of_within (hchild _ _ hbody)) ih

theorem does_object (hchild : ChildrenDo x a child f) {props : List NodeId}
    {index : Option NodeId} (h : Compile.ObjectTransform a child props index body) :
    Does x body (a.memberSteps f props index) := by
  cases h with
  | mk hdeclared hothers =>
    refine .append (does_declared hchild hdeclared) ?_
    cases hothers with
    | absent hindex =>
      rw [hindex]
      exact .nil
    | present hindex hbody =>
      rw [hindex]
      exact .eachKey _ _ (hchild _ _ hbody)

theorem does_elements (hchild : ChildrenDo x a child f) {before : NodeId → Nat → List Transform}
    (hbefore : ∀ id i, Does x (before id i) (w.restore (a.slot id) i)) {xs : List (NodeId × Nat)}
    {elements : List (List Transform)}
    (helements : List.Forall₂ (fun x out => ∃ body, child x.1 body ∧ out = before x.1 x.2 ++
      Compile.unlessEmpty body (.part (.element x.2) (a.node x.1).optional)) xs elements) :
    Does x elements.flatten (xs.flatMap fun x => w.restore (a.slot x.1) x.2 ++
      [Value.changePresent (.element x.2) (a.node x.1).optional (f (a.unfolding x.1))]) := by
  induction helements with
  | nil => exact .nil
  | cons hout _ ih =>
    obtain ⟨body, hbody, rfl⟩ := hout
    exact .append (.append (hbefore _ _) (.part _ _ (hchild _ _ hbody))) ih

theorem does_tuple (hchild : ChildrenDo x a child f) {before : NodeId → Nat → List Transform}
    (hbefore : ∀ id i, Does x (before id i) (w.restore (a.slot id) i)) {members : List NodeId}
    (h : Compile.TupleTransform a before child members body) :
    Does x body (a.elementSteps w f members) := by
  cases h with
  | mk hsplit helements hothers =>
    simp only [Arena.elementSteps, hsplit]
    refine .append (does_elements hchild hbefore helements) ?_
    cases hothers with
    | absent hrest =>
      rw [hrest]
      exact .nil
    | present hrest hbody =>
      rw [hrest]
      exact .each _ (hchild _ _ hbody)

theorem runTagged_within (hchild : ChildrenDo x a child f) {check : NodeId → Check → Prop}
    (hcheck : ∀ id c, check id c → ∀ v b, x.check c v = some b → Judges (a.unfolding id) v b)
    {members : List NodeId} {arms : List (Check × List Transform)}
    (harms : List.Forall₂ (fun id arm => check id arm.1 ∧ child id arm.2) members arms)
    (union : String) (i : Nat) (v : Value) :
    (runTagged x union i arms v).Within (TypeTree.tagFirst f v i (members.map a.unfolding)) := by
  induction harms generalizing i with
  | nil =>
    simp only [runTagged, List.map_nil, TypeTree.tagFirst]
    exact .inr rfl
  | @cons id arm members arms harm _ ih =>
    obtain ⟨check, body⟩ := arm
    obtain ⟨hcheckArm, hbody⟩ := harm
    simp only [runTagged, List.map_cons, TypeTree.tagFirst]
    cases hc : x.check check v with
    | none => exact .inl rfl
    | some b =>
      have hjudges := hcheck _ _ hcheckArm v b hc
      cases b with
      | true =>
        rw [if_pos hjudges]
        exact (hchild _ _ hbody v).andThen fun w => .done _
      | false =>
        rw [if_neg fun h => h.not_both hjudges]
        exact ih (i + 1)

theorem runArm_within (hchild : ChildrenDo x a child f) {members : List NodeId}
    {arms : List (List Transform)} (harms : List.Forall₂ child members arms) (i : Nat)
    (v : Value) :
    (runArm x i arms v = none ∧ members[i]? = none) ∨
      ∃ c id, runArm x i arms v = some c ∧ members[i]? = some id ∧
        c.Within (f (a.unfolding id) v) := by
  induction harms generalizing i with
  | nil =>
    refine .inl ⟨?_, rfl⟩
    cases i <;> simp only [runArm]
  | @cons id body members arms hbody _ ih =>
    cases i with
    | zero =>
      refine .inr ⟨_, id, ?_, rfl, hchild _ _ hbody v⟩
      simp only [runArm]
    | succ i =>
      simp only [runArm, List.getElem?_cons_succ]
      exact ih i

theorem untag_within (hchild : ChildrenDo x a child f) {members : List NodeId}
    {arms : List (List Transform)} (harms : List.Forall₂ child members arms) (v : Value) :
    ((untag arms).run x v).Within (TypeTree.untagged f (members.map a.unfolding) v) := by
  by_cases hv : ∃ n inner, v = .array [.number n, inner]
  · obtain ⟨n, inner, rfl⟩ := hv
    simp only [run, TypeTree.untagged]
    cases tagNumber? n with
    | none => exact .inr rfl
    | some i =>
      dsimp only
      rw [List.getElem?_map]
      rcases runArm_within hchild harms i inner with ⟨hrun, hmember⟩ | ⟨c, id, hrun, hmember, hc⟩
      · rw [hrun, hmember, Option.map_none, List.length_map, harms.length_eq]
        exact .inr rfl
      · rw [hrun, hmember, Option.map_some]
        dsimp only
        obtain ⟨w, stop⟩ := c
        rcases hc with hc | hc
        · obtain rfl : stop = some .cutOff := hc
          exact .inl rfl
        · rw [← hc]
          cases stop <;> exact .inr rfl
  · have hne : ∀ n inner, v ≠ .array [.number n, inner] := fun n inner h => hv ⟨n, inner, h⟩
    have hrun : (untag arms).run x v = .failed v (.decode "union tag" (.kind v.kindName)) := by
      rw [run]
      exact hne
    have huntagged : TypeTree.untagged f (members.map a.unfolding) v =
        .failed v (.decode "union tag" (.kind v.kindName)) := by
      rw [TypeTree.untagged]
      exact hne
    rw [hrun, huntagged]
    exact .inr rfl

/-- The encoder of a node does what encoding its type does, if those of its children do. -/
theorem does_encodeNode (hchild : ChildrenDo x a child f) {check : NodeId → Check → Prop}
    (hcheck : ∀ id c, check id c → ∀ v b, x.check c v = some b → Judges (a.unfolding id) v b)
    (hself : (a.node id).standsFor? = none)
    (h : Compile.EncodeNode a check child (a.node id) body) :
    Does x body ((a.unfolding id).steps .encode revivers f) := by
  cases h with
  | @atom y h never =>
    rw [Arena.steps_atom h never]
    cases y.codec? with
    | none => exact .nil
    | some codec => exact .single fun v => .done _
  | array h hbody =>
    rw [Arena.steps_array h]
    exact .each 0 (hchild _ _ hbody)
  | property h hbody =>
    rw [Arena.steps_property h]
    exact .part _ _ (hchild _ _ hbody)
  | standsFor h hbody =>
    rw [hself] at h
    cases h
  | object h hbody =>
    rw [Arena.steps_object h]
    exact List.append_nil body ▸ .append (does_object hchild hbody) .nil
  | tuple h hbody =>
    rw [Arena.steps_tuple h]
    exact does_tuple hchild (fun _ _ => .nil) hbody
  | union h harms =>
    rw [Arena.steps_union h]
    exact .single fun v => runTagged_within hchild hcheck harms _ 0 v

/-- The decoder of a node does what decoding its type does, if those of its children do. -/
theorem does_decodeNode (hchild : ChildrenDo x a child f) (hself : (a.node id).standsFor? = none)
    (h : Compile.DecodeNode a child (a.node id) body) :
    Does x body ((a.unfolding id).steps .decode x.revivers f) := by
  cases h with
  | @atom y h never =>
    rw [Arena.steps_atom h never]
    cases y.codec? with
    | none => exact .nil
    | some codec =>
      refine .single fun v => ?_
      simp only [run, Way.carry]
      cases hdecode : codec.decode v with
      | ok w => exact .done w
      | error e =>
        refine .inr ?_
        simp only [Changed.failed, Changed.unnamed, Option.map_some, Halt.unnamed,
          Codec.unnamed_of_decode hdecode]
  | array h hbody =>
    rw [Arena.steps_array h]
    exact .each 0 (hchild _ _ hbody)
  | property h hbody =>
    rw [Arena.steps_property h]
    exact .part _ _ (hchild _ _ hbody)
  | standsFor h hbody =>
    rw [hself] at h
    cases h
  | @object props index className body h hbody =>
    rw [Arena.steps_object h]
    refine .append (does_object hchild hbody) ?_
    cases className with
    | none => exact .nil
    | some name =>
      refine .single fun v => ?_
      simp only [run]
      cases Members.get? name x.revivers with
      | none => exact .inr rfl
      | some reviver => exact .done _
  | tuple h hbody =>
    rw [Arena.steps_tuple h]
    refine does_tuple hchild (fun id i => ?_) hbody
    simp only [Compile.absence, Arena.slot]
    cases a.nullMeansAbsent id with
    | false => exact .nil
    | true =>
      refine .single fun v => ?_
      simp only [run]
      exact (Value.lifts_changePart _).within (fun w => .done _) v
  | union h harms =>
    rw [Arena.steps_union h]
    exact .single fun v => untag_within hchild harms v

end Nodes

end Transform

/-! ## Calls -/

namespace Way

/-- The target whose functions go a way. -/
def target : Way → Target
  | encode => .jsonEncode
  | decode => .jsonDecode

def language : Way → Language (List Transform)
  | encode => Compile.encoders
  | decode => Compile.decoders

theorem plain?_language (w : Way) (n : Node) :
    w.language.plain? n = if n.needs w then none else some [] := by
  cases w <;> rfl

theorem plain?_eq_none {w : Way} {n : Node} (h : w.language.plain? n = none) :
    n.needs w = true := by
  rw [plain?_language] at h
  by_contra hneeds
  rw [if_neg hneeds] at h
  cases h

theorem plain?_eq_some {w : Way} {n : Node} {body : List Transform}
    (h : w.language.plain? n = some body) : n.needs w ≠ true ∧ body = [] := by
  rw [plain?_language] at h
  split at h
  · cases h
  · rename_i hneeds
    cases h
    exact ⟨hneeds, rfl⟩

/-- The code of a node for a way, over that of its children at a depth. -/
def CodeNode (a : Arena) (known : Keys) (depth : Nat) : Way → Node → List Transform → Prop
  | encode => Compile.EncodeNode a (Compile.CheckAt a known depth) (Compile.EncodeAt a known depth)
  | decode => Compile.DecodeNode a (Compile.DecodeAt a known depth)

/-- What a visit at a depth gives for a way. -/
def CodeAt (a : Arena) (known : Keys) : Way → Nat → NodeId → List Transform → Prop
  | encode => Compile.EncodeAt a known
  | decode => Compile.DecodeAt a known

variable {w : Way} {a : Arena} {known : Keys} {depth : Nat} {id : NodeId} {body : List Transform}

theorem CodeNode.of_standsFor {n : Node} {child : NodeId} (h : n.standsFor? = some child)
    (hbody : w.CodeNode a known depth n body) : w.CodeAt a known depth child body := by
  cases w with
  | encode =>
    cases hbody with
    | standsFor h' hbody =>
      rw [h] at h'
      cases h'
      exact hbody
    | atom h' | array h' | property h' | object h' | tuple h' | union h' =>
      simp only [Node.standsFor?, h', reduceCtorEq] at h
  | decode =>
    cases hbody with
    | standsFor h' hbody =>
      rw [h] at h'
      cases h'
      exact hbody
    | atom h' | array h' | property h' | object h' | tuple h' | union h' =>
      simp only [Node.standsFor?, h', reduceCtorEq] at h

theorem CodeAt.visited (h : w.CodeAt a known depth id body) :
    w.language.Visited known
      (fun n body => ∃ below, depth = below + 1 ∧ w.CodeNode a known below n body) []
      (a.node id) body := by
  cases w with
  | encode | decode =>
    cases depth with
    | zero => exact Language.Visited.imp le_rfl (fun _ h => h.elim) h
    | succ below => exact Language.Visited.imp le_rfl (fun _ h => ⟨below, rfl, h⟩) h

end Way

namespace Transform

variable {x : Context} {w : Way} {a : Arena} {known : Keys}

/-- The functions that are known to be registered do what their types do at any depth from `n`
on. -/
abbrev CallsDo (x : Context) (w : Way) (a : Arena) (known : Keys) (n : Nat) : Prop :=
  ∀ id, known ⟨(a.node id).identity, w.target⟩ → ∀ m, n ≤ m → ∀ v,
    (x.call (a.node id).identity v).Within (TypeTree.alter w x.revivers m (a.unfolding id) v)

/-- The tests of nodes at any depth judge as the types of the nodes do. -/
abbrev ChecksJudge (x : Context) (a : Arena) (known : Keys) : Prop :=
  ∀ depth id c, Compile.CheckAt a known depth id c → ∀ v b, x.check c v = some b →
    Judges (a.unfolding id) v b

/-- The code of a node without needs does what its type does. -/
theorem within_plain {m : Nat} {id : NodeId} {body : List Transform} (marked : a.Marked)
    (h : w.language.plain? (a.node id) = some body) (hm : 0 < m) (v : Value) :
    (runAll x body v).Within (TypeTree.alter w x.revivers m (a.unfolding id) v) := by
  obtain ⟨hneeds, rfl⟩ := Way.plain?_eq_some h
  obtain ⟨m, rfl⟩ : ∃ k, m = k + 1 := ⟨m - 1, by omega⟩
  rw [TypeTree.alter_of_not_needs (mt (marked id w).mpr hneeds)]
  exact .done v

/-- What a node is compiled to does what its type does, one level deeper than its children. -/
theorem within_node {depth n m : Nat} {id : NodeId} {body : List Transform} (marked : a.Marked)
    (hcheck : ChecksJudge x a known) (hplain : w.language.plain? (a.node id) = none)
    (hat : ∀ id body, w.CodeAt a known depth id body → ∀ m, n ≤ m → ∀ v,
      (runAll x body v).Within (TypeTree.alter w x.revivers m (a.unfolding id) v))
    (h : w.CodeNode a known depth (a.node id) body) (hm : n < m) (v : Value) :
    (runAll x body v).Within (TypeTree.alter w x.revivers m (a.unfolding id) v) := by
  cases hself : (a.node id).standsFor? with
  | some child =>
    rw [Arena.unfolding_of_standsFor hself]
    exact hat child body (h.of_standsFor hself) m hm.le v
  | none =>
    obtain ⟨m, rfl⟩ : ∃ k, m = k + 1 := ⟨m - 1, by omega⟩
    rw [TypeTree.alter_of_needs ((marked id w).mp (Way.plain?_eq_none hplain))]
    have hchild : ∀ id body, w.CodeAt a known depth id body → ∀ v,
        (runAll x body v).Within (TypeTree.alter w x.revivers m (a.unfolding id) v) :=
      fun id body hbody => hat id body hbody m (Nat.le_of_lt_succ hm)
    cases w with
    | encode => exact does_encodeNode hchild (hcheck depth) hself h v
    | decode => exact does_decodeNode hchild hself h v

theorem within_at {n : Nat} (marked : a.Marked) (hcheck : ChecksJudge x a known)
    (hcall : CallsDo x w a known n) {depth : Nat} {id : NodeId} {body : List Transform}
    (h : w.CodeAt a known depth id body) {m : Nat} (hm : n + depth < m) (v : Value) :
    (runAll x body v).Within (TypeTree.alter w x.revivers m (a.unfolding id) v) := by
  induction depth using Nat.strong_induction_on generalizing id body m v with
  | _ depth ih =>
    cases h.visited with
    | plain hplain => exact within_plain marked hplain (by omega) v
    | called _ hknown =>
      have hcode : w.language.call (a.node id).identity [] = [.call (a.node id).identity] := by
        cases w <;> rfl
      rw [hcode, runAll_singleton]
      refine hcall id ?_ m (by omega) v
      cases w <;> exact hknown
    | inPlace hplain hbody =>
      obtain ⟨below, rfl, hnode⟩ := hbody
      refine within_node (n := n + below + 1) marked hcheck hplain ?_ hnode (by omega) v
      exact fun id body hbody k hk v => ih below (by omega) hbody (by omega) v

end Transform

namespace Program

variable {arenas : Set Arena} {a : Arena} {r : Registry} {limit : Nat} (revivers : Revivers)

/-- The encoder or decoder registered under an identity is compiled from a node of that
identity. -/
theorem transform_of_registered (filled : r.FilledFrom arenas limit) (ha : a ∈ arenas)
    {id : NodeId} {w : Way} (hkey : ⟨(a.node id).identity, w.target⟩ ∈ r.keys) :
    ∃ body, ∃ b ∈ arenas, ∃ node depth, depth ≤ limit ∧ b.unfolding node = a.unfolding id ∧
      w.language.Entered (w.CodeNode b (r.contains · = true) depth) (b.node node) body ∧
      ∀ steps v, (Program.mk r.functions revivers).transformCall w.target (steps + 1)
          (a.node id).identity v =
        Transform.runAll ⟨(Program.mk r.functions revivers).check, revivers,
          (Program.mk r.functions revivers).transformCall w.target steps⟩ body v := by
  obtain ⟨f, hf, hbody, b, hb, _, hof⟩ := body?_of_mem revivers filled hkey
  have htree (m : NodeId) (h : (b.node m).identity = (a.node id).identity) :
      b.unfolding m = a.unfolding id := filled.faithful b hb a ha m id h
  simp only [transformCall, hbody]
  cases w with
  | encode =>
    cases hof with
    | jsonEncode hdepth h =>
      exact ⟨_, b, hb, _, _, hdepth, htree _ (congrArg FunctionKey.identity hf), h,
        fun _ _ => rfl⟩
    | isType | typeErrors | jsonDecode | jsonStringify =>
      exact nomatch congrArg FunctionKey.target hf
  | decode =>
    cases hof with
    | jsonDecode hdepth h =>
      exact ⟨_, b, hb, _, _, hdepth, htree _ (congrArg FunctionKey.identity hf), h,
        fun _ _ => rfl⟩
    | isType | typeErrors | jsonEncode | jsonStringify =>
      exact nomatch congrArg FunctionKey.target hf

/-- Calls of registered encoders and decoders do what the types of their nodes do. -/
theorem within_transformCall (filled : r.FilledFrom arenas limit) (marked : ∀ a ∈ arenas, a.Marked)
    (ha : a ∈ arenas) {w : Way} (steps : Nat) {id : NodeId}
    (hkey : ⟨(a.node id).identity, w.target⟩ ∈ r.keys)
    {m : Nat} (hm : steps * (limit + 2) ≤ m) (v : Value) :
    ((Program.mk r.functions revivers).transformCall w.target steps (a.node id).identity v).Within
      (TypeTree.alter w revivers m (a.unfolding id) v) := by
  induction steps generalizing a id m v with
  | zero => exact .inl rfl
  | succ steps ih =>
    obtain ⟨body, other, hother, node, depth, hdepth, htree, hentered, hrun⟩ :=
      transform_of_registered revivers filled ha hkey
    have hmarked := marked other hother
    rw [hrun, ← htree]
    rw [Nat.succ_mul] at hm
    cases hentered with
    | plain hplain => exact Transform.within_plain hmarked hplain (by omega) v
    | inPlace hplain hnode =>
      have hcheck : Transform.ChecksJudge ⟨(Program.mk r.functions revivers).check, revivers,
          (Program.mk r.functions revivers).transformCall w.target steps⟩ other
          (r.contains · = true) :=
        fun _ _ _ hc v b => judges_of_check revivers filled hother hc v b
      refine Transform.within_node (n := steps * (limit + 2) + depth + 1) hmarked hcheck hplain ?_
        hnode (by omega) v
      intro id body hbody k hk v
      refine Transform.within_at (n := steps * (limit + 2)) hmarked hcheck ?_ hbody (by omega) v
      exact fun id hknown m hm v => ih hother (Registry.contains_iff.mp hknown) hm v

/-- **A registered encoder or decoder does what its type does**, at every depth from some depth
on, on all values on which it is not cut off. -/
theorem within_transform (filled : r.FilledFrom arenas limit) (marked : ∀ a ∈ arenas, a.Marked)
    (ha : a ∈ arenas) {w : Way} {id : NodeId}
    (hkey : ⟨(a.node id).identity, w.target⟩ ∈ r.keys) (v : Value) :
    ∃ n, ∀ m, n ≤ m →
      ((Program.mk r.functions revivers).transform (a.node id).identity w.target v).Within
        (TypeTree.alter w revivers m (a.unfolding id) v) :=
  ⟨_, fun _ hm => within_transformCall revivers filled marked ha _ hkey hm v⟩

end Program

end Typeforge
