/-
# `Typeforge.Proofs.Running.Making` — what encoders and decoders make of a value

It is one thing what code comes to when it ends, and another that it ends.  Here both
are told at once: `Registry.Makes` says of all code for a type that it does
something, calls included, as long as there may be at least so many calls inside one
another.

A type has code in two places: where a node of it is compiled in place, and in the
function registered for its identity.  Only the second costs a call.  So what the code
of nodes makes, from some bound on, all code for the type makes from the next bound
on, and from the same bound on where no function is registered.
-/
import Typeforge.Proofs.Running.Filling
import Typeforge.Proofs.Running.Judging
import Typeforge.Proofs.Types.Portable

namespace Typeforge

/-! ## What code for a type makes -/

namespace Registry

/-- The program of a registry. -/
abbrev program (r : Registry) (revivers : Revivers) : Program := ⟨r.functions, revivers⟩

/-- What encoders and decoders rest on, with as many nested calls as a bound says. -/
def context (r : Registry) (revivers : Revivers) (w : Way) (k : Nat) : Transform.Context :=
  ⟨(r.program revivers).check, revivers, (r.program revivers).transformCall w.target k⟩

/-- What the functions of a registry need for carrying the instances of types. -/
structure Serves (r : Registry) (a : Arena) (revivers : Revivers) (limit : Nat) : Prop where
  faithful : a.Faithful
  marked : a.Marked
  carriable : a.Carriable
  grounded : r.Grounded a limit
  /-- Each class has a reviver that returns its argument. -/
  revives : ∀ id props index name, (a.node id).shape = .object props index (some name) →
    ∃ f, Members.get? name revivers = some f ∧ ∀ v, f v = v

variable (r : Registry) (a : Arena) (revivers : Revivers) {limit : Nat} {w : Way} {K K' : Nat}
  {t : TypeTree} {P : (Value → Changed) → Prop}

/-- All code for a type does something, with at least as many nested calls as a bound says. -/
def Makes (K : Nat) (w : Way) (t : TypeTree) (P : (Value → Changed) → Prop) : Prop :=
  ∀ k, K ≤ k → ∀ depth id body, a.unfolding id = t →
    w.CodeAt a (r.contains · = true) depth id body →
    P (Transform.runAll (r.context revivers w k) body)

/-- All code that nodes of a type are compiled to themselves does something. -/
def NodesMake (K : Nat) (w : Way) (t : TypeTree) (P : (Value → Changed) → Prop) : Prop :=
  t.Needs w → ∀ k, K ≤ k → ∀ depth id body, (a.node id).standsFor? = none → a.unfolding id = t →
    w.CodeNode a (r.contains · = true) depth (a.node id) body →
    P (Transform.runAll (r.context revivers w k) body)

variable {r a revivers}

theorem Makes.mono (h : r.Makes a revivers K w t P) (hK : K ≤ K') :
    r.Makes a revivers K' w t P :=
  fun k hk => h k (hK.trans hk)

/-- The function registered for an identity, as the code of a node that stands for itself. -/
theorem Serves.exists_code (serves : r.Serves a revivers limit) {id : NodeId}
    (hkey : ⟨(a.node id).identity, w.target⟩ ∈ r.keys) :
    (a.node id).identity ∈ (r.program revivers).names ∧ ∃ node depth body,
      (a.node node).standsFor? = none ∧ a.unfolding node = a.unfolding id ∧
      w.language.Entered (w.CodeNode a (r.contains · = true) depth) (a.node node) body ∧
      ∀ k, (r.program revivers).transformCall w.target (k + 1) (a.node id).identity =
        Transform.runAll (r.context revivers w k) body := by
  obtain ⟨f, hf, hbody, node, hself, hof, htree⟩ :=
    Program.exists_grounded revivers serves.faithful serves.grounded hkey
  refine ⟨Program.mem_names hbody, node, ?_⟩
  have hrun (k : Nat) {body : List Transform} (h : f.body = .jsonEncode body ∨ f.body = .jsonDecode body) :
      (r.program revivers).transformCall w.target (k + 1) (a.node id).identity =
        Transform.runAll (r.context revivers w k) body := by
    funext v
    rw [Program.transformCall, hbody]
    rcases h with h | h <;> rw [h] <;> rfl
  cases w with
  | encode =>
    cases hof with
    | jsonEncode _ h =>
      exact ⟨_, _, hself, htree (congrArg FunctionKey.identity hf), h, fun k => hrun k (.inl rfl)⟩
    | isType | typeErrors | jsonDecode | jsonStringify => cases congrArg FunctionKey.target hf
  | decode =>
    cases hof with
    | jsonDecode _ h =>
      exact ⟨_, _, hself, htree (congrArg FunctionKey.identity hf), h, fun k => hrun k (.inr rfl)⟩
    | isType | typeErrors | jsonEncode | jsonStringify => cases congrArg FunctionKey.target hf

/-- What the code of nodes makes, calls make as well, with one more nested call. -/
theorem Serves.makes (serves : r.Serves a revivers limit) (hK : K ≤ K')
    (called : ∀ id, a.unfolding id = t → (a.node id).identity ∈ (r.program revivers).names → K < K')
    (plain : ¬ t.Needs w → P Changed.done) (nodes : r.NodesMake a revivers K w t P) :
    r.Makes a revivers K' w t P := by
  intro k hk depth
  induction depth using Nat.strong_induction_on with
  | _ depth ih =>
    intro id body htree hcode
    have needs (h : w.language.plain? (a.node id) = none) : t.Needs w :=
      htree ▸ (serves.marked id w).mp (Way.plain?_eq_none h)
    cases hcode.visited with
    | plain hplain =>
      obtain ⟨hneeds, rfl⟩ := Way.plain?_eq_some hplain
      exact plain (htree ▸ mt (serves.marked id w).mpr hneeds)
    | called _ hknown =>
      have hcall : w.language.call (a.node id).identity [] = [.call (a.node id).identity] := by
        cases w <;> rfl
      have hkey : ⟨(a.node id).identity, w.target⟩ ∈ r.keys := by
        cases w <;> exact Registry.contains_iff.mp hknown
      obtain ⟨hname, node, depth, code, hself, hnode, hentered, hrun⟩ := serves.exists_code hkey
      obtain ⟨k, rfl⟩ : ∃ j, k = j + 1 := ⟨k - 1, by have := called id htree hname; omega⟩
      have hcode : Transform.runAll (r.context revivers w (k + 1)) [.call (a.node id).identity] =
          Transform.runAll (r.context revivers w k) code := by
        funext v
        rw [Transform.runAll_singleton, ← hrun]
        rfl
      rw [hcall, hcode]
      cases hentered with
      | plain hplain =>
        obtain ⟨hneeds, rfl⟩ := Way.plain?_eq_some hplain
        exact plain (htree ▸ hnode ▸ mt (serves.marked node w).mpr hneeds)
      | inPlace hplain hcode =>
        have hneeds := (serves.marked node w).mp (Way.plain?_eq_none hplain)
        rw [hnode, htree] at hneeds
        exact nodes hneeds k (by have := called id htree hname; omega) depth node code hself
          (hnode.trans htree) hcode
    | inPlace hplain hbody =>
      obtain ⟨below, rfl, hnode⟩ := hbody
      cases hself : (a.node id).standsFor? with
      | none => exact nodes (needs hplain) k (hK.trans hk) below id body hself htree hnode
      | some child =>
        exact ih below (Nat.lt_succ_self below) child body
          ((Arena.unfolding_of_standsFor hself).symm.trans htree) (hnode.of_standsFor hself)

/-! ## Room for calls -/

/-- How many nested calls code on a value may need, if all functions that may be called on the value
itself are of types with a property. -/
noncomputable def roomFor (r : Registry) (a : Arena) (revivers : Revivers) (Q : TypeTree → Prop)
    (v : Value) : Nat :=
  v.room (r.program revivers).names fun name => ∃ id, (a.node id).identity = name ∧ Q (a.unfolding id)

variable {Q Q' : TypeTree → Prop} {v v' : Value}

theorem roomFor_le (h : ∀ t, Q t → Q' t) : r.roomFor a revivers Q v ≤ r.roomFor a revivers Q' v :=
  Value.room_le fun _ ⟨id, hid, hQ⟩ => ⟨id, hid, h _ hQ⟩

theorem roomFor_lt_of_levels (h : v'.levels < v.levels) :
    r.roomFor a revivers Q v' < r.roomFor a revivers Q' v := Value.room_lt_of_levels h

/-- A function of one more type adds a call. -/
theorem Serves.roomFor_lt (serves : r.Serves a revivers limit) (h : ∀ t, Q t → Q' t) {id : NodeId}
    (hname : (a.node id).identity ∈ (r.program revivers).names) (holds : Q' (a.unfolding id))
    (fails : ¬ Q (a.unfolding id)) : r.roomFor a revivers Q v < r.roomFor a revivers Q' v := by
  refine Value.room_lt (fun _ ⟨id, hid, hQ⟩ => ⟨id, hid, h _ hQ⟩) hname ⟨id, rfl, holds⟩ ?_
  rintro ⟨other, hidentity, hQ⟩
  rw [serves.faithful other id hidentity] at hQ
  exact fails hQ

end Registry

/-! ## The code of nodes, both ways -/

namespace Way

/-- What a decoder does first in a fixed position of a tuple. -/
def before (a : Arena) : Way → NodeId → Nat → List Transform
  | encode => fun _ _ => []
  | decode => Compile.absence a

/-- What a decoder does last to an instance of a class. -/
def revivals : Way → Option String → List Transform
  | encode, _ => []
  | decode, className => className.toList.map .revive

/-- An element that is left out: undefined to the encoder, and to the decoder the null that stands
for it. -/
def LeftOut (w : Way) (slot : Slot) (before after : Value) : Prop :=
  slot.optional = true ∧ after = .undefined ∧
    match w with
    | encode => before = .undefined
    | decode => before = .null ∧ slot.absent = true

/-- An element that is not taken for one left out. -/
def There (w : Way) (slot : Slot) (v : Value) : Prop :=
  (slot.optional && v.isUndefined) = false ∧ (w = .decode → slot.absent = true → v.isNull = false)

namespace CodeNode

variable {w : Way} {a : Arena} {known : Keys} {depth : Nat} {n : Node} {body : List Transform}

theorem of_array {item : NodeId} (hshape : n.shape = .array item)
    (h : w.CodeNode a known depth n body) :
    ∃ code, w.CodeAt a known depth item code ∧ body = Compile.unlessEmpty code (.each 0) := by
  cases w <;> cases h
  case encode.array h hbody | decode.array h hbody =>
    cases hshape.symm.trans h
    exact ⟨_, hbody, rfl⟩
  all_goals simp_all only [Node.standsFor?, reduceCtorEq]

theorem of_property {name : String} {child : NodeId} (hshape : n.shape = .property name child)
    (h : w.CodeNode a known depth n body) :
    ∃ code, w.CodeAt a known depth child code ∧
      body = Compile.unlessEmpty code (.part (.member name) n.optional) := by
  cases w <;> cases h
  case encode.property h hbody | decode.property h hbody =>
    cases hshape.symm.trans h
    exact ⟨_, hbody, rfl⟩
  all_goals simp_all only [Node.standsFor?, reduceCtorEq]

theorem of_object {props : List NodeId} {index : Option NodeId} {className : Option String}
    (hshape : n.shape = .object props index className) (h : w.CodeNode a known depth n body) :
    ∃ code, Compile.ObjectTransform a (w.CodeAt a known depth) props index code ∧
      body = code ++ w.revivals className := by
  cases w <;> cases h
  case encode.object h hbody =>
    cases hshape.symm.trans h
    exact ⟨_, hbody, (List.append_nil _).symm⟩
  case decode.object h hbody =>
    cases hshape.symm.trans h
    exact ⟨_, hbody, rfl⟩
  all_goals simp_all only [Node.standsFor?, reduceCtorEq]

theorem of_tuple {tuple : List NodeId} (hshape : n.shape = .tuple tuple)
    (h : w.CodeNode a known depth n body) :
    Compile.TupleTransform a (w.before a) (w.CodeAt a known depth) tuple body := by
  cases w <;> cases h
  case encode.tuple h hbody | decode.tuple h hbody =>
    cases hshape.symm.trans h
    exact hbody
  all_goals simp_all only [Node.standsFor?, reduceCtorEq]

theorem of_atom {x : Atom} (hshape : n.shape = .atom x) (h : w.CodeNode a known depth n body) :
    body = x.codec?.toList.map (match w with
      | encode => .encode
      | decode => .decode) := by
  cases w <;> cases h
  case encode.atom h _ | decode.atom h _ =>
    cases hshape.symm.trans h
    rfl
  all_goals simp_all only [Node.standsFor?, reduceCtorEq]

theorem of_union_encode {members : List NodeId} (hshape : n.shape = .union members)
    (h : encode.CodeNode a known depth n body) :
    ∃ arms, List.Forall₂ (fun id arm => Compile.CheckAt a known depth id arm.1 ∧
        Compile.EncodeAt a known depth id arm.2) members arms ∧ body = [.tag n.identity arms] := by
  cases h
  case union h harms =>
    cases hshape.symm.trans h
    exact ⟨_, harms, rfl⟩
  all_goals simp_all only [Node.standsFor?, reduceCtorEq]

theorem of_union_decode {members : List NodeId} (hshape : n.shape = .union members)
    (h : decode.CodeNode a known depth n body) :
    ∃ arms, List.Forall₂ (Compile.DecodeAt a known depth) members arms ∧ body = [.untag arms] := by
  cases h
  case union h harms =>
    cases hshape.symm.trans h
    exact ⟨_, harms, rfl⟩
  all_goals simp_all only [Node.standsFor?, reduceCtorEq]

end CodeNode

end Way

/-! ## Code for parts -/

namespace Value

/-- All items of an array are changed, each as it is known to be. -/
theorem changeFrom_map {μ : Type} {f : Value → Changed} {l : List μ} {before after : μ → Value}
    (h : ∀ m ∈ l, f (before m) = .done (after m)) :
    changeFrom 0 f (.array (l.map before)) = .done (.array (l.map after)) := by
  have hitems : changeItems f (l.map before) = (l.map after, none) := by
    induction l with
    | nil => rfl
    | cons m rest ih =>
      obtain ⟨hm, hrest⟩ := List.forall_mem_cons.mp h
      simp only [List.map_cons, changeItems, hm, Changed.done, ih hrest]
  simp only [changeFrom, List.drop_zero, List.take_zero, List.nil_append, hitems]
  rfl

/-- An element that is changed twice. -/
theorem changePart_andThen (i : Nat) (φ : Value → Value) (f : Value → Changed) (v : Value) :
    (changePart (.element i) (fun w => .done (φ w)) v).andThen (changePart (.element i) f) =
      changePart (.element i) (fun w => f (φ w)) v := by
  cases v with
  | array items =>
    simp only [changePart]
    cases hi : items[i]? with
    | none => simp only [Changed.andThen, Changed.done, changePart, hi]
    | some w =>
      obtain ⟨hlt, -⟩ := List.getElem?_eq_some_iff.mp hi
      simp only [Changed.andThen, Changed.done, changePart, List.getElem?_set_self hlt,
        List.set_set]
  | _ => rfl

end Value

theorem Arena.hasType_of_memberType {a : Arena} {id : NodeId} {props : List NodeId}
    {index : Option NodeId} {className : Option String}
    (hshape : (a.node id).shape = .object props index className) {k : String}
    {x : Bool × TypeTree} (h : (a.unfolding id).memberType (props.map a.propertyName?)
      ((a.indexFilter index).map (·.2)) k = some x) : a.hasType props index k = true := by
  rw [memberType_unfolding hshape] at h
  rw [hasType]
  cases hdeclared : (Compile.declaredNames (a.properties props)).contains k with
  | true => rfl
  | false =>
    have hnone : (a.properties props).find? (·.name = k) = none := by
      refine List.find?_eq_none.mpr fun p hp hname => ?_
      rw [Bool.eq_false_iff, Ne, List.contains_iff_mem] at hdeclared
      exact hdeclared (List.mem_map.mpr ⟨p, hp, of_decide_eq_true hname⟩)
    cases hindex : a.indexFilter index with
    | none => simp only [hnone, hindex, reduceCtorEq] at h
    | some y =>
      simp only [hnone, hindex, Option.ite_none_right_eq_some] at h
      simp only [KeyFilter.covers, h.1, hdeclared, Bool.false_or, Bool.not_false, Bool.and_true]

namespace Registry

variable {r : Registry} {a : Arena} {revivers : Revivers} {limit K : Nat} {w : Way} {t : TypeTree}

theorem makes_array (label : t.label = some .array) {μ : Type} {l : List μ} {before after : μ → Value}
    (parts : ∀ m ∈ l, r.Makes a revivers K w (t.part 0) (· (before m) = .done (after m))) :
    r.NodesMake a revivers K w t
      (· (.array (l.map before)) = .done (.array (l.map after))) := by
  intro _ k hk depth id body hself htree hcode
  rw [← htree, Arena.label_unfolding hself] at label
  obtain ⟨item, hshape⟩ := Arena.shape_of_array label
  obtain ⟨code, hitem, rfl⟩ := hcode.of_array hshape
  rw [Transform.runAll_each]
  refine Value.changeFrom_map fun m hm => parts m hm k hk depth item code ?_ hitem
  rw [← htree]
  exact (Arena.label_of_array hshape).2.symm

variable (r a revivers K w) in
/-- Whether all code for a member of an object makes one value of another, as long as there may be
so many nested calls. An optional member that is undefined is left alone. -/
def MakesMember (optional : Bool) (u : TypeTree) (before after : Value) : Prop :=
  if optional && before.isUndefined then before = after
  else (¬ u.Needs w → before = after) ∧ r.Makes a revivers K w u (· before = .done after)

theorem MakesMember.eq_of_plain {optional : Bool} {u : TypeTree} {before after : Value}
    (h : r.MakesMember a revivers K w optional u before after) (plain : ¬ u.Needs w) :
    before = after := by
  unfold MakesMember at h
  split at h
  · exact h
  · exact h.1 plain

theorem makesMember_of_present {optional : Bool} {u : TypeTree} {before after : Value}
    (present : (optional && before.isUndefined) = false) (plain : ¬ u.Needs w → before = after)
    (makes : r.Makes a revivers K w u (· before = .done after)) :
    r.MakesMember a revivers K w optional u before after := by
  rw [MakesMember, present, if_neg Bool.false_ne_true]
  exact ⟨plain, makes⟩

/-- The code of a property fills in the member. -/
theorem Serves.makes_property (serves : r.Serves a revivers limit) {μ : Type} {s : Stages String μ}
    (whole : s.whole = .members) (fits : s.Fits) {name : String} {optional : Bool}
    (label : t.label = some (.property name optional))
    (parts : ∀ m ∈ s.parts, s.key m = name →
      r.MakesMember a revivers K w optional (t.part 0) (s.before m) (s.after m)) :
    r.Makes a revivers (K + 1) w t (s.Fills (· == name)) := by
  refine serves.makes (Nat.le_succ K) (fun _ _ _ => Nat.lt_succ_self K) (fun hneeds => ?_) ?_
  · exact .done fun m hm hk => (parts m hm (eq_of_beq hk)).eq_of_plain (mt (.part 0) hneeds)
  intro _ k hk depth id body hself htree hcode
  have hlabel : a.labelOf (a.node id) = some (.property name optional) := by
    rw [← Arena.label_unfolding hself, htree, label]
  obtain ⟨child, hshape, hoptional⟩ := Arena.shape_of_property hlabel
  obtain ⟨code, hchild, rfl⟩ := hcode.of_property hshape
  rw [Transform.runAll_part, hoptional]
  refine .of_settles (g := fun _ v => if optional && v.isUndefined then .done v else
    Transform.runAll (r.context revivers w k) code v) ?_ fits fun m hm hkey => ?_
  · rw [whole]
    exact .member fun _ => rfl
  · have hmakes := parts m hm (eq_of_beq hkey)
    unfold MakesMember at hmakes
    split at hmakes
    · rename_i leftOut
      rw [leftOut, if_pos rfl, hmakes]
    · rename_i present
      rw [if_neg present]
      refine hmakes.2 k hk depth child code ?_ hchild
      rw [← htree, (Arena.label_of_property hshape).2]

/-- Revivers that return their argument leave what is decoded as it is. -/
theorem Serves.runAll_revivals (serves : r.Serves a revivers limit) {id : NodeId}
    {props : List NodeId} {index : Option NodeId} {className : Option String}
    (hshape : (a.node id).shape = .object props index className) {k : Nat} (v : Value) :
    Transform.runAll (r.context revivers w k) (w.revivals className) v = .done v := by
  cases w with
  | encode => rfl
  | decode =>
    cases className with
    | none => rfl
    | some name =>
      obtain ⟨f, hf, hid⟩ := serves.revives id props index name hshape
      change Transform.runAll _ [.revive name] v = _
      rw [Transform.runAll_singleton, Transform.run]
      simp only [context, hf, hid]

/-- The code of an object changes all members that it has a type for. -/
theorem Serves.makes_object (serves : r.Serves a revivers limit) {props : List (Option String)}
    {index : Option KeyFilter} {className : Option String}
    (label : t.label = some (.object props index className)) {μ : Type} {s : Stages String μ}
    (whole : s.whole = .members) (fits : s.Fits)
    (typed : ∀ m ∈ s.parts, ∀ optional u, t.memberType props index (s.key m) = some (optional, u) →
      r.MakesMember a revivers K w optional u (s.before m) (s.after m))
    (untyped : ∀ m ∈ s.parts, t.memberType props index (s.key m) = none → s.before m = s.after m) :
    r.NodesMake a revivers (K + 1) w t (· (.object (s.parts.map fun m => (s.key m, s.before m))) =
      .done (.object (s.parts.map fun m => (s.key m, s.after m)))) := by
  intro _ k hk depth id body hself htree hcode
  have hlabel : a.labelOf (a.node id) = some (.object props index className) := by
    rw [← Arena.label_unfolding hself, htree, label]
  obtain ⟨ids, value, hshape, rfl, rfl⟩ := Arena.shape_of_object hlabel
  subst htree
  have htypes := Arena.memberType_unfolding hshape
  have distinct := serves.carriable.distinct id ids value className hshape
  obtain ⟨code, hmembers, rfl⟩ := hcode.of_object hshape
  have hfills := Transform.fills_object (x := r.context revivers w k) whole fits distinct hmembers (fun p hp body hbody => ?_)
    fun index filter body hindex hbody m hm hcovered => ?_
  rotate_left
  · obtain ⟨-, hoptional, child, hchild⟩ := Arena.shape_of_mem_properties hp
    have hfound := Arena.find?_properties distinct hp
    have hlabel : (a.unfolding p.id).label = some (.property p.name p.optional) := by
      rw [hoptional]
      exact (Arena.label_of_property hchild).1
    refine serves.makes_property whole fits hlabel (fun m hm hkey => ?_) k hk depth p.id body rfl
      hbody
    refine typed m hm _ _ ?_
    rw [htypes, hkey, hfound]
  · obtain ⟨haccepts, hundeclared⟩ := Bool.and_eq_true_iff.mp hcovered
    have hnone : (a.properties ids).find? (·.name = s.key m) = none := by
      refine List.find?_eq_none.mpr fun p hp hname => ?_
      rw [Bool.not_eq_true', Bool.eq_false_iff, Ne, List.contains_iff_mem] at hundeclared
      exact hundeclared (List.mem_map.mpr ⟨p, hp, of_decide_eq_true hname⟩)
    have htype := htypes (s.key m)
    simp only [hnone, hindex, haccepts, if_true] at htype
    rw [← hindex] at htype
    have hmakes := typed m hm false (a.unfolding index) htype
    rw [MakesMember, Bool.false_and, if_neg Bool.false_ne_true] at hmakes
    exact hmakes.2 k (Nat.le_of_succ_le hk) depth index body rfl hbody
  have hrun := hfills.run fun m hm hnone => by
    refine untyped m hm (Option.eq_none_iff_forall_ne_some.mpr fun x hx => ?_)
    rw [Arena.hasType_of_memberType hshape hx] at hnone
    cases hnone
  rw [whole] at hrun
  rw [Transform.runAll_append]
  change (Transform.runAll _ code (Whole.members.make _)).andThen _ = _
  rw [hrun]
  exact serves.runAll_revivals hshape _

/-- The code of a fixed position of a tuple fills in the element. -/
theorem fills_position {μ : Type} {s : Stages Nat μ} (whole : s.whole = .elements) (fits : s.Fits)
    {pos : NodeId} {i k : Nat} {code : List Transform}
    (h : ∀ m ∈ s.parts, s.key m = i → w.LeftOut (a.slot pos) (s.before m) (s.after m) ∨
      w.There (a.slot pos) (s.before m) ∧
        Transform.runAll (r.context revivers w k) code (s.before m) = .done (s.after m)) :
    s.Fills (· == i) (Transform.runAll (r.context revivers w k) (w.before a pos i ++
      Compile.unlessEmpty code (.part (.element i) (a.node pos).optional))) := by
  -- the element is looked at first, and then changed if it is there
  let look (v : Value) : Value := match w with
    | .encode => v
    | .decode => if (a.slot pos).absent && v.isNull then .undefined else v
  let change (v : Value) : Changed := if (a.node pos).optional && v.isUndefined then .done v else
    Transform.runAll (r.context revivers w k) code v
  have hrun : Transform.runAll (r.context revivers w k) (w.before a pos i ++
      Compile.unlessEmpty code (.part (.element i) (a.node pos).optional)) =
      Value.changePart (.element i) fun v => change (look v) := by
    funext v
    rw [Transform.runAll_append, Transform.runAll_part, ← Value.changePart_andThen]
    congr 1
    cases w with
    | encode => exact ((Value.lifts_changePart (.element i)).done v).symm
    | decode =>
      change Transform.runAll _ (Compile.absence a pos i) v = _
      rw [Compile.absence]
      simp only [look, Arena.slot]
      by_cases habsent : a.nullMeansAbsent pos = true
      · simp only [habsent, if_true, Bool.true_and]
        exact Transform.runAll_singleton _ _ v
      · simp only [habsent, Bool.false_eq_true, if_false, Bool.false_and]
        exact ((Value.lifts_changePart (.element i)).done v).symm
  rw [hrun]
  refine .of_settles (g := fun _ v => change (look v)) ?_ fits fun m hm hkey => ?_
  · rw [whole]
    exact .element fun _ => rfl
  · rcases h m hm (eq_of_beq hkey) with ⟨optional, hafter, hbefore⟩ | ⟨⟨present, there⟩, hcode⟩
    · have hlook : look (s.before m) = .undefined := by
        cases w with
        | encode => exact hbefore
        | decode =>
          obtain ⟨hnull, habsent⟩ := hbefore
          simp only [look, hnull, habsent]
          rfl
      change change (look (s.before m)) = _
      rw [hlook, hafter]
      exact if_pos (Bool.and_eq_true_iff.mpr ⟨optional, rfl⟩)
    · have hlook : look (s.before m) = s.before m := by
        cases w with
        | encode => rfl
        | decode =>
          simp only [look]
          cases habsent : (a.slot pos).absent with
          | false => rfl
          | true =>
            rw [there rfl habsent]
            rfl
      change change (look (s.before m)) = _
      rw [hlook]
      exact (if_neg fun h => Bool.false_ne_true (present.symm.trans h)).trans hcode

variable (r a revivers K w t) in
/-- Whether all code for a tuple's type makes one element of another in some position, as long as
there may be so many nested calls. -/
def MakesElement (slots : List Slot) (rest : Bool) (i : Nat) (before after : Value) : Prop :=
  (∃ slot, slots[i]? = some slot ∧ w.LeftOut slot before after) ∨
    ∃ optional u, t.elementType slots rest i = some (optional, u) ∧
      (∀ slot, slots[i]? = some slot → w.There slot before) ∧
      r.Makes a revivers K w u (· before = .done after)

/-- The code of a tuple changes each of its elements. -/
theorem makes_tuple {slots : List Slot} {rest : Bool} (label : t.label = some (.tuple slots rest))
    {μ : Type} {s : Stages Nat μ} (whole : s.whole = .elements) (fits : s.Fits)
    (h : ∀ m ∈ s.parts,
      r.MakesElement a revivers K w t slots rest (s.key m) (s.before m) (s.after m)) :
    r.NodesMake a revivers K w t (· (.array (s.parts.map s.before)) =
      .done (.array (s.parts.map s.after))) := by
  intro _ k hk depth id body hself htree hcode
  have hlabel : a.labelOf (a.node id) = some (.tuple slots rest) := by
    rw [← Arena.label_unfolding hself, htree, label]
  obtain ⟨tuple, hshape, rfl, rfl⟩ := Arena.shape_of_tuple hlabel
  subst htree
  obtain ⟨fixed, others, hsplit⟩ : ∃ fixed others, a.splitTuple tuple = (fixed, others) :=
    ⟨_, _, rfl⟩
  have htypes := Arena.elementType_unfolding hshape
  rw [hsplit] at htypes
  simp only [MakesElement, hsplit, htypes, List.getElem?_map] at h
  have hfills := Transform.fills_tuple (x := r.context revivers w k) whole fits hsplit
    (hcode.of_tuple hshape) (fun pos i hpos code hbody => ?_) fun last code hrest hbody m hm hi => ?_
  rotate_left
  · refine fills_position whole fits fun m hm hkey => ?_
    have hm := h m hm
    simp only [hkey, hpos, Option.map_some, Option.some.injEq, Prod.mk.injEq] at hm
    rcases hm with ⟨slot, rfl, leftOut⟩ | ⟨optional, u, ⟨-, rfl⟩, there, makes⟩
    · exact .inl leftOut
    · exact .inr ⟨there _ rfl, makes k hk depth pos code rfl hbody⟩
  · rcases h m hm with ⟨slot, hslot, -⟩ | ⟨optional, u, typed, -, makes⟩
    · rw [List.getElem?_eq_none hi] at hslot
      cases hslot
    · rw [List.getElem?_eq_none hi, hrest] at typed
      exact makes k hk depth last code (Prod.mk.inj (Option.some.inj typed)).2 hbody
  have hrun := hfills.run fun m hm hnone => by
    obtain ⟨hi, hrest⟩ := Bool.or_eq_false_iff.mp hnone
    obtain rfl : others = none := Option.isSome_eq_false_iff.mp hrest |> Option.isNone_iff_eq_none.mp
    have hbehind := List.getElem?_eq_none (not_lt.mp (of_decide_eq_false hi))
    rcases h m hm with ⟨slot, hslot, -⟩ | ⟨optional, u, typed, -⟩
    · rw [hbehind] at hslot
      cases hslot
    · rw [hbehind] at typed
      cases typed
  rw [whole] at hrun
  simpa only [Whole.elements, List.map_map, Function.comp_def] using hrun

/-! ## Unions -/

/-- A value is encoded as the first member that it is an instance of. -/
theorem runTagged_eq {x : Transform.Context} {check : NodeId → Check → Prop}
    {child : NodeId → List Transform → Prop} {members : List NodeId}
    {arms : List (Check × List Transform)}
    (harms : List.Forall₂ (fun id arm => check id arm.1 ∧ child id arm.2) members arms) {n : Nat}
    {v w : Value} (hcheck : ∀ id c, check id c → Known ((a.unfolding id).judge n v) (x.check c v))
    {front back : List TypeTree} (trees : members.map a.unfolding = front ++ t :: back)
    (hfront : ∀ f ∈ front, f.judge n v = some false) (holds : t.judge n v = some true)
    (h : ∀ id body, a.unfolding id = t → child id body → Transform.runAll x body v = .done w)
    (union : String) (i : Nat) :
    Transform.runTagged x union i arms v = .done (.array [.ofNat (i + front.length), w]) := by
  induction harms generalizing front i with
  | nil => cases front <;> cases trees
  | @cons id arm members arms harm _ ih =>
    obtain ⟨c, body⟩ := arm
    obtain ⟨hc, hbody⟩ := harm
    rw [Transform.runTagged]
    cases front with
    | nil =>
      obtain ⟨htree, -⟩ := List.cons.inj trees
      rw [hcheck id c hc true (htree ▸ holds)]
      simp only [h id body htree hbody]
      rfl
    | cons f front =>
      obtain ⟨htree, hrest⟩ := List.cons.inj trees
      obtain ⟨hf, hothers⟩ := List.forall_mem_cons.mp hfront
      rw [hcheck id c hc false (htree ▸ hf)]
      simp only [ih hrest hothers (i + 1), List.length_cons]
      rw [Nat.add_right_comm, Nat.add_assoc]

/-- The member with a number is the one that decodes. -/
theorem runArm_eq {x : Transform.Context} {child : NodeId → List Transform → Prop}
    {members : List NodeId} {arms : List (List Transform)}
    (harms : List.Forall₂ child members arms) {front back : List TypeTree}
    (trees : members.map a.unfolding = front ++ t :: back) (v : Value) :
    ∃ id body, a.unfolding id = t ∧ child id body ∧
      Transform.runArm x front.length arms v = some (Transform.runAll x body v) := by
  induction harms generalizing front with
  | nil => cases front <;> cases trees
  | @cons id body members arms hbody _ ih =>
    cases front with
    | nil => exact ⟨id, body, (List.cons.inj trees).1, hbody, by rw [List.length_nil, Transform.runArm]⟩
    | cons f front =>
      obtain ⟨id, body, htree, hbody, hrun⟩ := ih (List.cons.inj trees).2
      exact ⟨id, body, htree, hbody, by rw [List.length_cons, Transform.runArm, hrun]⟩

theorem Serves.makes_tagged (serves : r.Serves a revivers limit) {n : Nat}
    (label : t.label = some (.union n)) {front back : List TypeTree} {u : TypeTree}
    (trees : (List.range n).map t.part = front ++ u :: back) {j : Nat} {v x : Value}
    (hfront : ∀ f ∈ front, f.judge j v = some false) (holds : u.judge j v = some true)
    (h : r.Makes a revivers K .encode u (· v = .done x)) :
    r.NodesMake a revivers K .encode t
      (· v = .done (.array [.ofNat front.length, x])) := by
  intro _ k hk depth id body hself htree hcode
  have hlabel : a.labelOf (a.node id) = some (.union n) := by
    rw [← Arena.label_unfolding hself, htree, label]
  obtain ⟨members, hshape, rfl⟩ := Arena.shape_of_union hlabel
  subst htree
  rw [(Arena.label_of_union hshape).2] at trees
  obtain ⟨arms, harms, rfl⟩ := hcode.of_union_encode hshape
  rw [Transform.runAll_singleton, Transform.run]
  have hrun := runTagged_eq (x := r.context revivers .encode k) harms
    (fun id c hc => Program.check_of_judge revivers serves.faithful serves.grounded hc j v) trees
    hfront holds (fun id body htree hbody => h k hk depth id body htree hbody)
    (a.node id).identity 0
  rwa [Nat.zero_add] at hrun

theorem makes_untagged {n : Nat} (label : t.label = some (.union n)) {front back : List TypeTree}
    {u : TypeTree} (trees : (List.range n).map t.part = front ++ u :: back) {v y : Value} {x : Float}
    (number : tagNumber? x = some front.length)
    (h : r.Makes a revivers K .decode u (· v = .done y)) :
    r.NodesMake a revivers K .decode t (· (.array [.number x, v]) = .done y) := by
  intro _ k hk depth id body hself htree hcode
  have hlabel : a.labelOf (a.node id) = some (.union n) := by
    rw [← Arena.label_unfolding hself, htree, label]
  obtain ⟨members, hshape, rfl⟩ := Arena.shape_of_union hlabel
  subst htree
  rw [(Arena.label_of_union hshape).2] at trees
  obtain ⟨arms, harms, rfl⟩ := hcode.of_union_decode hshape
  obtain ⟨member, code, htree, hbody, hrun⟩ :=
    runArm_eq (x := r.context revivers .decode k) harms trees v
  rw [Transform.runAll_singleton, Transform.run]
  simp only [number, hrun, h k hk depth member code htree hbody]
  rfl

end Registry

end Typeforge
