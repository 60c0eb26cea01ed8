/-
# `Typeforge.Proofs.Running.Writing` — exact instances are written

An emitter of a recursive type may go round for ever, as a test may: a union that is
its own first member asks that member, on the same value, before any other.  On an
exact instance it does not.  A union comes to its first member that accepts the value
after tests that are known to answer, and parts are smaller.

The induction and the count of calls are those of `Typeforge.Proofs.Running.Carrying`.
-/
import Typeforge.Proofs.Halting.Emits
import Typeforge.Proofs.Running.Carrying

namespace Typeforge

/-! ## Parts -/

namespace Emit

section Parts

variable {x : Context} {v : Value} {child : NodeId → Emit → Prop}

/-- The text of a member comes to an end if the emitter does that the type has for it. -/
theorem halts_member {props : List Arena.Property} {members : List (MemberEmit Emit)}
    (hmembers : List.Forall₂ (fun p m => ∃ emit, child p.id emit ∧
      m = ⟨p.name, p.optional, emit⟩) props members)
    {index : Option (NodeId × KeyFilter)} {others : Option (KeyFilter × Emit)}
    (hothers : Compile.Others index (fun y emit => child y.1 emit)
      (fun y emit => some (y.2, emit)) none others) {k : String}
    (property : ∀ p emit, props.find? (·.name = k) = some p → child p.id emit →
      (p.optional && v.isUndefined) = false → Ready x emit v)
    (indexed : ∀ y emit, props.find? (·.name = k) = none → index = some y → child y.1 emit →
      y.2.accepts k = true → Ready x emit v) :
    Halts (match declared x k v members with
      | some text => text
      | none => (Emit.indexed x k v others).getD (plain x v)) := by
  induction hmembers with
  | nil =>
    cases hothers with
    | absent h => exact halts_plain x v
    | @present y emit h hemit =>
      simp only [declared, Emit.indexed]
      cases haccepts : y.2.accepts k with
      | true => exact (indexed y emit rfl h hemit haccepts).placed
      | false => exact halts_plain x v
  | @cons p m props members hm _ ih =>
    obtain ⟨emit, hemit, rfl⟩ := hm
    simp only [declared]
    by_cases hname : p.name = k
    · simp only [hname, if_true]
      cases hpresent : p.optional && v.isUndefined with
      | true => exact .ok none
      | false =>
        exact (property p emit (List.find?_cons_of_pos (decide_eq_true hname)) hemit hpresent).placed
    · have hfind : (p :: props).find? (·.name = k) = props.find? (·.name = k) :=
        List.find?_cons_of_neg (by simpa using hname)
      rw [hfind] at property indexed
      simp only [hname, if_false]
      exact ih property indexed

/-- The text of an element comes to an end if the emitter does that the type has for it. -/
theorem halts_element {fixed : List NodeId} {elements : List Emit}
    (helements : List.Forall₂ child fixed elements) {rest : Option NodeId} {others : Option Emit}
    (hothers : Compile.Others rest child (fun _ emit => some emit) none others) {i : Nat}
    (position : ∀ pos emit, fixed[i]? = some pos → child pos emit → Ready x emit v)
    (behind : ∀ last emit, fixed[i]? = none → rest = some last → child last emit →
      Ready x emit v) :
    Halts (match Emit.fixed x i v elements with
      | some text => text
      | none => (Emit.others x v others).getD (plain x v)) := by
  induction helements generalizing i with
  | nil =>
    simp only [Emit.fixed]
    cases hothers with
    | absent h => exact halts_plain x v
    | present h hemit => exact (behind _ _ rfl h hemit).placed
  | cons hemit _ ih =>
    cases i with
    | zero => exact (position _ _ rfl hemit).placed
    | succ i =>
      simp only [Emit.fixed]
      exact ih position behind

/-- A union comes to an end if the tests answer up to the first member that accepts the value, and
the emitter of that member comes to an end. -/
theorem halts_tagged_of_first {a : Arena} {check : NodeId → Check → Prop}
    {arms : List (Check × Emit)} {front back : List NodeId} {member : NodeId}
    (harms : List.Forall₂ (fun id arm => check id arm.1 ∧ child id arm.2)
      (front ++ member :: back) arms) {n : Nat}
    (hcheck : ∀ id c, check id c → Known ((a.unfolding id).judge n v) (x.check c v))
    (hfront : ∀ f ∈ front, (a.unfolding f).judge n v = some false)
    (holds : (a.unfolding member).judge n v = some true)
    (h : ∀ emit, child member emit → Ready x emit v) (union : String) (i : Nat) :
    Halts (tagged x union i v arms) := by
  induction front generalizing arms i with
  | nil =>
    cases harms with
    | @cons _ arm _ _ harm _ =>
      rw [tagged, hcheck member arm.1 harm.1 true holds]
      exact (h arm.2 harm.2).placed.bind fun text => .ok _
  | cons f front ih =>
    cases harms with
    | @cons _ arm _ _ harm hothers =>
      obtain ⟨hf, hfront⟩ := List.forall_mem_cons.mp hfront
      rw [tagged, hcheck f arm.1 harm.1 false hf]
      exact ih hothers hfront (i + 1)

end Parts

end Emit

/-! ## What emitters of a type write -/

namespace Registry

/-- What emitters rest on, with as many nested calls as a bound says. -/
def emitting (r : Registry) (revivers : Revivers) (k : Nat) : Emit.Context :=
  ⟨(r.program revivers).check, (r.program revivers).omits, (r.program revivers).emitCall k⟩

variable (r : Registry) (a : Arena) (revivers : Revivers) {limit K K' : Nat} {t : TypeTree}
  {v : Value}

/-- Whether all emitters for a type come to an end on a value. -/
def Writes (K : Nat) (t : TypeTree) (v : Value) : Prop :=
  ∀ k, K ≤ k → ∀ depth id emit, a.unfolding id = t →
    Compile.EmitAt a (r.contains · = true) depth id emit → Emit.Ready (r.emitting revivers k) emit v

/-- Whether the emitters that nodes of a type are compiled to themselves come to an end on a value. -/
def NodesWrite (K : Nat) (t : TypeTree) (v : Value) : Prop :=
  ∀ k, K ≤ k → ∀ depth id emit, (a.node id).standsFor? = none → a.unfolding id = t →
    Compile.EmitNode a (Compile.CheckAt a (r.contains · = true) depth)
      (Compile.EmitAt a (r.contains · = true) depth) (a.node id) emit →
    Halts (emit.run (r.emitting revivers k) v)

variable {r a revivers}

theorem Writes.mono (h : r.Writes a revivers K t v) (hK : K ≤ K') : r.Writes a revivers K' t v :=
  fun k hk => h k (hK.trans hk)

/-- The emitter registered for an identity, as that of a node that stands for itself. -/
theorem Serves.exists_emitter (serves : r.Serves a revivers limit) {id : NodeId}
    (hkey : ⟨(a.node id).identity, .jsonStringify⟩ ∈ r.keys) :
    (a.node id).identity ∈ (r.program revivers).names ∧ ∃ node depth emit,
      (a.node node).standsFor? = none ∧ a.unfolding node = a.unfolding id ∧
      Compile.emitters.Entered (Compile.EmitNode a (Compile.CheckAt a (r.contains · = true) depth)
        (Compile.EmitAt a (r.contains · = true) depth)) (a.node node) emit ∧
      (r.program revivers).body? ⟨(a.node id).identity, .jsonStringify⟩ =
        some (.jsonStringify emit) := by
  obtain ⟨f, hf, hbody, node, hself, hof, htree⟩ :=
    Program.exists_grounded revivers serves.faithful serves.grounded hkey
  refine ⟨Program.mem_names hbody, node, ?_⟩
  cases hof with
  | jsonStringify _ h => exact ⟨_, _, hself, htree (congrArg FunctionKey.identity hf), h, hbody⟩
  | isType | typeErrors | jsonEncode | jsonDecode => cases congrArg FunctionKey.target hf

/-- What a registered emitter writes, with so many nested calls. -/
theorem Serves.halts_entered (serves : r.Serves a revivers limit) (h : r.NodesWrite a revivers K t v)
    {k depth : Nat} (hk : K ≤ k) {id : NodeId} {emit : Emit} (hself : (a.node id).standsFor? = none)
    (htree : a.unfolding id = t)
    (hentered : Compile.emitters.Entered (Compile.EmitNode a
      (Compile.CheckAt a (r.contains · = true) depth)
      (Compile.EmitAt a (r.contains · = true) depth)) (a.node id) emit) :
    Emit.Ready (r.emitting revivers k) emit v := by
  have hsay := Program.callsSay revivers serves.faithful serves.grounded
  cases hentered with
  | plain hplain =>
    obtain ⟨-, rfl⟩ := Compile.eq_json_of_emitters_plain? hplain
    exact ⟨Emit.omits_json_ne_none _ v, Written.halts_finish _⟩
  | inPlace _ hemit =>
    exact ⟨Emit.omits_node_ne_none (fun _ _ hchild => Emit.omits_at_ne_none hsay hchild v) hemit,
      h k hk depth id emit hself htree hemit⟩

/-- What the emitters of nodes write, calls write as well, with one more nested call. -/
theorem Serves.writes (serves : r.Serves a revivers limit) (hK : K ≤ K')
    (called : ∀ id, a.unfolding id = t → (a.node id).identity ∈ (r.program revivers).names → K < K')
    (nodes : r.NodesWrite a revivers K t v) : r.Writes a revivers K' t v := by
  intro k hk depth
  induction depth using Nat.strong_induction_on with
  | _ depth ih =>
    intro id emit htree hemit
    refine ⟨Emit.omits_at_ne_none (Program.callsSay revivers serves.faithful serves.grounded)
      hemit v, ?_⟩
    cases hemit.visited with
    | plain hplain =>
      obtain ⟨-, rfl⟩ := Compile.eq_json_of_emitters_plain? hplain
      exact Written.halts_finish _
    | called _ hknown =>
      obtain ⟨hname, node, depth, code, hself, hnode, hentered, hbody⟩ :=
        serves.exists_emitter (Registry.contains_iff.mp hknown)
      have hroom := called id htree hname
      obtain ⟨k, rfl⟩ : ∃ j, k = j + 1 := ⟨k - 1, by omega⟩
      change Halts ((r.program revivers).emitCall (k + 1) (a.node id).identity v)
      rw [Program.emitCall, hbody]
      exact (serves.halts_entered nodes (by omega) hself (hnode.trans htree) hentered).run
    | inPlace _ hbody =>
      obtain ⟨below, rfl, hnode⟩ := hbody
      cases hself : (a.node id).standsFor? with
      | none => exact nodes k (hK.trans hk) below id emit hself htree hnode
      | some child =>
        exact (ih below (Nat.lt_succ_self below) child emit
          ((Arena.unfolding_of_standsFor hself).symm.trans htree) (hnode.of_standsFor hself)).run

/-- A property is written as its type is. -/
theorem Writes.ready_property {id child : NodeId} {name : String}
    (h : r.Writes a revivers K (a.unfolding child) v)
    (hshape : (a.node id).shape = .property name child) {k depth : Nat} (hk : K ≤ k) {emit : Emit}
    (hemit : Compile.EmitAt a (r.contains · = true) depth id emit) :
    Emit.Ready (r.emitting revivers k) emit v := by
  cases hemit.visited with
  | plain hplain =>
    obtain ⟨-, rfl⟩ := Compile.eq_json_of_emitters_plain? hplain
    exact ⟨Emit.omits_json_ne_none _ v, Written.halts_finish _⟩
  | called _ _ own => exact absurd (Arena.label_of_property hshape).1 (Arena.label_of_hasBody own _ _)
  | inPlace _ hbody =>
    obtain ⟨below, rfl, hnode⟩ := hbody
    cases hnode with
    | property h' hchild =>
      cases hshape.symm.trans h'
      exact h k hk below child emit rfl hchild
    | standsFor h' => simp only [Node.standsFor?, hshape, reduceCtorEq] at h'
    | atom h' | array h' | object h' | tuple h' | union h' => cases hshape.symm.trans h'

/-! ## Exact instances -/

/-- The emitters of nodes of a type come to an end on its exact instances, if all do on those of its
parts. -/
theorem Serves.nodesWrite (serves : r.Serves a revivers limit) {n : Nat}
    (exact : t.exactly (n + 1) v = true)
    (ih : ∀ id v, (a.unfolding id).exactly n v = true →
      r.Writes a revivers (r.budget a revivers n v) (a.unfolding id) v) :
    r.NodesWrite a revivers (r.budget a revivers n v) t v := by
  rintro k hk depth id emit hself rfl hemit
  have below {w : Value} (h : w.levels < v.levels) {child : NodeId}
      (hexact : (a.unfolding child).exactly n w = true) :
      r.Writes a revivers (r.budget a revivers n v) (a.unfolding child) w :=
    (ih child w hexact).mono (budget_lt_of_levels h).le
  cases hemit with
  | @atom y _ _ =>
    unfold Compile.atomEmit
    split <;> exact Written.halts_finish _
  | @array item emit hshape hitem =>
    obtain ⟨items, rfl, hitems⟩ := Arena.items_of_exactly hshape exact
    refine (Emit.halts_writeItems fun _ w hw => ?_).bind fun texts => .ok _
    have hw := List.mem_of_getElem? hw
    exact (below (Value.levels_item_lt hw) (hitems w hw) k hk depth item emit rfl hitem).placed
  | property hshape =>
    have := Arena.exactParts_of_exactly exact
    simp only [TypeTree.exactParts, Arena.label_unfolding hself, Arena.labelOf, hshape,
      Bool.false_eq_true] at this
  | standsFor h => cases hself.symm.trans h
  | @object props index className members others hshape hmembers hothers =>
    obtain ⟨entries, rfl, hentries⟩ := Arena.members_of_exactly hshape exact
    refine (Emit.halts_writeMembers fun m hm => ?_).bind fun texts => .ok _
    obtain ⟨optional, u, htype, present, hexact⟩ := hentries m hm
    rw [Arena.memberType_unfolding hshape] at htype
    have hlevels := Value.levels_member_lt hm
    refine Emit.halts_member hmembers hothers (fun p emit hp hemit _ => ?_)
      fun y emit hnone hy hemit haccepts => ?_
    · obtain ⟨-, -, child, hchild⟩ := Arena.shape_of_mem_properties (List.mem_of_find?_eq_some hp)
      simp only [hp, Option.some.injEq, Prod.mk.injEq, (Arena.label_of_property hchild).2] at htype
      obtain ⟨-, rfl⟩ := htype
      exact (below hlevels hexact).ready_property hchild hk hemit
    · simp only [hnone, hy, haccepts, if_true, Option.some.injEq, Prod.mk.injEq] at htype
      obtain ⟨-, rfl⟩ := htype
      exact below hlevels hexact k hk depth y.1 emit rfl hemit
  | @tuple tuple fixed rest elements others hshape hsplit helements hothers =>
    obtain ⟨items, rfl, hitems⟩ := Arena.elements_of_exactly hshape exact
    have helements : List.Forall₂ (Compile.EmitAt a (r.contains · = true) depth) fixed elements := by
      rw [← List.zipIdx_map_fst 0 fixed, List.forall₂_map_left_iff]
      exact helements
    refine (Emit.halts_writeItems fun i w hw => ?_).bind fun texts => .ok _
    rw [Nat.zero_add]
    obtain ⟨optional, u, htype, -, hexact⟩ := hitems i w hw
    rw [Arena.elementType_unfolding hshape, hsplit] at htype
    have hlevels := Value.levels_item_lt (List.mem_of_getElem? hw)
    refine Emit.halts_element helements hothers (fun pos emit hpos hemit => ?_)
      fun last emit hnone hrest hemit => ?_
    · simp only [hpos, Option.some.injEq, Prod.mk.injEq] at htype
      obtain ⟨-, rfl⟩ := htype
      exact below hlevels hexact k hk depth pos emit rfl hemit
    · simp only [hnone, hrest, Option.map_some, Option.some.injEq, Prod.mk.injEq] at htype
      obtain ⟨-, rfl⟩ := htype
      exact below hlevels hexact k hk depth last emit rfl hemit
  | @union members arms hshape harms =>
    obtain ⟨front, m, back, rfl, hexact, hfront⟩ := Arena.member_of_exactly hshape exact
    have hcheck (id : NodeId) (c : Check)
        (hc : Compile.CheckAt a (r.contains · = true) depth id c) :=
      Program.check_of_judge revivers serves.faithful serves.grounded hc n v
    exact Emit.halts_tagged_of_first harms hcheck hfront (TypeTree.judge_of_exactly hexact)
      (fun emit hchild => ih m v hexact k hk depth m emit rfl hchild) _ 0

/-- **All emitters come to an end on exact instances.** -/
theorem Serves.writes_exactly (serves : r.Serves a revivers limit) (n : Nat) :
    ∀ id v, (a.unfolding id).exactly n v = true →
      r.Writes a revivers (r.budget a revivers n v) (a.unfolding id) v := by
  induction n with
  | zero => exact fun _ _ h => nomatch h
  | succ n ih =>
    intro id v exact
    by_cases hless : (a.unfolding id).exactly n v = true
    · exact (ih id v hless).mono (budget_le_succ n v)
    · refine serves.writes (budget_le_succ n v) (fun id htree hname => ?_)
        (serves.nodesWrite exact ih)
      exact serves.budget_lt_succ hname (htree ▸ exact) (htree ▸ hless)

/-- A registered emitter is not cut off on exact instances of its type. -/
theorem Serves.halts_stringify (serves : r.Serves a revivers limit) {id : NodeId}
    (hkey : ⟨(a.node id).identity, .jsonStringify⟩ ∈ r.keys) (exact : (a.unfolding id).Exact v) :
    Halts ((r.program revivers).stringify (a.node id).identity v) := by
  obtain ⟨n, exact⟩ := exact
  obtain ⟨-, node, depth, emit, hself, htree, hentered, hbody⟩ := serves.exists_emitter hkey
  have writes : r.NodesWrite a revivers (r.budget a revivers n v) (a.unfolding id) v :=
    serves.nodesWrite (TypeTree.exactly_succ n _ v exact) (serves.writes_exactly n)
  have hroom : r.budget a revivers n v ≤ (r.program revivers).steps v :=
    (Value.room_lt_steps (Program.length_names _).le).le
  exact Program.halts_stringify_of_ready
    (serves.halts_entered writes hroom hself htree hentered) hbody

end Registry

end Typeforge
