/-
# `Typeforge.Proofs.Halting.Emits` — writing values of guarded types comes to an end

An emitter goes on to the parts of arrays and objects only, and these are smaller.
Nothing guards it otherwise, and nothing has to: what is no array or object is
written as plain JSON.

Before it writes a part it asks whether the part is left out.  That question may be
handed on from one function to another, but from a type with a function of its own
no further.
-/
import Typeforge.Proofs.Halting.Reports
import Typeforge.Proofs.Running.Emits

namespace Typeforge

theorem Written.halts_finish (w : Written) : Halts w.finish := by
  unfold Written.finish
  split
  · exact .ok _
  · exact .failed _

namespace Emit

variable {x : Context} {emit : Emit} {v : Value}

/-! ## Parts -/

/-- An emitter that says whether it leaves a value out, and comes to an end writing it. -/
structure Ready (x : Context) (emit : Emit) (v : Value) : Prop where
  omits : emit.omits x.omits v ≠ none
  run : Halts (emit.run x v)

theorem omits_ne_none {call : String → Value → Option Bool}
    (h : ∀ identity, emit = .call identity → call identity v ≠ none) :
    emit.omits call v ≠ none := by
  unfold omits
  split
  · split
    · exact Option.some_ne_none false
    · exact Option.some_ne_none false
    · exact Option.some_ne_none false
    · exact h _ rfl
    · exact Option.some_ne_none true
  · exact Option.some_ne_none false

theorem omits_atom_ne_none (call : String → Value → Option Bool) (y : Atom) (v : Value) :
    (Compile.atomEmit y).omits call v ≠ none := by
  refine omits_ne_none fun identity hcall => ?_
  unfold Compile.atomEmit at hcall
  split at hcall <;> cases hcall

theorem omits_json_ne_none (call : String → Value → Option Bool) (v : Value) :
    json.omits call v ≠ none := by
  refine omits_ne_none ?_
  rintro _ ⟨⟩

theorem halts_placed {write : Except Halt String} (homits : emit.omits x.omits v ≠ none)
    (h : Halts write) : Halts (placed x emit v write) := by
  obtain ⟨left, hleft⟩ := Option.ne_none_iff_exists'.mp homits
  rw [placed, hleft]
  cases left with
  | true => exact .ok none
  | false => exact h.bind fun text => .ok (some text)

theorem Ready.placed (h : Ready x emit v) : Halts (Emit.placed x emit v (emit.run x v)) :=
  halts_placed h.omits h.run

theorem halts_plain (x : Context) (v : Value) : Halts (plain x v) :=
  halts_placed (omits_json_ne_none _ v) v.jsonText.halts_finish

theorem halts_writeMembers {write : String → Value → Except Halt (Option String)}
    {members : List (String × Value)} (h : ∀ m ∈ members, Halts (write m.1 m.2)) :
    Halts (writeMembers write members) := by
  induction members with
  | nil => exact .ok []
  | cons m rest ih =>
    obtain ⟨hm, hrest⟩ := List.forall_mem_cons.mp h
    refine hm.bind fun text => (ih hrest).bind fun others => ?_
    cases text with
    | none => exact .ok others
    | some text => exact .ok _

theorem halts_writeItems {write : Nat → Value → Except Halt (Option String)} {items : List Value}
    {i : Nat} (h : ∀ j v, items[j]? = some v → Halts (write (i + j) v)) :
    Halts (writeItems write i items) := by
  induction items generalizing i with
  | nil => exact .ok []
  | cons v rest ih =>
    refine (h 0 v rfl).bind fun text => ?_
    have hrest (j : Nat) (w : Value) (hw : rest[j]? = some w) : Halts (write (i + 1 + j) w) := by
      rw [Nat.add_assoc, Nat.add_comm 1]
      exact h (j + 1) w hw
    exact (ih hrest).bind fun others => .ok _

theorem halts_declared {members : List (MemberEmit Emit)} {k : String}
    (h : ∀ m ∈ members, Ready x m.emit v) {text : Except Halt (Option String)}
    (htext : declared x k v members = some text) : Halts text := by
  induction members with
  | nil => cases htext
  | cons m rest ih =>
    obtain ⟨name, optional, emit⟩ := m
    obtain ⟨hm, hrest⟩ := List.forall_mem_cons.mp h
    rw [declared] at htext
    split at htext
    · obtain rfl := Option.some.inj htext
      split
      · exact .ok none
      · exact hm.placed
    · exact ih hrest htext

theorem halts_indexed {index : Option (KeyFilter × Emit)} {k : String}
    (h : ∀ y, index = some y → Ready x y.2 v) {text : Except Halt (Option String)}
    (htext : indexed x k v index = some text) : Halts text := by
  cases index with
  | none => cases htext
  | some y =>
    obtain ⟨filter, emit⟩ := y
    rw [indexed] at htext
    split at htext
    · obtain rfl := Option.some.inj htext
      exact (h _ rfl).placed
    · cases htext

theorem halts_fixed {elements : List Emit} {i : Nat} (h : ∀ emit ∈ elements, Ready x emit v)
    {text : Except Halt (Option String)} (htext : fixed x i v elements = some text) :
    Halts text := by
  induction elements generalizing i with
  | nil =>
    rw [fixed] at htext
    cases htext
  | cons emit rest ih =>
    obtain ⟨hemit, hrest⟩ := List.forall_mem_cons.mp h
    cases i with
    | zero =>
      rw [fixed] at htext
      obtain rfl := Option.some.inj htext
      exact hemit.placed
    | succ i =>
      rw [fixed] at htext
      exact ih hrest htext

theorem halts_others {rest : Option Emit} (h : ∀ emit, rest = some emit → Ready x emit v)
    {text : Except Halt (Option String)} (htext : others x v rest = some text) : Halts text := by
  cases rest with
  | none => cases htext
  | some emit =>
    obtain rfl := Option.some.inj htext
    exact (h emit rfl).placed

theorem halts_getD {text : Option (Except Halt (Option String))}
    (h : ∀ write, text = some write → Halts write) (v : Value) :
    Halts (text.getD (plain x v)) := by
  cases text with
  | none => exact halts_plain x v
  | some write => exact h write rfl

theorem halts_tagged {arms : List (Check × Emit)}
    (h : ∀ arm ∈ arms, x.check arm.1 v ≠ none ∧ Ready x arm.2 v) (name : String) (i : Nat) :
    Halts (tagged x name i v arms) := by
  induction arms generalizing i with
  | nil => exact .failed _
  | cons arm rest ih =>
    obtain ⟨⟨hcheck, hemit⟩, hrest⟩ := List.forall_mem_cons.mp h
    obtain ⟨passed, hpassed⟩ := Option.ne_none_iff_exists'.mp hcheck
    rw [tagged, hpassed]
    cases passed with
    | true => exact hemit.placed.bind fun text => .ok _
    | false => exact ih hrest (i + 1)

/-! ## Nodes -/

section Nodes

variable {a : Arena} {check : NodeId → Check → Prop} {child : NodeId → Emit → Prop} {id : NodeId}
  {m k : Nat}

/-- The emitters of children are ready for what is below. -/
abbrev ChildrenReady (x : Context) (a : Arena) (m k : Nat) (child : NodeId → Emit → Prop) : Prop :=
  ∀ id emit, child id emit → ∀ w, (a.unfolding id).Below Value.levels m k w → Ready x emit w

/-- The emitter of a node comes to an end on a value of no more levels than may be, if tests have
answers and the emitters of its children are ready for what is below. -/
theorem halts_node (shallow : a.Shallow) (hcheck : ∀ id c, check id c → ∀ v, x.check c v ≠ none)
    (hchild : ChildrenReady x a m k child) (hself : (a.node id).standsFor? = none)
    (hlevels : v.levels ≤ m) (hrank : (a.unfolding id).rank ≤ k)
    (h : Compile.EmitNode a check child (a.node id) emit) : Halts (emit.run x v) := by
  have smaller {w : Value} (hw : w.levels < v.levels) {t : TypeTree} :
      t.Below Value.levels m k w := .inl (Nat.lt_of_lt_of_le hw hlevels)
  cases h with
  | @atom y _ _ =>
    unfold Compile.atomEmit
    split <;> exact Written.halts_finish _
  | array _ hemit =>
    cases v with
    | array items =>
      refine (halts_writeItems fun _ w hw => ?_).bind fun texts => .ok _
      have hsmall := Value.levels_item_lt (List.mem_of_getElem? hw)
      exact (hchild _ _ hemit w (smaller hsmall)).placed
    | _ =>
      simp only [run]
      exact Written.halts_finish _
  | property h hemit =>
    refine (hchild _ _ hemit v (.inr ⟨hlevels, ?_⟩)).run
    exact Nat.lt_of_lt_of_le (shallow.property_lt h) hrank
  | standsFor h => cases hself.symm.trans h
  | @object props index _ members others _ hmembers hothers =>
    cases v with
    | object entries =>
      refine (halts_writeMembers fun entry hentry => ?_).bind fun texts => .ok _
      have hsmall {t : TypeTree} := smaller (t := t) (Value.levels_member_lt hentry)
      split
      · rename_i htext
        refine halts_declared (fun member hmember => ?_) htext
        obtain ⟨p, -, emit, hemit, rfl⟩ := exists_of_forall₂_right hmembers hmember
        exact hchild _ _ hemit _ hsmall
      · refine halts_getD (fun write hwrite => halts_indexed (fun y hy => ?_) hwrite) _
        cases hothers with
        | absent => cases hy
        | present _ hemit =>
          obtain rfl := Option.some.inj hy
          exact hchild _ _ hemit _ hsmall
    | _ =>
      simp only [run]
      exact Written.halts_finish _
  | @tuple members fixed rest elements others _ _ helements hothers =>
    cases v with
    | array items =>
      refine (halts_writeItems fun i w hw => ?_).bind fun texts => .ok _
      have hsmall {t : TypeTree} :=
        smaller (t := t) (Value.levels_item_lt (List.mem_of_getElem? hw))
      split
      · rename_i htext
        refine halts_fixed (fun emit hemit => ?_) htext
        obtain ⟨y, -, hy⟩ := exists_of_forall₂_right helements hemit
        exact hchild _ _ hy w hsmall
      · refine halts_getD (fun write hwrite => halts_others (fun emit hemit => ?_) hwrite) _
        cases hothers with
        | absent => cases hemit
        | present _ hother =>
          obtain rfl := Option.some.inj hemit
          exact hchild _ _ hother w hsmall
    | _ =>
      simp only [run]
      exact Written.halts_finish _
  | union h harms =>
    refine halts_tagged (fun arm harm => ?_) _ 0
    obtain ⟨member, hmember, hc, hemit⟩ := exists_of_forall₂_right harms harm
    refine ⟨hcheck _ _ hc v, hchild _ _ hemit v (.inr ⟨hlevels, ?_⟩)⟩
    exact Nat.lt_of_lt_of_le (shallow.member_lt h hmember) hrank

/-- What the emitter of a node leaves out is known, if it is of its children. -/
theorem omits_node_ne_none {call : String → Value → Option Bool}
    (hchild : ∀ id emit, child id emit → emit.omits call v ≠ none)
    (h : Compile.EmitNode a check child (a.node id) emit) : emit.omits call v ≠ none := by
  cases h with
  | property _ hemit | standsFor _ hemit => exact hchild _ _ hemit
  | atom => exact omits_atom_ne_none call _ v
  | array | object | tuple | union =>
    refine omits_ne_none ?_
    rintro _ ⟨⟩

/-- The emitter of a node that may have a function of its own is no call of another. -/
theorem omits_own_ne_none (call : String → Value → Option Bool)
    (hself : (a.node id).standsFor? = none)
    (hproperty : ∀ name optional, (a.unfolding id).label ≠ some (.property name optional))
    (h : Compile.EmitNode a check child (a.node id) emit) : emit.omits call v ≠ none := by
  cases h with
  | property h => exact absurd (Arena.label_of_property h).1 (hproperty _ _)
  | standsFor h => cases hself.symm.trans h
  | atom => exact omits_atom_ne_none call _ v
  | array | object | tuple | union =>
    refine omits_ne_none ?_
    rintro _ ⟨⟩

end Nodes

/-! ## Code -/

section Calls

variable {a : Arena} {known : Keys} {m k depth : Nat} {id : NodeId}

/-- Calls of known emitters say what they leave out. -/
abbrev CallsSay (call : String → Value → Option Bool) (a : Arena) (known : Keys) : Prop :=
  ∀ id, (a.node id).hasBody = true → known ⟨(a.node id).identity, .jsonStringify⟩ → ∀ w,
    call (a.node id).identity w ≠ none

/-- Calls of known emitters come to an end below a size and a rank. -/
abbrev CallsHalt (call : String → Value → Except Halt String) (a : Arena) (known : Keys)
    (m k : Nat) : Prop :=
  ∀ id, (a.node id).hasBody = true → known ⟨(a.node id).identity, .jsonStringify⟩ → ∀ w,
    (a.unfolding id).Below Value.levels m k w → Halts (call (a.node id).identity w)

theorem omits_at_ne_none {call : String → Value → Option Bool} (hsay : CallsSay call a known)
    (h : Compile.EmitAt a known depth id emit) (v : Value) : emit.omits call v ≠ none := by
  induction depth using Nat.strong_induction_on generalizing id emit with
  | _ depth ih =>
    cases h.visited with
    | plain hplain =>
      obtain ⟨-, rfl⟩ := Compile.eq_json_of_emitters_plain? hplain
      exact omits_json_ne_none call v
    | called _ hknown own =>
      refine omits_ne_none ?_
      rintro _ ⟨⟩
      exact hsay id own hknown v
    | inPlace _ hemit =>
      obtain ⟨below, rfl, hnode⟩ := hemit
      exact omits_node_ne_none (fun _ _ hemit => ih below (Nat.lt_succ_self _) hemit) hnode

theorem halts_at (shallow : a.Shallow)
    (hcheck : ∀ depth id c, Compile.CheckAt a known depth id c → ∀ v, x.check c v ≠ none)
    (hsay : CallsSay x.omits a known) (hcall : CallsHalt x.call a known m k)
    (h : Compile.EmitAt a known depth id emit)
    (hv : (a.unfolding id).Below Value.levels m k v) : Halts (emit.run x v) := by
  induction depth using Nat.strong_induction_on generalizing m k id emit v with
  | _ depth ih =>
    cases h.visited with
    | plain hplain =>
      obtain ⟨-, rfl⟩ := Compile.eq_json_of_emitters_plain? hplain
      exact Written.halts_finish _
    | called _ hknown own => exact hcall id own hknown v hv
    | inPlace _ hemit =>
      obtain ⟨below, rfl, hnode⟩ := hemit
      cases hself : (a.node id).standsFor? with
      | some child =>
        rw [Arena.unfolding_of_standsFor hself] at hv
        exact ih below (Nat.lt_succ_self _) hcall (hnode.of_standsFor hself) hv
      | none =>
        refine halts_node shallow (hcheck below) ?_ hself le_rfl le_rfl hnode
        intro child emit hchild w hw
        refine ⟨omits_at_ne_none hsay hchild w, ih below (Nat.lt_succ_self _) ?_ hchild hw⟩
        exact fun callee own hknown w hw => hcall callee own hknown w (hv.trans hw)

end Calls

end Emit

/-! ## Programs -/

namespace Program

variable {a : Arena} {r : Registry} {limit : Nat} (revivers : Revivers) (shallow : a.Shallow)
  (faithful : a.Faithful) (grounded : r.Grounded a limit)

/-- A registered emitter that is ready for a value writes it. -/
theorem halts_stringify_of_ready {p : Program} {identity : String} {emit : Emit}
    {v : Value} (ready : Emit.Ready ⟨p.check, p.omits, p.emitCall (p.steps v)⟩ emit v)
    (hbody : p.body? ⟨identity, .jsonStringify⟩ = some (.jsonStringify emit)) :
    Halts (p.stringify identity v) := by
  obtain ⟨left, hleft⟩ := Option.ne_none_iff_exists'.mp ready.omits
  rw [stringify, hbody]
  dsimp only
  rw [hleft]
  cases left with
  | true => exact .ok "null"
  | false => exact ready.run

section Omits

include faithful grounded

/-- Calls of registered emitters say what they leave out, and need no calls to do so. -/
theorem omitsCall_ne_none {id : NodeId} (own : (a.node id).hasBody = true)
    (hkey : ⟨(a.node id).identity, .jsonStringify⟩ ∈ r.keys) (steps : Nat) (v : Value) :
    (Program.mk r.functions revivers).omitsCall (steps + 1) (a.node id).identity v ≠ none := by
  obtain ⟨f, hf, hbody, node, hself, hof, htree⟩ :=
    exists_grounded revivers faithful grounded hkey
  cases hof with
  | jsonStringify _ h =>
    rw [omitsCall, hbody]
    cases h with
    | plain hplain =>
      obtain ⟨-, rfl⟩ := Compile.eq_json_of_emitters_plain? hplain
      exact Emit.omits_json_ne_none _ v
    | inPlace _ hemit =>
      refine Emit.omits_own_ne_none _ hself (fun name optional => ?_) hemit
      rw [htree (congrArg FunctionKey.identity hf)]
      exact Arena.label_of_hasBody own name optional
  | isType | typeErrors | jsonEncode | jsonDecode => cases congrArg FunctionKey.target hf

theorem callsSay :
    Emit.CallsSay (Program.mk r.functions revivers).omits a (r.contains · = true) := by
  intro id own hknown v
  rw [omits]
  obtain ⟨steps, hsteps⟩ : ∃ n, (Program.mk r.functions revivers).steps v = n + 1 := ⟨_, rfl⟩
  rw [hsteps]
  exact omitsCall_ne_none revivers faithful grounded own (Registry.contains_iff.mp hknown) steps v

end Omits

include shallow faithful grounded

/-- The emitter registered under an identity comes to an end if the calls below it do. -/
theorem exists_ready {id : NodeId} (hkey : ⟨(a.node id).identity, .jsonStringify⟩ ∈ r.keys)
    {call : String → Value → Except Halt String} {v : Value}
    (hcall : Emit.CallsHalt call a (r.contains · = true) v.levels (a.unfolding id).rank) :
    ∃ emit, (Program.mk r.functions revivers).body? ⟨(a.node id).identity, .jsonStringify⟩ =
        some (.jsonStringify emit) ∧
      Emit.Ready ⟨(Program.mk r.functions revivers).check,
        (Program.mk r.functions revivers).omits, call⟩ emit v := by
  obtain ⟨f, hf, hbody, node, hself, hof, htree⟩ :=
    exists_grounded revivers faithful grounded hkey
  have hcheck (depth : Nat) (id : NodeId) (c : Check)
      (hc : Compile.CheckAt a (r.contains · = true) depth id c) (v : Value) :=
    check_ne_none revivers shallow faithful grounded hc v
  have hsay := callsSay revivers faithful grounded
  cases hof with
  | @jsonStringify depth emit _ h =>
    refine ⟨emit, hbody, ?_⟩
    cases h with
    | plain hplain =>
      obtain ⟨-, rfl⟩ := Compile.eq_json_of_emitters_plain? hplain
      exact ⟨Emit.omits_json_ne_none _ v, Written.halts_finish _⟩
    | inPlace _ hemit =>
      rw [← htree (congrArg FunctionKey.identity hf)] at hcall
      refine ⟨Emit.omits_node_ne_none (fun _ _ h => Emit.omits_at_ne_none hsay h v) hemit, ?_⟩
      refine Emit.halts_node shallow (hcheck depth) ?_ hself le_rfl le_rfl hemit
      exact fun child emit hchild w hw =>
        ⟨Emit.omits_at_ne_none hsay hchild w, Emit.halts_at shallow hcheck hsay hcall hchild hw⟩
  | isType | typeErrors | jsonEncode | jsonDecode => cases congrArg FunctionKey.target hf

/-- Calls of registered emitters come to an end, if as many may be nested as there is room for. -/
theorem halts_emitCall {names : List String}
    (hnames : ∀ id, (a.node id).hasBody = true →
      ⟨(a.node id).identity, .jsonStringify⟩ ∈ r.keys → (a.node id).identity ∈ names)
    (steps : Nat) {id : NodeId} (own : (a.node id).hasBody = true)
    (hkey : ⟨(a.node id).identity, .jsonStringify⟩ ∈ r.keys) {v : Value}
    (room : a.room names (a.unfolding id) v.levels ≤ steps) :
    Halts ((Program.mk r.functions revivers).emitCall steps (a.node id).identity v) := by
  induction steps generalizing id v with
  | zero => exact absurd (Arena.room_pos (hnames id own hkey)) (Nat.not_lt_of_le room)
  | succ steps ih =>
    have hcall : Emit.CallsHalt ((Program.mk r.functions revivers).emitCall steps) a
        (r.contains · = true) v.levels (a.unfolding id).rank := by
      intro callee own' hknown w hw
      refine ih own' (Registry.contains_iff.mp hknown) (Nat.le_of_lt_succ ?_)
      exact (Arena.room_lt faithful (hnames id own hkey) hw).trans_le room
    obtain ⟨emit, hbody, ready⟩ := exists_ready revivers shallow faithful grounded hkey hcall
    rw [emitCall, hbody]
    exact ready.run

/-- Registered emitters are not cut off. -/
theorem halts_stringify {id : NodeId} (hkey : ⟨(a.node id).identity, .jsonStringify⟩ ∈ r.keys)
    (v : Value) :
    Halts ((Program.mk r.functions revivers).stringify (a.node id).identity v) := by
  have hcall : Emit.CallsHalt ((Program.mk r.functions revivers).emitCall
      ((Program.mk r.functions revivers).steps v)) a (r.contains · = true) v.levels
      (a.unfolding id).rank := by
    intro callee own hknown w hw
    exact halts_emitCall revivers shallow faithful grounded
      (fun id _ => identity_mem_names revivers) _ own (Registry.contains_iff.mp hknown)
      (Arena.room_le_steps _ (hw.elim Nat.le_of_lt And.left))
  obtain ⟨emit, hbody, ready⟩ := exists_ready revivers shallow faithful grounded hkey hcall
  exact halts_stringify_of_ready ready hbody

/-- Registered emitters make no more nested calls than the bound. -/
theorem halts_emitCall_of_bound {id : NodeId}
    (hkey : ⟨(a.node id).identity, .jsonStringify⟩ ∈ r.keys) {v : Value} {steps : Nat}
    (bound : a.callBound v.levels ≤ steps) :
    Halts ((Program.mk r.functions revivers).emitCall steps (a.node id).identity v) := by
  obtain ⟨steps, rfl⟩ := Nat.exists_eq_add_one.mpr (a.callBound_pos.trans_le bound)
  have hcall : Emit.CallsHalt ((Program.mk r.functions revivers).emitCall steps) a
      (r.contains · = true) v.levels (a.unfolding id).rank := by
    intro callee own hknown w hw
    refine halts_emitCall revivers shallow faithful grounded (fun id own _ => a.mem_nodeNames own)
      _ own (Registry.contains_iff.mp hknown) (Nat.le_of_lt_succ ?_)
    exact (Arena.room_lt_callBound (hw.elim Nat.le_of_lt And.left)).trans_le bound
  obtain ⟨emit, hbody, ready⟩ := exists_ready revivers shallow faithful grounded hkey hcall
  rw [emitCall, hbody]
  exact ready.run

end Program

end Typeforge
