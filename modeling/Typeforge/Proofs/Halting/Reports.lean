/-
# `Typeforge.Proofs.Halting.Reports` — reports on guarded types come to an end

A report goes the way its tests go: it looks at the kind of a value before it
goes on to the parts.  A union it leaves to a test.
-/
import Typeforge.Proofs.Halting.Tests
import Typeforge.Proofs.Running.Reports

namespace Typeforge

/-! ## Runs that are not cut off -/

/-- A run that has an answer, or fails for a reason of its own. -/
def Halts {α : Type} (run : Except Halt α) : Prop := run ≠ .error .cutOff

namespace Halts

variable {α β : Type} {run : Except Halt α}

theorem ok (x : α) : Halts (.ok x : Except Halt α) := by
  rintro ⟨⟩

theorem failed (e : RunError) : Halts (.error (.failed e) : Except Halt α) := by
  rintro ⟨⟩

theorem bind {next : α → Except Halt β} (h : Halts run) (hnext : ∀ x, Halts (next x)) :
    Halts (run >>= next) := by
  cases run with
  | ok x => exact hnext x
  | error halt =>
    rintro ⟨⟩
    exact h rfl

theorem gather {xs : List α} {errors : α → Except Halt (List ValidationError)}
    (h : ∀ x ∈ xs, Halts (errors x)) : Halts (gather errors xs) := by
  induction xs with
  | nil => exact ok []
  | cons x xs ih =>
    obtain ⟨hx, hxs⟩ := List.forall_mem_cons.mp h
    exact hx.bind fun first => (ih hxs).bind fun others => ok (first ++ others)

end Halts

namespace Report

variable {x : Context} {trail : Trail} {v : Value} {body : List Report}

/-! ## Statements -/

theorem halts_singleton {r : Report} (h : Halts (r.run x trail v)) :
    Halts (runAll x [r] trail v) := by
  rw [runAll_singleton]
  exact h

theorem halts_append {others : List Report} (h : Halts (runAll x body trail v))
    (hothers : Halts (runAll x others trail v)) : Halts (runAll x (body ++ others) trail v) := by
  rw [runAll_append]
  exact h.bind fun _ => hothers.bind fun _ => .ok _

theorem halts_flatten {bodies : List (List Report)}
    (h : ∀ body ∈ bodies, Halts (runAll x body trail v)) :
    Halts (runAll x bodies.flatten trail v) := by
  induction bodies with
  | nil => exact .ok []
  | cons body bodies ih =>
    obtain ⟨hbody, hbodies⟩ := List.forall_mem_cons.mp h
    exact halts_append hbody (ih hbodies)

theorem halts_unlessEmpty {wrap : List Report → Report} (h : Halts ((wrap body).run x trail v)) :
    Halts (runAll x (Compile.unlessEmpty body wrap) trail v) := by
  unfold Compile.unlessEmpty
  split
  · exact .ok []
  · exact halts_singleton h

theorem halts_part (access : Access) (optional : Bool)
    (h : Halts (runAll x body trail (access.read v))) :
    Halts ((part access optional body).run x trail v) := by
  rw [run]
  split
  · exact .ok []
  · exact h

theorem halts_each (start : Nat)
    (h : ∀ trail w, w.levels < v.levels → Halts (runAll x body trail w)) :
    Halts ((each start body).run x trail v) := by
  rw [run]
  refine .gather fun y hy => h _ y.2 ?_
  cases v with
  | array items =>
    refine Value.levels_item_lt (List.mem_of_mem_drop (i := start) ?_)
    rw [← Value.stepsFrom_values]
    exact List.mem_map_of_mem hy
  | _ => exact absurd hy List.not_mem_nil

theorem halts_eachKey (filter : KeyFilter) (skip : List String)
    (h : ∀ trail w, w.levels < v.levels → Halts (runAll x body trail w)) :
    Halts ((eachKey filter skip body).run x trail v) := by
  rw [run]
  refine .gather fun y hy => h _ y.2 ?_
  cases v with
  | object members =>
    have hvalue := List.mem_map_of_mem (f := Prod.snd) hy
    rw [Value.stepsCovered_values] at hvalue
    obtain ⟨m, hm, hvalue⟩ := List.mem_map.mp hvalue
    rw [← hvalue]
    exact Value.levels_member_lt (List.mem_filter.mp hm).1
  | _ => exact absurd hy List.not_mem_nil

theorem halts_expect {check : Check} {path : List PathSegment} {expected : String}
    {after : List Report} {passed : Bool} (hcheck : x.check check v = some passed)
    (h : passed = true → Halts (runAll x after trail v)) :
    Halts (runAll x [.expect check path expected after] trail v) := by
  refine halts_singleton ?_
  rw [run, hcheck]
  cases passed with
  | true => exact h rfl
  | false => exact .ok _

theorem halts_expectation {check : Check} {path : List PathSegment} {expected : String}
    (hcheck : x.check check v ≠ none) :
    Halts (runAll x (Compile.expectation check path expected) trail v) := by
  obtain ⟨passed, hpassed⟩ := Option.ne_none_iff_exists'.mp hcheck
  unfold Compile.expectation
  split
  · exact .ok []
  · exact halts_expect hpassed fun _ => .ok []

/-! ## Nodes -/

section Nodes

variable {p : Program} {call : String → List PathItem → Value → Except Halt (List ValidationError)}
  {a : Arena} {check : NodeId → Check → Prop} {child : Site → NodeId → List Report → Prop}
  {site : Site} {id : NodeId} {m k : Nat}

/-- The reports of children halt on what may be reached. -/
abbrev ChildrenHalt (x : Context) (a : Arena) (m k : Nat)
    (child : Site → NodeId → List Report → Prop) : Prop :=
  ∀ site id body, child site id body → ∀ w, (a.unfolding id).Reaches Value.levels m k w →
    ∀ trail, Halts (runAll x body trail w)

theorem halts_property (hchild : ChildrenHalt x a m k child) {name : String} {part : NodeId}
    (h : (a.node id).shape = .property name part)
    (hbody : Compile.ReportNode a check child site (a.node id) body)
    (hv : (a.unfolding part).Reaches Value.levels m k (v.member name)) :
    Halts (runAll x body trail v) := by
  cases hbody with
  | property hshape hbody =>
    obtain ⟨rfl, rfl⟩ := Shape.property.inj (h.symm.trans hshape)
    exact halts_unlessEmpty (halts_part _ _ (hchild _ _ _ hbody _ hv trail))
  | standsFor hself => simp only [Node.standsFor?, h, reduceCtorEq] at hself
  | atom hshape | array hshape | object hshape | tuple hshape | union hshape =>
    cases h.symm.trans hshape

/-- The report of a node halts on a value of no more levels than may be, if the tests of nodes have
answers and the reports of its children halt on what is below. -/
theorem halts_node (shallow : a.Shallow)
    (hcheck : ∀ id c, check id c → ∀ v, p.check c v ≠ none)
    (hchild : ChildrenHalt ⟨p.check, call⟩ a m k child)
    (hself : (a.node id).standsFor? = none) (hlevels : v.levels ≤ m)
    (hrank : (a.unfolding id).rank ≤ k)
    (hbody : Compile.ReportNode a check child site (a.node id) body) :
    Halts (runAll ⟨p.check, call⟩ body trail v) := by
  have smaller {w : Value} (hw : w.levels < v.levels) {t : TypeTree} :
      t.Reaches Value.levels m k w := .smaller (Nat.lt_of_lt_of_le hw hlevels)
  cases hbody with
  | atom _ hc =>
    refine halts_expectation ?_
    have hrun : p.check _ v = some _ := Check.run_check? hc v
    change p.check _ v ≠ none
    rw [hrun]
    exact Option.some_ne_none _
  | array _ hbody =>
    have hcheck : p.check (.is .array) v = some (Kind.array.holds v) := rfl
    refine halts_expect hcheck fun _ => halts_unlessEmpty ?_
    exact halts_each 0 fun trail w hw => hchild _ _ _ hbody w (smaller hw) trail
  | property h hbody =>
    refine halts_property hchild h (.property h hbody : Compile.ReportNode a check child site _ _) ?_
    refine .lower ?_ (Nat.lt_of_lt_of_le (shallow.property_lt h) hrank)
    rcases Value.under_read (.member _) v with hread | hread
    · exact (congrArg Value.levels hread).le.trans hlevels
    · exact hread.le.trans hlevels
  | standsFor h => cases hself.symm.trans h
  | object h hdeclared hothers =>
    have hcheck : p.check (.is .object) v = some (Kind.object.holds v) := rfl
    refine halts_expect hcheck fun hv => ?_
    have hne : v ≠ .undefined := by
      rintro rfl
      cases hv
    refine halts_append (halts_flatten fun body hbody => ?_) ?_
    · obtain ⟨p, hp, hpbody⟩ := exists_of_forall₂_right hdeclared hbody
      refine hchild _ _ _ hpbody v (.property (Arena.label_of_mem_properties hp) ?_) trail
      exact (Value.levels_read_lt (.member _) hne).trans_le hlevels
    · cases hothers with
      | absent => exact .ok []
      | present _ hbody =>
        refine halts_unlessEmpty (halts_eachKey _ _ fun trail w hw => ?_)
        exact hchild _ _ _ hbody w (smaller hw) trail
  | tuple h hsplit helements hothers =>
    refine halts_expect ((Check.run_allOf _ v).trans (Check.allM_tupleShape _ _ v)) fun hv => ?_
    have hne : v ≠ .undefined := by
      rintro rfl
      cases hv
    refine halts_append (halts_flatten fun body hbody => ?_) ?_
    · obtain ⟨y, -, inner, hinner, rfl⟩ := exists_of_forall₂_right helements hbody
      refine halts_unlessEmpty (halts_part _ _ ?_)
      exact hchild _ _ _ hinner _ (smaller (Value.levels_read_lt (.element _) hne)) trail
    · cases hothers with
      | absent => exact .ok []
      | present _ hbody =>
        refine halts_unlessEmpty (halts_each _ fun trail w hw => ?_)
        exact hchild _ _ _ hbody w (smaller hw) trail
  | union _ hc =>
    refine halts_expectation ?_
    exact Check.unionCheck_ne_none hc fun id _ c hc => hcheck id c hc v

end Nodes

/-! ## Code -/

section Calls

variable {p : Program} {call : String → List PathItem → Value → Except Halt (List ValidationError)}
  {a : Arena} {known : Keys} {m k : Nat}

/-- Calls of known reports halt below a size and a rank. -/
abbrev CallsHalt (call : String → List PathItem → Value → Except Halt (List ValidationError))
    (a : Arena) (known : Keys) (m k : Nat) : Prop :=
  ∀ id, (a.node id).hasBody = true → known ⟨(a.node id).identity, .typeErrors⟩ → ∀ base w,
    (a.unfolding id).Below Value.levels m k w → Halts (call (a.node id).identity base w)

theorem halts_at (shallow : a.Shallow) {depth : Nat}
    (hcheck : ∀ depth id c, Compile.CheckAt a known depth id c → ∀ v, p.check c v ≠ none)
    {site : Site} {id : NodeId} (hcall : CallsHalt call a known m k)
    (hbody : Compile.ReportAt a known depth site id body)
    (hv : (a.unfolding id).Reaches Value.levels m k v) :
    Halts (runAll ⟨p.check, call⟩ body trail v) := by
  induction depth generalizing m k site id body v trail with
  | zero =>
    cases hbody with
    | plain h => cases h
    | called _ hknown own => exact halts_call hcall own hknown hv
    | inPlace _ h => exact h.elim
  | succ depth ih =>
    cases hbody with
    | plain h => cases h
    | called _ hknown own => exact halts_call hcall own hknown hv
    | inPlace _ hbody =>
      cases hself : (a.node id).standsFor? with
      | some child =>
        rw [Arena.unfolding_of_standsFor hself] at hv
        cases hbody with
        | standsFor h hbody =>
          cases h.symm.trans hself
          exact ih hcall hbody hv
        | atom h | array h | property h | object h | tuple h | union h =>
          simp only [Node.standsFor?, h, reduceCtorEq] at hself
      | none =>
        cases hv with
        | below h =>
          refine halts_node shallow (hcheck depth)
            (fun _ _ _ hbody w hw trail => ih ?_ hbody hw) hself le_rfl le_rfl hbody
          exact fun callee own hknown base w hw => hcall callee own hknown base w (h.trans hw)
        | property label part =>
          obtain ⟨child, hshape⟩ := Arena.shape_of_label_property hself label
          exact halts_property (fun _ _ _ hbody w hw trail => ih hcall hbody hw) hshape hbody
            (.smaller part)
where
  halts_call {p : Program}
      {call : String → List PathItem → Value → Except Halt (List ValidationError)} {a : Arena}
      {known : Keys} {m k : Nat} {path : List PathSegment} {id : NodeId} {trail : Trail}
      {v : Value} (hcall : CallsHalt call a known m k) (own : (a.node id).hasBody = true)
      (hknown : known ⟨(a.node id).identity, .typeErrors⟩)
      (hv : (a.unfolding id).Reaches Value.levels m k v) :
      Halts (runAll ⟨p.check, call⟩ (Compile.reports.call (a.node id).identity path) trail v) := by
    cases hv with
    | below h => exact halts_singleton (hcall id own hknown _ v h)
    | property label => exact absurd label (Arena.label_of_hasBody own _ _)

end Calls

end Report

/-! ## Programs -/

namespace Program

variable {a : Arena} {r : Registry} {limit : Nat} (revivers : Revivers) (shallow : a.Shallow)
  (faithful : a.Faithful) (grounded : r.Grounded a limit)

include shallow faithful grounded

/-- A registered report halts if the calls below it do. -/
theorem halts_reportCall_succ {id : NodeId}
    (hkey : ⟨(a.node id).identity, .typeErrors⟩ ∈ r.keys) {v : Value} {steps : Nat}
    (hcall : Report.CallsHalt ((Program.mk r.functions revivers).reportCall steps) a
      (r.contains · = true) v.levels (a.unfolding id).rank) (base : List PathItem) :
    Halts ((Program.mk r.functions revivers).reportCall (steps + 1) (a.node id).identity base v) := by
  obtain ⟨f, hf, hbody, node, hself, hof, htree⟩ :=
    exists_grounded revivers faithful grounded hkey
  have hcheck (depth : Nat) (id : NodeId) (c : Check)
      (hc : Compile.CheckAt a (r.contains · = true) depth id c) (v : Value) :=
    check_ne_none revivers shallow faithful grounded hc v
  cases hof with
  | typeErrors _ _ _ h =>
    cases h with
    | plain h => cases h
    | inPlace _ hc =>
      rw [reportCall, hbody]
      rw [← htree (congrArg FunctionKey.identity hf)] at hcall
      exact Report.halts_node shallow (hcheck _)
        (fun _ _ _ hbody w hw trail => Report.halts_at shallow hcheck hcall hbody hw)
        hself le_rfl le_rfl hc
  | isType | jsonEncode | jsonDecode | jsonStringify => cases congrArg FunctionKey.target hf

/-- Calls of registered reports halt, if as many may be nested as there is room for. -/
theorem halts_reportCall {names : List String}
    (hnames : ∀ id, (a.node id).hasBody = true → ⟨(a.node id).identity, .typeErrors⟩ ∈ r.keys →
      (a.node id).identity ∈ names)
    (steps : Nat) {id : NodeId} (own : (a.node id).hasBody = true)
    (hkey : ⟨(a.node id).identity, .typeErrors⟩ ∈ r.keys) {v : Value}
    (room : a.room names (a.unfolding id) v.levels ≤ steps) (base : List PathItem) :
    Halts ((Program.mk r.functions revivers).reportCall steps (a.node id).identity base v) := by
  induction steps generalizing id v base with
  | zero => exact absurd (Arena.room_pos (hnames id own hkey)) (Nat.not_lt_of_le room)
  | succ steps ih =>
    refine halts_reportCall_succ revivers shallow faithful grounded hkey ?_ base
    intro callee own' hknown base w hw
    refine ih own' (Registry.contains_iff.mp hknown) (Nat.le_of_lt_succ ?_) base
    exact (Arena.room_lt faithful (hnames id own hkey) hw).trans_le room

/-- Registered reports are not cut off. -/
theorem halts_typeErrors {id : NodeId} (hkey : ⟨(a.node id).identity, .typeErrors⟩ ∈ r.keys)
    (v : Value) : Halts ((Program.mk r.functions revivers).typeErrors (a.node id).identity v) := by
  have hroom := Arena.room_le_steps (a := a) (t := a.unfolding id)
    (Program.mk r.functions revivers) (le_refl v.levels)
  have hpos := (Arena.room_pos (a := a) (m := v.levels) (identity_mem_names revivers hkey)).trans_le hroom
  obtain ⟨steps, hsteps⟩ := Nat.exists_eq_add_one.mpr hpos
  rw [typeErrors, hsteps]
  refine halts_reportCall_succ revivers shallow faithful grounded hkey ?_ []
  intro callee own hknown base w hw
  refine halts_reportCall revivers shallow faithful grounded (fun id _ => identity_mem_names revivers) _ own
    (Registry.contains_iff.mp hknown) (Nat.le_of_lt_succ ?_) base
  exact ((Arena.room_lt faithful (identity_mem_names revivers hkey) hw).trans_le hroom).trans_eq
    hsteps

/-- Registered reports make no more nested calls than the bound. -/
theorem halts_reportCall_of_bound {id : NodeId}
    (hkey : ⟨(a.node id).identity, .typeErrors⟩ ∈ r.keys) {v : Value} {steps : Nat}
    (bound : a.callBound v.levels ≤ steps) (base : List PathItem) :
    Halts ((Program.mk r.functions revivers).reportCall steps (a.node id).identity base v) := by
  obtain ⟨steps, rfl⟩ : ∃ n, steps = n + 1 := Nat.exists_eq_add_one.mpr (a.callBound_pos.trans_le bound)
  refine halts_reportCall_succ revivers shallow faithful grounded hkey ?_ base
  intro callee own hknown base w hw
  refine halts_reportCall revivers shallow faithful grounded (fun id own _ => a.mem_nodeNames own)
    _ own (Registry.contains_iff.mp hknown) (Nat.le_of_lt_succ ?_) base
  exact (Arena.room_lt_callBound (hw.elim Nat.le_of_lt And.left)).trans_le bound

end Program

end Typeforge
