/-
# `Typeforge.Proofs.Running.Judging` — what can be judged in order, a test finds out

A test that comes to an answer says what the type says.  The other way round, a
test comes to an answer wherever the type has one that is found in order, with no
more nested calls than the type had to be followed deep: each call leads to the
code of a node with a label, so that each call takes at least one step down.

A function of a node that stands for another is the exception.  Its code is that of
the other node, which may well be a call of the function itself.  So nothing of the
kind may be registered: all functions are to be of nodes that stand for themselves.
-/
import Typeforge.Proofs.Running.Ending

namespace Typeforge

/-! ## Nodes that stand for themselves -/

theorem Node.standsFor?_of_hasBody {n : Node} (h : n.hasBody = true) : n.standsFor? = none := by
  rw [hasBody] at h
  unfold standsFor?
  cases hshape : n.shape <;> rw [hshape] at h <;> cases h

/-- The functions of a registry are those of nodes that stand for themselves, and call only one
another. -/
def Registry.Grounded (a : Arena) (limit : Nat) (r : Registry) : Prop :=
  ∀ f ∈ r.functions, ∃ id, (a.node id).standsFor? = none ∧
    Compile.FunctionOf a (r.contains · = true) limit id f

/-- Builds of nodes that stand for themselves register functions of no others. -/
theorem Engine.Builds.grounded {e : Engine} {a : Arena} {r : Registry}
    {handles : List (NodeId × Handle)} (built : e.Builds a r handles)
    (own : ∀ x ∈ handles, (a.node x.1).standsFor? = none) :
    r.Grounded a (e.config.maxDepth - 1) := by
  induction built with
  | fresh => exact fun _ h => absurd h List.not_mem_nil
  | build past hbuild ih =>
    obtain ⟨hid, hpast⟩ := List.forall_mem_cons.mp own
    obtain ⟨hle, -, hfunctions⟩ := registered_of_build hbuild
    intro f hf
    rcases hfunctions f hf with hf | ⟨start, hstart, hof⟩
    · obtain ⟨start, hself, hof⟩ := ih hpast f hf
      exact ⟨start, hself, Compile.FunctionOf.mono _ start f hle hof⟩
    · refine ⟨start, ?_, hof⟩
      rcases hstart with rfl | hbody
      · exact hid
      · exact Node.standsFor?_of_hasBody hbody

theorem Registry.Grounded.compiled {a : Arena} {limit : Nat} {r : Registry}
    (grounded : r.Grounded a limit) : r.Compiled a limit := fun f hf => by
  obtain ⟨id, -, hof⟩ := grounded f hf
  exact ⟨id, hof⟩

/-! ## Answers of tests -/

namespace Check

variable (call : String → Value → Option Bool) (n : Nat)

/-- A test answers whatever a type, followed down to a depth, does. -/
def Answers (c : Check) (t : TypeTree) : Prop := ∀ v, Known (t.judge n v) (c.run call v)

/-- Tests of a value, all of which must hold, answer whatever demands do. -/
def Asks (checks : List Check) (v : Value) (demands : List Demand) : Prop :=
  Known (demands.allM fun d => d.tree.judge n d.value) (checks.allM fun c => c.run call v)

variable {call n} {c : Check} {t : TypeTree} {v : Value} {cs cs' : List Check}
  {ds ds' : List Demand}

theorem Answers.eq_true (h : c.Answers call n t) (hc : c.isAlways = true) {v : Value} {b : Bool}
    (hb : t.judge n v = some b) : b = true := by
  have hrun := h v b hb
  rw [run_of_isAlways hc] at hrun
  exact (Option.some.inj hrun).symm

theorem Asks.append (h : Asks call n cs v ds) (h' : Asks call n cs' v ds') :
    Asks call n (cs ++ cs') v (ds ++ ds') := by
  intro b hb
  rw [allM_append] at hb ⊢
  cases hds : ds.allM fun d => d.tree.judge n d.value with
  | none =>
    rw [hds] at hb
    cases hb
  | some answer =>
    rw [hds] at hb
    rw [h answer hds]
    cases answer with
    | false => exact hb
    | true => exact h' b hb

theorem Asks.nil : Asks call n [] v [] := .rfl

theorem Asks.self (h : c.Answers call n t) : Asks call n [c] v [⟨[], t, v⟩] := by
  intro b hb
  rw [List.allM] at hb ⊢
  cases hjudge : t.judge n v with
  | none =>
    rw [hjudge] at hb
    cases hb
  | some answer =>
    rw [hjudge] at hb
    rw [h v answer hjudge]
    exact hb

/-- A test of all parts is no test where the part's test always holds. -/
theorem Asks.parts {parts : List (PathItem × Value)} {wrap : Check → Check}
    (h : c.Answers call n t)
    (hrun : (wrap c).run call v = (parts.map (·.2)).allM (c.run call)) :
    Asks call n (Compile.unlessAlways c wrap) v (t.each parts) := by
  have hparts : Known ((t.each parts).allM fun d => d.tree.judge n d.value)
      ((parts.map (·.2)).allM (c.run call)) := by
    rw [TypeTree.each, allM_map, allM_map]
    exact .allM fun x _ => h x.2
  unfold Compile.unlessAlways
  split
  · rename_i hc
    intro b hb
    have hall := hparts b hb
    cases b with
    | true => rfl
    | false =>
      obtain ⟨w, -, hw⟩ := (allM_eq_some hall).2 rfl
      rw [run_of_isAlways hc] at hw
      cases hw
  · intro b hb
    rw [List.allM, hrun, hparts b hb]
    cases b <;> rfl

theorem Asks.each (h : c.Answers call n t) (start : Nat) (hv : Kind.array.holds v = true) :
    Asks call n (Compile.unlessAlways c (.each start)) v (t.each (v.stepsFrom start)) := by
  refine .parts h ?_
  cases v <;> simp only [Kind.holds, Bool.false_eq_true] at hv
  rename_i items
  rw [run, Value.allFrom, Value.stepsFrom_values]

theorem Asks.eachKey (h : c.Answers call n t) (filter : KeyFilter) (skip : List String)
    (hv : Kind.object.holds v = true) :
    Asks call n (Compile.unlessAlways c (.eachKey filter skip)) v
      (t.each (v.stepsCovered (filter.covers skip))) := by
  refine .parts h ?_
  cases v <;> simp only [Kind.holds, Bool.false_eq_true] at hv
  rename_i members
  rw [run, Value.allCovered, Value.stepsCovered_values, allM_map]

/-- A part that may be left out is asked for where it is not. -/
theorem Asks.part (h : c.Answers call n t) (access : Access) (optional : Bool) (step : PathItem)
    (v : Value) :
    Asks call n (Compile.unlessAlways c (.part access optional)) v
      (t.reached step optional (access.read v)) := by
  cases hskip : optional && (access.read v).isUndefined with
  | true =>
    rw [TypeTree.reached, hskip, if_pos rfl]
    unfold Compile.unlessAlways
    split
    · exact .nil
    · intro b hb
      rw [List.allM, run, hskip, if_pos rfl]
      exact hb
  | false =>
    rw [TypeTree.reached, hskip, if_neg Bool.false_ne_true]
    change Asks call n (Compile.unlessAlways c _) v (t.each [(step, access.read v)])
    refine .parts h ?_
    rw [run, hskip, if_neg Bool.false_ne_true, List.map_singleton, List.allM]
    cases c.run call (access.read v) with
    | none => rfl
    | some b => cases b <;> rfl

/-- A test of what is demanded of every value. -/
theorem Answers.demands {ds : Value → List Demand} (hfacet : ∀ v, t.facet v = .all (ds v))
    (hasks : ∀ v, Asks call n cs v (ds v)) : (allOf cs).Answers call (n + 1) t := by
  intro v
  rw [run_allOf, TypeTree.judge, hfacet]
  exact hasks v

/-- A test of the kind of a value, and then of what is demanded of its parts. -/
theorem Answers.guarded {shape : List Check} {fits : Value → Bool} {expected : String}
    {ds : Value → List Demand} (hfacet : ∀ v, t.facet v = .guarded (fits v) expected (ds v))
    (hshape : ∀ v, shape.allM (fun c => c.run call v) = some (fits v))
    (hasks : ∀ v, fits v = true → Asks call n cs v (ds v)) :
    (allOf (shape ++ cs)).Answers call (n + 1) t := by
  intro v
  rw [run_allOf, allM_append, hshape, TypeTree.judge, hfacet]
  cases hfits : fits v with
  | false => exact .rfl
  | true => exact hasks v hfits

/-! ## Nodes -/

section Nodes

variable {a : Arena} {child : NodeId → Check → Prop} {id : NodeId}

/-- The tests of children answer whatever the children's types do. -/
abbrev ChildrenAnswer (call : String → Value → Option Bool) (n : Nat) (a : Arena)
    (child : NodeId → Check → Prop) : Prop :=
  ∀ id c, child id c → c.Answers call n (a.unfolding id)

theorem asks_declared {props : List Arena.Property} {declared : List Check}
    (hchild : ChildrenAnswer call n a child)
    (hdeclared : List.Forall₂ (fun p c => child p.id c) props declared) (v : Value) :
    Asks call n declared v (props.map fun p => ⟨[], a.unfolding p.id, v⟩) := by
  induction hdeclared with
  | nil => exact .nil
  | cons hc _ ih => exact .append (.self (hchild _ _ hc)) ih

theorem asks_elements {xs : List (NodeId × Nat)} {elements : List (List Check)}
    (hchild : ChildrenAnswer call n a child)
    (helements : List.Forall₂ (fun x out => ∃ c, child x.1 c ∧
        out = Compile.unlessAlways c (.part (.element x.2) (a.node x.1).optional))
      xs elements) (v : Value) :
    Asks call n elements.flatten v (xs.flatMap fun x =>
      (a.unfolding x.1).reached (.index x.2) (a.node x.1).optional (v.element x.2)) := by
  induction helements with
  | nil => exact .nil
  | cons hout _ ih =>
    obtain ⟨c, hc, rfl⟩ := hout
    exact .append (.part (hchild _ _ hc) (.element _) _ _ v) ih

theorem answers_object {props : List NodeId} {index : Option NodeId} {className : Option String}
    {declared others : List Check} (hchild : ChildrenAnswer call n a child)
    (h : (a.node id).shape = .object props index className)
    (hdeclared : List.Forall₂ (fun p c => child p.id c) (a.properties props) declared)
    (hothers : Compile.Others (a.indexFilter index) (fun x c => child x.1 c)
      (fun x c => Compile.unlessAlways c
        (.eachKey x.2 (Compile.declaredNames (a.properties props)))) [] others) :
    (allOf (.is .object :: declared ++ others)).Answers call (n + 1) (a.unfolding id) := by
  change (allOf ([.is .object] ++ (declared ++ others))).Answers call (n + 1) (a.unfolding id)
  refine .guarded (fun v => Arena.facet_object h) (allM_is .object)
    fun v hv => .append (asks_declared hchild hdeclared v) ?_
  cases hothers with
  | absent hindex =>
    rw [hindex]
    exact .nil
  | present hindex hc =>
    rw [hindex]
    exact .eachKey (hchild _ _ hc) _ _ hv

theorem answers_tuple {members fixed : List NodeId} {rest : Option NodeId}
    {elements : List (List Check)} {others : List Check} (hchild : ChildrenAnswer call n a child)
    (h : (a.node id).shape = .tuple members) (hsplit : a.splitTuple members = (fixed, rest))
    (helements : List.Forall₂ (fun x out => ∃ c, child x.1 c ∧
        out = Compile.unlessAlways c (.part (.element x.2) (a.node x.1).optional))
      fixed.zipIdx elements)
    (hothers : Compile.Others rest child
      (fun _ c => Compile.unlessAlways c (.each fixed.length)) [] others) :
    (allOf (Compile.tupleShape fixed.length rest.isSome ++ elements.flatten ++ others)).Answers
      call (n + 1) (a.unfolding id) := by
  have hfacet (v : Value) := Arena.facet_tuple (v := v) h
  simp only [hsplit] at hfacet
  rw [List.append_assoc]
  refine .guarded hfacet (allM_tupleShape _ _) fun v hv => ?_
  simp only [Arena.tupleDemands, hsplit]
  refine .append (asks_elements hchild helements v) ?_
  cases hothers with
  | absent hrest =>
    rw [hrest]
    exact .nil
  | present hrest hc =>
    rw [hrest]
    exact .each (hchild _ _ hc) _ (Bool.and_eq_true_iff.mp hv).1

/-- Where a member's test always holds, no answer can be no. -/
theorem answers_unionCheck {members : List NodeId} (hchild : ChildrenAnswer call n a child)
    (hfacet : ∀ v, t.facet v = .oneOf (members.map a.unfolding))
    (hc : Compile.UnionCheck child members c) : c.Answers call (n + 1) t := by
  intro v
  rw [TypeTree.judge, hfacet]
  change Known ((members.map a.unfolding).anyM fun u => u.judge n v) (c.run call v)
  cases hc with
  | always mem hc hal =>
    intro b hb
    cases b with
    | true => rfl
    | false =>
      have hno := (anyM_eq_some hb).2 rfl _ (List.mem_map_of_mem mem)
      cases (hchild _ _ hc).eq_true hal hno
  | @arms cs h =>
    rw [run, runAny_eq_anyM]
    clear hfacet
    induction h with
    | nil => exact .rfl
    | cons hc _ ih =>
      intro b hb
      rw [List.map_cons, List.anyM] at hb
      rw [List.anyM]
      cases hjudge : (a.unfolding _).judge n v with
      | none =>
        rw [hjudge] at hb
        cases hb
      | some answer =>
        rw [hjudge] at hb
        rw [hchild _ _ hc v answer hjudge]
        cases answer with
        | true => exact hb
        | false => exact ih b hb

/-- The test of a node with a label follows its type one level further than the tests of its
children. -/
theorem answers_node (hchild : ChildrenAnswer call n a child)
    (hself : (a.node id).standsFor? = none) (h : Compile.CheckNode a child (a.node id) c) :
    c.Answers call (n + 1) (a.unfolding id) := by
  cases h with
  | @atom x _ h hc =>
    intro v b hb
    rw [TypeTree.judge, Arena.facet_atom h] at hb
    rw [run_check? hc]
    cases hx : x.holds v with
    | true =>
      rw [hx] at hb
      exact hb
    | false =>
      rw [hx] at hb
      exact hb
  | array h hc =>
    exact .guarded (fun v => Arena.facet_array h) (allM_is .array)
      fun v hv => .each (hchild _ _ hc) 0 hv
  | property h hc =>
    exact .demands (fun v => Arena.facet_property h)
      fun v => .part (hchild _ _ hc) (.member _) _ _ v
  | standsFor h hc => cases hself.symm.trans h
  | object h hdeclared hothers => exact answers_object hchild h hdeclared hothers
  | tuple h hsplit helements hothers => exact answers_tuple hchild h hsplit helements hothers
  | union h hc => exact answers_unionCheck hchild (fun v => Arena.facet_union h) hc

end Nodes

/-! ## Calls -/

section Calls

variable {a : Arena} {known : Keys}

/-- The tests that are known to be registered answer whatever the types of their nodes do. -/
abbrev CallsAnswer (call : String → Value → Option Bool) (n : Nat) (a : Arena) (known : Keys) :
    Prop :=
  ∀ id, known ⟨(a.node id).identity, .isType⟩ → ∀ v,
    Known ((a.unfolding id).judge n v) (call (a.node id).identity v)

theorem CallsAnswer.mono {m : Nat} (h : CallsAnswer call n a known) (hm : m ≤ n) :
    CallsAnswer call m a known :=
  fun id hknown v => (TypeTree.judge_mono hm).trans (h id hknown v)

theorem answers_at (hcall : CallsAnswer call n a known) {depth : Nat} {id : NodeId} {c : Check}
    (h : Compile.CheckAt a known depth id c) : c.Answers call n (a.unfolding id) := by
  induction depth generalizing id c n with
  | zero =>
    cases h with
    | plain h => cases h
    | called _ hknown => exact fun v => hcall id hknown v
    | inPlace _ h => exact h.elim
  | succ depth ih =>
    cases h with
    | plain h => cases h
    | called _ hknown => exact fun v => hcall id hknown v
    | inPlace _ h =>
      cases hself : (a.node id).standsFor? with
      | some child =>
        rw [Arena.unfolding_of_standsFor hself]
        cases h with
        | standsFor h hc =>
          cases h.symm.trans hself
          exact ih hcall hc
        | atom h | array h | property h | object h | tuple h | union h =>
          simp only [Node.standsFor?, h, reduceCtorEq] at hself
      | none =>
        cases n with
        | zero => exact fun v => .none
        | succ n => exact answers_node (fun _ _ => ih (hcall.mono n.le_succ)) hself h

end Calls

end Check

namespace Program

variable {a : Arena} {r : Registry} {limit : Nat} (revivers : Revivers)

/-- The function registered under an identity, made of a node that stands for itself. -/
theorem exists_grounded (faithful : a.Faithful) (grounded : r.Grounded a limit) {id : NodeId}
    {target : Target} (hkey : ⟨(a.node id).identity, target⟩ ∈ r.keys) :
    ∃ f, f.key = ⟨(a.node id).identity, target⟩ ∧
      (Program.mk r.functions revivers).body? ⟨(a.node id).identity, target⟩ = some f.body ∧
      ∃ node, (a.node node).standsFor? = none ∧
        Compile.FunctionOf a (r.contains · = true) limit node f ∧
        ((a.node node).identity = (a.node id).identity → a.unfolding node = a.unfolding id) := by
  obtain ⟨f, hf, hfkey, hbody⟩ := exists_body? revivers hkey
  obtain ⟨node, hself, hof⟩ := grounded f hf
  exact ⟨f, hfkey, hbody, node, hself, hof, fun hsame => faithful node id hsame⟩

/-- Calls of registered tests answer whatever the types of their nodes do, followed no deeper than
calls may be nested. -/
theorem callsAnswer (faithful : a.Faithful) (grounded : r.Grounded a limit) (n : Nat) :
    Check.CallsAnswer ((Program.mk r.functions revivers).checkCall n) n a
      (r.contains · = true) := by
  induction n with
  | zero => exact fun _ _ _ => .none
  | succ n ih =>
    intro id hknown v
    obtain ⟨f, hf, hbody, node, hself, hof, htree⟩ :=
      exists_grounded revivers faithful grounded (Registry.contains_iff.mp hknown)
    cases hof with
    | isType _ h =>
      cases h with
      | plain h => cases h
      | inPlace _ h =>
        rw [checkCall, hbody, ← htree (congrArg FunctionKey.identity hf)]
        exact Check.answers_node (fun _ _ => Check.answers_at ih) hself h v
    | typeErrors | jsonEncode | jsonDecode | jsonStringify =>
      cases congrArg FunctionKey.target hf

/-- **Code that calls registered tests answers whatever the type of its node does.** -/
theorem check_of_judge (faithful : a.Faithful) (grounded : r.Grounded a limit) {depth : Nat}
    {id : NodeId} {c : Check} (h : Compile.CheckAt a (r.contains · = true) depth id c) (n : Nat)
    (v : Value) :
    Known ((a.unfolding id).judge n v) ((Program.mk r.functions revivers).check c v) :=
  (Check.answers_at (callsAnswer revivers faithful grounded n) h v).trans (check_ends n)

end Program

end Typeforge
