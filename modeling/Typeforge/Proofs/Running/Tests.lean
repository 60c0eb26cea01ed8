/-
# `Typeforge.Proofs.Running.Tests` — a test judges values as its type does

The test of a node leaves out what always holds, asks about properties through
the object and calls other tests.  Whenever it comes to an answer, the unfolded
type of the node has the same answer.

The induction is on the depth of the walk that compiled the test for code that
stands in place, and on the number of nested calls for code that is called.
-/
import Typeforge.Proofs.Compiling.Built
import Typeforge.Proofs.Types.Deciding

namespace Typeforge

/-! ## Running lists of tests -/

theorem allM_map {α β : Type} (f : α → β) (p : β → Option Bool) (xs : List α) :
    (xs.map f).allM p = xs.allM fun x => p (f x) := by
  induction xs with
  | nil => rfl
  | cons x xs ih => rw [List.map_cons, List.allM, List.allM, ih]

theorem allM_append {α : Type} (p : α → Option Bool) (xs ys : List α) :
    (xs ++ ys).allM p = (do if ← xs.allM p then ys.allM p else pure false) := by
  induction xs with
  | nil => rfl
  | cons x xs ih =>
    rw [List.cons_append, List.allM, List.allM, ih]
    cases p x with
    | none => rfl
    | some b => cases b <;> rfl

namespace Value

theorem stepsFrom_values (start : Nat) (items : List Value) :
    ((array items).stepsFrom start).map (·.2) = items.drop start := by
  rw [stepsFrom, List.map_map, List.map_drop]
  exact congrArg (List.drop start) (List.zipIdx_map_fst 0 items)

theorem stepsCovered_values (covers : String → Bool) (members : List (String × Value)) :
    ((object members).stepsCovered covers).map (·.2) =
      (members.filter fun m => covers m.1).map (·.2) := by
  rw [stepsCovered, List.map_map]
  rfl

end Value

namespace Check

variable {call : String → Value → Option Bool}

theorem runAll_eq_allM (checks : List Check) (v : Value) :
    runAll call checks v = checks.allM fun c => c.run call v := by
  induction checks with
  | nil => rfl
  | cons c rest ih =>
    rw [runAll, List.allM, ih]
    cases c.run call v with
    | none => rfl
    | some b => cases b <;> rfl

theorem run_of_isAlways {c : Check} (h : c.isAlways = true) (v : Value) :
    c.run call v = some true := by
  cases c <;> first | rfl | cases h

theorem allM_filter_not_isAlways (checks : List Check) (v : Value) :
    (checks.filter fun c => !c.isAlways).allM (fun c => c.run call v) =
      checks.allM fun c => c.run call v := by
  induction checks with
  | nil => rfl
  | cons c rest ih =>
    cases h : c.isAlways with
    | true =>
      rw [List.filter_cons_of_neg (by simp [h]), ih, List.allM, run_of_isAlways h]
      rfl
    | false => rw [List.filter_cons_of_pos (by simp [h]), List.allM, List.allM, ih]

/-- Leaving out tests that always hold changes nothing. -/
theorem run_allOf (checks : List Check) (v : Value) :
    (allOf checks).run call v = checks.allM fun c => c.run call v := by
  rw [← allM_filter_not_isAlways]
  unfold allOf
  split
  · rename_i h
    rw [h]
    rfl
  · rename_i c h
    rw [h, List.allM]
    cases c.run call v with
    | none => rfl
    | some b => cases b <;> rfl
  · rw [run, runAll_eq_allM]

end Check

/-! ## Tests and demands -/

namespace Check

variable (call : String → Value → Option Bool)

/-- A test judges values as a type does. -/
def Tests (c : Check) (t : TypeTree) : Prop :=
  ∀ v b, c.run call v = some b → Judges t v b

/-- Tests of a value, all of which must hold, judge it as demands do. -/
structure Meets (checks : List Check) (v : Value) (demands : List Demand) : Prop where
  holds : (∀ c ∈ checks, c.run call v = some true) →
    ∀ d ∈ demands, Judges d.tree d.value true
  fails : ∀ c ∈ checks, c.run call v = some false →
    ∃ d ∈ demands, Judges d.tree d.value false

variable {call} {c : Check} {t : TypeTree} {v : Value}

theorem Tests.always (h : c.Tests call t) (hc : c.isAlways = true) (v : Value) :
    Judges t v true := h v _ (run_of_isAlways hc v)

theorem Meets.append {cs cs' : List Check} {ds ds' : List Demand} (h : Meets call cs v ds)
    (h' : Meets call cs' v ds') : Meets call (cs ++ cs') v (ds ++ ds') where
  holds hall := by
    rw [List.forall_mem_append] at hall ⊢
    exact ⟨h.holds hall.1, h'.holds hall.2⟩
  fails c hc hrun := by
    rcases List.mem_append.mp hc with hc | hc
    · obtain ⟨d, hd, hfails⟩ := h.fails c hc hrun
      exact ⟨d, List.mem_append_left _ hd, hfails⟩
    · obtain ⟨d, hd, hfails⟩ := h'.fails c hc hrun
      exact ⟨d, List.mem_append_right _ hd, hfails⟩

/-- Demands that every value meets need no test. -/
theorem Meets.nil {ds : List Demand} (h : ∀ d ∈ ds, Judges d.tree d.value true) :
    Meets call [] v ds := ⟨fun _ => h, fun _ hc => absurd hc List.not_mem_nil⟩

theorem Meets.singleton {ds : List Demand}
    (holds : c.run call v = some true → ∀ d ∈ ds, Judges d.tree d.value true)
    (fails : c.run call v = some false → ∃ d ∈ ds, Judges d.tree d.value false) :
    Meets call [c] v ds where
  holds hall := holds (hall c List.mem_cons_self)
  fails _ hmem hrun := fails (List.mem_singleton.mp hmem ▸ hrun)

/-- A test of the value itself. -/
theorem Meets.self (h : c.Tests call t) : Meets call [c] v [⟨[], t, v⟩] :=
  .singleton (fun hrun _ hd => List.mem_singleton.mp hd ▸ h v true hrun)
    fun hrun => ⟨_, List.mem_cons_self, h v false hrun⟩

/-- A test that a test of all parts is made of, unless it always holds. -/
theorem Meets.unlessAlways {ds : List Demand} {wrap : Check → Check} (h : c.Tests call t)
    (hds : ∀ d ∈ ds, d.tree = t)
    (hwrap : Meets call [wrap c] v ds) : Meets call (Compile.unlessAlways c wrap) v ds := by
  unfold Compile.unlessAlways
  split
  · rename_i hc
    exact .nil fun d hd => hds d hd ▸ h.always hc d.value
  · exact hwrap

/-- A test of a part, which may be left out. -/
theorem Meets.part (h : c.Tests call t) (access : Access) (optional : Bool) (step : PathItem)
    (v : Value) :
    Meets call (Compile.unlessAlways c (.part access optional)) v
      (t.reached step optional (access.read v)) := by
  by_cases hskip : (optional && (access.read v).isUndefined) = true
  · simp only [TypeTree.reached, hskip, if_true]
    refine .unlessAlways h (fun _ hd => absurd hd List.not_mem_nil) (.singleton ?_ ?_)
    · exact fun _ _ hd => absurd hd List.not_mem_nil
    · intro hrun
      simp [run, hskip] at hrun
  · simp only [TypeTree.reached, hskip]
    refine .unlessAlways h (fun d hd => by rw [List.mem_singleton.mp hd]) (.singleton ?_ ?_)
    · intro hrun d hd
      simp only [run, hskip] at hrun
      exact List.mem_singleton.mp hd ▸ h _ _ hrun
    · intro hrun
      simp only [run, hskip] at hrun
      exact ⟨_, List.mem_cons_self, h _ _ hrun⟩

theorem mem_each {t : TypeTree} {parts : List (PathItem × Value)} {d : Demand} :
    d ∈ t.each parts ↔ ∃ x ∈ parts, d = ⟨[x.1], t, x.2⟩ := by
  simp only [TypeTree.each, List.mem_map, eq_comm]

/-- A test of each part. -/
theorem Meets.parts {parts : List (PathItem × Value)} {wrap : Check → Check}
    (h : c.Tests call t)
    (hrun : (wrap c).run call v = (parts.map (·.2)).allM (c.run call)) :
    Meets call (Compile.unlessAlways c wrap) v (t.each parts) := by
  have hds : ∀ d ∈ t.each parts, d.tree = t := fun d hd => by
    obtain ⟨x, -, rfl⟩ := mem_each.mp hd
    rfl
  refine .unlessAlways h hds (.singleton ?_ ?_)
  · intro htrue d hd
    rw [hrun] at htrue
    obtain ⟨x, hx, rfl⟩ := mem_each.mp hd
    exact h _ _ ((allM_eq_some htrue).1 rfl _ (List.mem_map_of_mem hx))
  · intro hfalse
    rw [hrun] at hfalse
    obtain ⟨w, hw, hfails⟩ := (allM_eq_some hfalse).2 rfl
    obtain ⟨x, hx, rfl⟩ := List.mem_map.mp hw
    exact ⟨_, mem_each.mpr ⟨x, hx, rfl⟩, h _ _ hfails⟩

/-- A test of the elements from an index on. -/
theorem Meets.each (h : c.Tests call t) (start : Nat) (hv : Kind.array.holds v = true) :
    Meets call (Compile.unlessAlways c (.each start)) v (t.each (v.stepsFrom start)) := by
  refine .parts h ?_
  cases v <;> simp only [Kind.holds, Bool.false_eq_true] at hv
  rename_i items
  rw [run, Value.allFrom, Value.stepsFrom_values]

/-- A test of the members that a filter covers. -/
theorem Meets.eachKey (h : c.Tests call t) (filter : KeyFilter) (skip : List String)
    (hv : Kind.object.holds v = true) :
    Meets call (Compile.unlessAlways c (.eachKey filter skip)) v
      (t.each (v.stepsCovered (filter.covers skip))) := by
  refine .parts h ?_
  cases v <;> simp only [Kind.holds, Bool.false_eq_true] at hv
  rename_i members
  rw [run, Value.allCovered, Value.stepsCovered_values, allM_map]

theorem Meets.judges {cs : List Check} {ds : List Demand} {b : Bool} (h : Meets call cs v ds)
    (hfacet : t.facet v = .all ds) (hrun : cs.allM (fun c => c.run call v) = some b) :
    Judges t v b := by
  obtain ⟨htrue, hfalse⟩ := allM_eq_some hrun
  cases b with
  | true => exact .holds hfacet (h.holds (htrue rfl))
  | false =>
    obtain ⟨c, hc, hfails⟩ := hfalse rfl
    obtain ⟨d, hd, hdfails⟩ := h.fails c hc hfails
    exact .fails hfacet hd hdfails

/-- A test of what is demanded of the parts of every value. -/
theorem Tests.demands {cs : List Check} {ds : Value → List Demand}
    (hfacet : ∀ v, t.facet v = .all (ds v)) (hmeets : ∀ v, Meets call cs v (ds v)) :
    (allOf cs).Tests call t := by
  intro v b hrun
  rw [run_allOf] at hrun
  exact (hmeets v).judges (hfacet v) hrun

/-- A test of the kind of a value, and then of what is demanded of its parts. -/
theorem Tests.guarded {shape cs : List Check} {fits : Value → Bool} {expected : String}
    {ds : Value → List Demand}
    (hfacet : ∀ v, t.facet v = .guarded (fits v) expected (ds v))
    (hshape : ∀ v, shape.allM (fun c => c.run call v) = some (fits v))
    (hmeets : ∀ v, fits v = true → Meets call cs v (ds v)) :
    (allOf (shape ++ cs)).Tests call t := by
  intro v b hrun
  rw [run_allOf, allM_append, hshape] at hrun
  cases hfits : fits v with
  | false =>
    rw [hfits] at hrun
    cases hrun
    exact .misfit (by rw [hfacet, hfits]; rfl)
  | true =>
    rw [hfits] at hrun
    exact (hmeets v hfits).judges (by rw [hfacet, hfits]; rfl) hrun

/-! ## Nodes -/

section Nodes

variable {a : Arena} {child : NodeId → Check → Prop} {id : NodeId}

/-- The tests of children judge as the children's types do. -/
abbrev ChildrenTest (call : String → Value → Option Bool) (a : Arena)
    (child : NodeId → Check → Prop) : Prop :=
  ∀ id c, child id c → c.Tests call (a.unfolding id)

theorem runAny_eq_anyM (checks : List Check) (v : Value) :
    runAny call checks v = checks.anyM fun c => c.run call v := by
  induction checks with
  | nil => rfl
  | cons c rest ih =>
    rw [runAny, List.anyM, ih]
    cases c.run call v with
    | none => rfl
    | some b => cases b <;> rfl

theorem run_check? {x : Atom} (hc : x.check? = some c) (v : Value) :
    c.run call v = some (x.holds v) := by
  cases x <;> cases hc <;> simp only [run, Atom.holds, List.any_map] <;> cases v <;> rfl

theorem tests_atom {x : Atom} (h : (a.node id).shape = .atom x) (hc : x.check? = some c) :
    c.Tests call (a.unfolding id) := by
  intro v b hrun
  rw [run_check? hc] at hrun
  cases hrun
  have hfacet := Arena.facet_atom (v := v) h
  cases hx : x.holds v with
  | true =>
    rw [hx] at hfacet
    exact .holds hfacet fun _ hd => absurd hd List.not_mem_nil
  | false =>
    rw [hx] at hfacet
    exact .misfit hfacet

/-- The test of a union, by the tests of its members. -/
theorem tests_unionCheck {members : List NodeId} (hchild : ChildrenTest call a child)
    (hfacet : ∀ v, t.facet v = .oneOf (members.map a.unfolding))
    (hc : Compile.UnionCheck child members c) : c.Tests call t := by
  intro v b hrun
  cases hc with
  | always mem hc hal =>
    cases hrun
    exact .member (hfacet v) (List.mem_map_of_mem mem) ((hchild _ _ hc).always hal v)
  | @arms cs h =>
    rw [run, runAny_eq_anyM] at hrun
    obtain ⟨htrue, hfalse⟩ := anyM_eq_some hrun
    cases b with
    | true =>
      obtain ⟨c, hc, hholds⟩ := htrue rfl
      obtain ⟨id, hid, hchild_c⟩ := exists_of_forall₂_right h hc
      exact .member (hfacet v) (List.mem_map_of_mem hid) (hchild _ _ hchild_c v true hholds)
    | false =>
      refine .noMember (hfacet v) fun u hu => ?_
      obtain ⟨id, hid, rfl⟩ := List.mem_map.mp hu
      obtain ⟨c, hc, hchild_c⟩ := exists_of_forall₂_left h hid
      exact hchild _ _ hchild_c v false (hfalse rfl c hc)

theorem meets_elements {xs : List (NodeId × Nat)} {elements : List (List Check)}
    (hchild : ChildrenTest call a child)
    (helements : List.Forall₂ (fun x out => ∃ c, child x.1 c ∧
        out = Compile.unlessAlways c (.part (.element x.2) (a.node x.1).optional))
      xs elements) (v : Value) :
    Meets call elements.flatten v (xs.flatMap fun x =>
      (a.unfolding x.1).reached (.index x.2) (a.node x.1).optional (v.element x.2)) := by
  induction helements with
  | nil => exact .nil fun _ hd => absurd hd List.not_mem_nil
  | cons hout _ ih =>
    obtain ⟨c, hc, rfl⟩ := hout
    exact .append (.part (hchild _ _ hc) (.element _) _ _ v) ih

theorem meets_declared {props : List Arena.Property} {declared : List Check}
    (hchild : ChildrenTest call a child)
    (hdeclared : List.Forall₂ (fun p c => child p.id c) props declared) (v : Value) :
    Meets call declared v (props.map fun p => ⟨[], a.unfolding p.id, v⟩) := by
  induction hdeclared with
  | nil => exact .nil fun _ hd => absurd hd List.not_mem_nil
  | cons hc _ ih => exact .append (.self (hchild _ _ hc)) ih

theorem allM_is (kind : Kind) (v : Value) :
    [Check.is kind].allM (fun c => c.run call v) = some (kind.holds v) := by
  rw [List.allM]
  simp only [run, Option.bind_eq_bind, Option.bind_some]
  cases kind.holds v <;> rfl

theorem allM_tupleShape (fixed : Nat) (rest : Bool) (v : Value) :
    (Compile.tupleShape fixed rest).allM (fun c => c.run call v) =
      some (Kind.array.holds v && (rest || v.fits fixed)) := by
  cases rest with
  | true =>
    rw [Compile.tupleShape, if_pos rfl, allM_is]
    simp
  | false =>
    rw [Compile.tupleShape, if_neg Bool.false_ne_true, List.allM, List.allM, List.allM]
    simp only [run, Option.bind_eq_bind, Option.bind_some]
    cases Kind.array.holds v <;> cases v.fits fixed <;> rfl

theorem tests_object {props : List NodeId} {index : Option NodeId} {className : Option String}
    {declared others : List Check} (hchild : ChildrenTest call a child)
    (h : (a.node id).shape = .object props index className)
    (hdeclared : List.Forall₂ (fun p c => child p.id c) (a.properties props) declared)
    (hothers : Compile.Others (a.indexFilter index) (fun x c => child x.1 c)
      (fun x c => Compile.unlessAlways c
        (.eachKey x.2 (Compile.declaredNames (a.properties props)))) [] others) :
    (allOf (.is .object :: declared ++ others)).Tests call (a.unfolding id) := by
  change (allOf ([.is .object] ++ (declared ++ others))).Tests call (a.unfolding id)
  refine .guarded (fun v => Arena.facet_object h) (allM_is .object)
    fun v hv => .append (meets_declared hchild hdeclared v) ?_
  cases hothers with
  | absent hindex =>
    rw [hindex]
    exact .nil fun _ hd => absurd hd List.not_mem_nil
  | present hindex hc =>
    rw [hindex]
    exact .eachKey (hchild _ _ hc) _ _ hv

theorem tests_tuple {members fixed : List NodeId} {rest : Option NodeId}
    {elements : List (List Check)} {others : List Check} (hchild : ChildrenTest call a child)
    (h : (a.node id).shape = .tuple members) (hsplit : a.splitTuple members = (fixed, rest))
    (helements : List.Forall₂ (fun x out => ∃ c, child x.1 c ∧
        out = Compile.unlessAlways c (.part (.element x.2) (a.node x.1).optional))
      fixed.zipIdx elements)
    (hothers : Compile.Others rest child
      (fun _ c => Compile.unlessAlways c (.each fixed.length)) [] others) :
    (allOf (Compile.tupleShape fixed.length rest.isSome ++ elements.flatten ++ others)).Tests call
      (a.unfolding id) := by
  have hfacet (v : Value) := Arena.facet_tuple (v := v) h
  simp only [hsplit] at hfacet
  rw [List.append_assoc]
  refine .guarded hfacet (allM_tupleShape _ _) fun v hv => ?_
  simp only [Arena.tupleDemands, hsplit]
  refine .append (meets_elements hchild helements v) ?_
  cases hothers with
  | absent hrest =>
    rw [hrest]
    exact .nil fun _ hd => absurd hd List.not_mem_nil
  | present hrest hc =>
    rw [hrest]
    exact .each (hchild _ _ hc) _ (Bool.and_eq_true_iff.mp hv).1

/-- The test of a node judges as its type does, if the tests of its children do. -/
theorem tests_node (hchild : ChildrenTest call a child)
    (h : Compile.CheckNode a child (a.node id) c) : c.Tests call (a.unfolding id) := by
  cases h with
  | atom h hc => exact tests_atom h hc
  | array h hc =>
    exact .guarded (fun v => Arena.facet_array h) (allM_is .array)
      fun v hv => .each (hchild _ _ hc) 0 hv
  | property h hc =>
    exact .demands (fun v => Arena.facet_property h)
      fun v => .part (hchild _ _ hc) (.member _) _ _ v
  | standsFor h hc => exact Arena.unfolding_of_standsFor h ▸ hchild _ _ hc
  | object h hdeclared hothers => exact tests_object hchild h hdeclared hothers
  | tuple h hsplit helements hothers => exact tests_tuple hchild h hsplit helements hothers
  | union h hc => exact tests_unionCheck hchild (fun v => Arena.facet_union h) hc

end Nodes

/-! ## Calls -/

section Calls

variable {a : Arena} {known : Keys}

/-- The tests that are known to be registered judge as the types of their nodes do. -/
abbrev CallsTest (call : String → Value → Option Bool) (a : Arena) (known : Keys) : Prop :=
  ∀ id, known ⟨(a.node id).identity, .isType⟩ →
    ∀ v b, call (a.node id).identity v = some b → Judges (a.unfolding id) v b

theorem tests_at (hcall : CallsTest call a known) {depth : Nat} {id : NodeId} {c : Check}
    (h : Compile.CheckAt a known depth id c) : c.Tests call (a.unfolding id) := by
  induction depth generalizing id c with
  | zero =>
    cases h with
    | plain h => cases h
    | called _ hknown => exact fun v b hrun => hcall id hknown v b hrun
    | inPlace _ h => exact h.elim
  | succ depth ih =>
    cases h with
    | plain h => cases h
    | called _ hknown => exact fun v b hrun => hcall id hknown v b hrun
    | inPlace _ h => exact tests_node (fun _ _ => ih) h

end Calls

end Check

namespace Program

variable {arenas : Set Arena} {a : Arena} {r : Registry} {limit : Nat} (revivers : Revivers)

/-- The test registered under an identity is compiled from a node of that identity. -/
theorem isType_of_registered (filled : r.FilledFrom arenas limit) (ha : a ∈ arenas) {id : NodeId}
    (hkey : ⟨(a.node id).identity, .isType⟩ ∈ r.keys) :
    ∃ c, ∃ b ∈ arenas, ∃ node depth,
      (Program.mk r.functions revivers).body? ⟨(a.node id).identity, .isType⟩ =
        some (.isType c) ∧
      b.unfolding node = a.unfolding id ∧
      Compile.CheckNode b (Compile.CheckAt b (r.contains · = true) depth) (b.node node) c := by
  obtain ⟨f, hf, hbody, b, hb, node, hof⟩ := body?_of_mem revivers filled hkey
  cases hof with
  | @isType depth c _ h =>
    cases h with
    | plain h => cases h
    | inPlace _ h =>
      have htree := filled.faithful b hb a ha _ _ (congrArg FunctionKey.identity hf)
      exact ⟨c, b, hb, node, depth, hbody, htree, h⟩
  | typeErrors | jsonEncode | jsonDecode | jsonStringify =>
    exact nomatch congrArg FunctionKey.target hf

/-- Calls of registered tests judge as the types of their nodes do. -/
theorem callsTest (filled : r.FilledFrom arenas limit) (ha : a ∈ arenas) (steps : Nat) :
    Check.CallsTest ((Program.mk r.functions revivers).checkCall steps) a (r.contains · = true) := by
  induction steps generalizing a with
  | zero => exact fun _ _ _ _ h => nomatch h
  | succ steps ih =>
    intro id hknown v b hrun
    obtain ⟨c, other, hother, node, depth, hbody, htree, hnode⟩ :=
      isType_of_registered revivers filled ha (Registry.contains_iff.mp hknown)
    rw [checkCall, hbody] at hrun
    exact htree ▸ Check.tests_node (fun _ _ => Check.tests_at (ih hother)) hnode v b hrun

/-- Whatever code calls registered tests judges as the type of its node does. -/
theorem judges_of_check (filled : r.FilledFrom arenas limit) (ha : a ∈ arenas) {depth : Nat}
    {id : NodeId} {c : Check} (h : Compile.CheckAt a (r.contains · = true) depth id c) (v : Value)
    (b : Bool) (hrun : (Program.mk r.functions revivers).check c v = some b) :
    Judges (a.unfolding id) v b :=
  Check.tests_at (callsTest revivers filled ha _) h v b hrun

/-- **A registered test judges as its type does**, on all values on which it is not cut off,
whatever arenas the functions of the registry come from. -/
theorem judges_of_isType_among (filled : r.FilledFrom arenas limit) (ha : a ∈ arenas) {id : NodeId}
    (hkey : ⟨(a.node id).identity, .isType⟩ ∈ r.keys) {v : Value}
    (finishes : (Program.mk r.functions revivers).isType (a.node id).identity v ≠ .error .cutOff) :
    ∃ b, (Program.mk r.functions revivers).isType (a.node id).identity v = .ok b ∧
      Judges (a.unfolding id) v b := by
  obtain ⟨c, other, hother, node, depth, hbody, htree, hnode⟩ :=
    isType_of_registered revivers filled ha hkey
  rw [isType, hbody] at finishes ⊢
  dsimp only at finishes ⊢
  cases hrun : (Program.mk r.functions revivers).check c v with
  | none =>
    rw [hrun] at finishes
    exact absurd rfl finishes
  | some b =>
    exact ⟨b, rfl, htree ▸ Check.tests_node
      (fun _ _ => Check.tests_at (callsTest revivers filled hother _)) hnode v b hrun⟩

variable {revivers}

/-- A registered test judges as its type does, in a registry of functions of one arena. -/
theorem judges_of_isType (faithful : a.Faithful) (hr : r.Compiled a limit) {id : NodeId}
    (hkey : ⟨(a.node id).identity, .isType⟩ ∈ r.keys) {v : Value}
    (finishes : (Program.mk r.functions revivers).isType (a.node id).identity v ≠ .error .cutOff) :
    ∃ b, (Program.mk r.functions revivers).isType (a.node id).identity v = .ok b ∧
      Judges (a.unfolding id) v b :=
  judges_of_isType_among revivers (hr.filledFrom faithful) rfl hkey finishes

end Program

/-! ## Handles of tests -/

namespace Handle

variable {e : Engine} {a : Arena} {r : Registry} {handles : List (NodeId × Handle)} {id : NodeId}
  {h : Handle} {v : Value}

/-- A test that is built answers as its type judges, wherever it comes to an answer. -/
theorem judges_isType (faithful : a.Faithful) (built : e.Builds a r handles)
    (hmem : (id, h) ∈ handles) (htarget : h.key.target = .isType)
    (ends : (h.program r).isType h.key.identity v ≠ .error .cutOff) :
    Judges (a.unfolding id) v (h.isType r v) := by
  obtain ⟨hidentity, hkey⟩ := built.registered hmem htarget
  rw [hidentity] at ends
  obtain ⟨b, hb, judges⟩ := Program.judges_of_isType faithful built.compiled.1 hkey ends
  rw [isType, hidentity, show (h.program r).isType (a.node id).identity v = .ok b from hb]
  exact judges

/-- However many calls it may make, a test that is built does not reject an instance. -/
theorem checkCall_ne_false (faithful : a.Faithful) (built : e.Builds a r handles)
    (hmem : (id, h) ∈ handles) (htarget : h.key.target = .isType)
    (judges : Judges (a.unfolding id) v true) (calls : Nat) :
    (h.program r).checkCall calls h.key.identity v ≠ some false := by
  obtain ⟨hidentity, hkey⟩ := built.registered hmem htarget
  rw [hidentity]
  intro hrejects
  exact judges.not_both (Program.callsTest h.revivers (built.compiled.1.filledFrom faithful) rfl calls
    id (Registry.contains_iff.mpr hkey) v false hrejects)

end Handle

end Typeforge
