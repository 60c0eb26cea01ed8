/-
# `Typeforge.Proofs.Running.Reports` — a report finds the faults of its type

A report is compiled apart from the test of the same node: it leaves out bodies
that are empty, expects the shape of a value before it looks at its parts and
asks the test of a union.  Whenever it comes to an end it has found the faults
of the unfolded type, one error for each and in the same order.

The paths of the errors are the caller's path, the path of the site and the
path of the fault, if the loops of a function have numbers of their own; from
the 256th loop on they share one, and only the errors' texts are sure.
-/
import Typeforge.Proofs.Running.Tests

namespace Typeforge

/-! ## Errors and faults -/

/-- Errors found from a path on, and the faults they stand for. Paths count only where they are
exact. -/
def Reported (exact : Prop) (base : List PathItem) (found faults : List ValidationError) : Prop :=
  List.Forall₂ (fun e f => e.expected = f.expected ∧ (exact → e.path = base ++ f.path)) found faults

namespace Reported

variable {exact : Prop} {base : List PathItem} {found found' faults faults' : List ValidationError}

theorem nil : Reported exact base [] [] := List.Forall₂.nil

theorem append (h : Reported exact base found faults) (h' : Reported exact base found' faults') :
    Reported exact base (found ++ found') (faults ++ faults') := List.rel_append h h'

theorem isEmpty_eq (h : Reported exact base found faults) : found.isEmpty = faults.isEmpty := by
  cases h <;> rfl

/-- Where paths are exact, the errors found are the faults as seen from the path. -/
theorem eq_map_below (h : Reported exact base found faults) (hexact : exact) :
    found = faults.map (.below base) := by
  induction h with
  | nil => rfl
  | @cons e f _ _ hef _ ih =>
    have he : e = f.below base := by
      rw [ValidationError.below, ← hef.1, ← hef.2 hexact]
    rw [List.map_cons, ← he, ← ih]

/-- Errors found a step further on stand for faults seen from a step above. -/
theorem below {step inner : List PathItem} (h : Reported exact inner found faults)
    (hstep : exact → inner = base ++ step) :
    Reported exact base found (faults.map (.below step)) := by
  induction h with
  | nil => exact .nil
  | cons hef _ ih =>
    refine .cons ⟨hef.1, fun hexact => ?_⟩ ih
    rw [hef.2 hexact, hstep hexact, List.append_assoc]
    rfl

end Reported

/-- The step of a path to a part. -/
def Access.step : Access → PathItem
  | member name => .key name
  | element i => .index i

/-! ## Sites -/

namespace Site

/-- The loops on a site's path are those that have been entered. -/
def Numbered (site : Site) : Prop := ∀ k, PathSegment.loop k ∈ site.path → k < site.loops

/-- The loops on a site's path are those that have been entered; and if paths are to be exact,
there are numbers for as many more as can be entered. -/
structure Sound (exact : Prop) (depth : Nat) (site : Site) : Prop where
  numbered : site.Numbered
  room : exact → site.loops + depth ≤ 256

variable {exact : Prop} {depth : Nat} {site : Site}

theorem Sound.same (h : site.Sound exact (depth + 1)) : site.Sound exact depth :=
  ⟨h.numbered, fun hexact => Nat.le_of_succ_le (h.room hexact)⟩

theorem Sound.part (h : site.Sound exact (depth + 1)) (access : Access) :
    (site.part access).Sound exact depth where
  numbered k hk := by
    rcases List.mem_append.mp hk with hk | hk
    · exact h.numbered k hk
    · cases access <;> simp [Access.segment] at hk
  room hexact := Nat.le_of_succ_le (h.room hexact)

theorem Sound.loop (h : site.Sound exact (depth + 1)) : site.loop.Sound exact depth where
  numbered k hk := by
    rcases List.mem_append.mp hk with hk | hk
    · exact Nat.lt_succ_of_lt (h.numbered k hk)
    · cases List.mem_singleton.mp hk
      exact Nat.lt_succ_of_le (Nat.min_le_left _ _)
  room hexact := by
    have := h.room hexact
    change site.loops + 1 + depth ≤ 256
    omega

end Site

namespace Trail

variable {trail : Trail} {site : Site} {exact : Prop} {depth : Nat}

theorem resolve_part (access : Access) :
    trail.resolve (site.part access).path =
      trail.resolve site.path ++ [access.step] := by
  simp only [resolve, Site.part, List.map_append, List.map_singleton, List.append_assoc]
  cases access <;> rfl

/-- Inside a loop the path goes on with the step at which the loop stands. -/
theorem resolve_loop (h : site.Sound exact (depth + 1)) (hexact : exact)
    (hloops : trail.loops.length = site.loops) (step : PathItem) :
    (trail.inside step).resolve site.loop.path = trail.resolve site.path ++ [step] := by
  have hroom := h.room hexact
  have hmin : min site.loops 255 = trail.loops.length := by omega
  have hlast : (trail.inside step).item (.loop (min site.loops 255)) = step := by
    rw [hmin, item, inside, List.getD_eq_getElem?_getD, List.getElem?_concat_length]
    rfl
  have hpath : site.path.map (trail.inside step).item = site.path.map trail.item := by
    refine List.map_congr_left fun segment hseg => ?_
    cases segment with
    | key _ | index _ => rfl
    | loop k =>
      have hk := h.numbered k hseg
      simp only [item, inside, List.getD_eq_getElem?_getD]
      rw [List.getElem?_append_left (by omega)]
  simp only [resolve, Site.loop, List.map_append, List.map_singleton, hlast, hpath,
    List.append_assoc]
  rfl

end Trail

/-! ## Running lists of statements -/

/-- A run ends in errors of a kind, unless it is cut off. -/
def Ends (run : Except Halt (List ValidationError)) (P : List ValidationError → Prop) : Prop :=
  match run with
  | .ok errors => P errors
  | .error halt => halt = .cutOff

theorem Ends.bind {run : Except Halt (List ValidationError)}
    {next : List ValidationError → Except Halt (List ValidationError)}
    {P Q : List ValidationError → Prop} (h : Ends run P)
    (hnext : ∀ errors, P errors → Ends (next errors) Q) : Ends (run >>= next) Q := by
  cases run with
  | error halt => exact h
  | ok errors => exact hnext errors h

theorem Ends.imp {run : Except Halt (List ValidationError)} {P Q : List ValidationError → Prop}
    (h : Ends run P) (himp : ∀ errors, P errors → Q errors) : Ends run Q := by
  cases run with
  | error halt => exact h
  | ok errors => exact himp errors h

namespace Report

variable {x : Context} {trail : Trail} {v : Value}

theorem runAll_append (body rest : List Report) :
    runAll x (body ++ rest) trail v = (do
      let first ← runAll x body trail v
      let others ← runAll x rest trail v
      pure (first ++ others)) := by
  induction body with
  | nil =>
    change runAll x rest trail v = (runAll x rest trail v >>= fun others => pure others)
    exact (bind_pure _).symm
  | cons r body ih =>
    rw [List.cons_append, runAll, runAll, ih]
    simp only [bind_assoc, pure_bind, List.append_assoc]

theorem runAll_singleton (r : Report) : runAll x [r] trail v = r.run x trail v := by
  rw [runAll, runAll]
  cases r.run x trail v with
  | error halt => rfl
  | ok errors => exact congrArg Except.ok (List.append_nil errors)

/-! ## Bodies and demands -/

/-- What a report rests on is right: its tests run among tests of nodes, and the reports it calls
find the faults of their nodes' types. -/
structure Context.Right (x : Context) (a : Arena) (known : Keys) (exact : Prop) : Prop where
  check : ∀ v, ∃ call, Check.CallsTest call a known ∧ ∀ c, x.check c v = c.run call v
  call : ∀ id, known ⟨(a.node id).identity, .typeErrors⟩ →
    ∀ base v, Ends (x.call (a.node id).identity base v) fun errors =>
      ∃ faults, Faults (a.unfolding id) v faults ∧ Reported exact base errors faults

section Bodies

variable (x : Context) (exact : Prop) (body : List Report) (site : Site)

/-- A body finds the faults of a type, from its site on. -/
def Finds (t : TypeTree) : Prop :=
  ∀ trail v, trail.loops.length = site.loops → Ends (runAll x body trail v) fun errors =>
    ∃ faults, Faults t v faults ∧ Reported exact (trail.resolve site.path) errors faults

/-- A body finds the faults of demands on a value, from its site on. -/
def FindsAll (v : Value) (demands : List Demand) : Prop :=
  ∀ trail, trail.loops.length = site.loops → Ends (runAll x body trail v) fun errors =>
    ∃ faults, FaultsAll demands faults ∧ Reported exact (trail.resolve site.path) errors faults

end Bodies

variable {exact : Prop} {body : List Report} {site : Site} {t : TypeTree} {depth : Nat}

/-- An empty body has no faults to find. -/
theorem Finds.faults_nil (h : Finds x exact [] site t) (v : Value) : Faults t v [] := by
  obtain ⟨faults, hfaults, hreported⟩ :=
    h ⟨[], List.replicate site.loops (.index 0)⟩ v (List.length_replicate ..)
  cases hreported
  exact hfaults

theorem FindsAll.nil {demands : List Demand} (h : ∀ d ∈ demands, Faults d.tree d.value []) :
    FindsAll x exact [] site v demands := fun _ _ => ⟨[], .of_forall h, .nil⟩

theorem FindsAll.append {rest : List Report} {ds es : List Demand}
    (h : FindsAll x exact body site v ds) (h' : FindsAll x exact rest site v es) :
    FindsAll x exact (body ++ rest) site v (ds ++ es) := by
  intro trail hloops
  rw [runAll_append]
  refine (h trail hloops).bind ?_
  rintro first ⟨faults, hf, hr⟩
  refine (h' trail hloops).bind ?_
  rintro others ⟨faults', hf', hr'⟩
  exact ⟨_, hf.append hf', hr.append hr'⟩

/-- A body for the value itself. -/
theorem FindsAll.self (h : Finds x exact body site t) :
    FindsAll x exact body site v [⟨[], t, v⟩] := by
  intro trail hloops
  refine (h trail v hloops).imp ?_
  rintro errors ⟨faults, hf, hr⟩
  refine ⟨_, .cons hf .nil, ?_⟩
  rw [List.append_nil]
  exact hr.below fun _ => (List.append_nil _).symm

/-- A statement made of a body, unless the body is empty. -/
theorem FindsAll.unlessEmpty {inner : Site} {ds : List Demand} {wrap : List Report → Report}
    (h : Finds x exact body inner t) (hds : ∀ d ∈ ds, d.tree = t)
    (hwrap : FindsAll x exact [wrap body] site v ds) :
    FindsAll x exact (Compile.unlessEmpty body wrap) site v ds := by
  unfold Compile.unlessEmpty
  split
  · rename_i hbody
    rw [List.isEmpty_iff.mp hbody] at h
    exact .nil fun d hd => hds d hd ▸ h.faults_nil d.value
  · exact hwrap

/-- A body for a part, which may be left out. -/
theorem FindsAll.part (access : Access) (optional : Bool)
    (h : Finds x exact body (site.part access) t) (v : Value) :
    FindsAll x exact (Compile.unlessEmpty body (.part access optional)) site v
      (t.reached access.step optional (access.read v)) := by
  by_cases hskip : (optional && (access.read v).isUndefined) = true
  · simp only [TypeTree.reached, hskip, if_true]
    refine .unlessEmpty h (fun _ hd => absurd hd List.not_mem_nil) fun trail _ => ?_
    rw [runAll_singleton, run, if_pos hskip]
    exact ⟨[], .nil, .nil⟩
  · simp only [TypeTree.reached, hskip]
    refine .unlessEmpty h (fun d hd => by rw [List.mem_singleton.mp hd]) fun trail hloops => ?_
    rw [runAll_singleton, run, if_neg hskip]
    refine (h trail _ hloops).imp ?_
    rintro errors ⟨faults, hf, hr⟩
    refine ⟨_, .cons hf .nil, ?_⟩
    rw [List.append_nil]
    exact hr.below fun _ => Trail.resolve_part access

/-- A body for each part, inside a loop. -/
theorem FindsAll.parts {parts : List (PathItem × Value)} {wrap : List Report → Report}
    (hsite : site.Sound exact (depth + 1)) (h : Finds x exact body site.loop t)
    (hrun : ∀ trail, (wrap body).run x trail v =
      gather (fun (step, w) => runAll x body (trail.inside step) w) parts) :
    FindsAll x exact (Compile.unlessEmpty body wrap) site v (t.each parts) := by
  have hds : ∀ d ∈ t.each parts, d.tree = t := fun d hd => by
    obtain ⟨x, -, rfl⟩ := Check.mem_each.mp hd
    rfl
  refine .unlessEmpty h hds fun trail hloops => ?_
  rw [runAll_singleton, hrun]
  clear hrun hds
  induction parts with
  | nil => exact ⟨[], .nil, .nil⟩
  | cons y ys ih =>
    have hinside : (trail.inside y.1).loops.length = site.loop.loops := by
      rw [Trail.inside, List.length_append, hloops]
      rfl
    rw [gather]
    refine (h (trail.inside y.1) y.2 hinside).bind ?_
    rintro first ⟨faults, hf, hr⟩
    refine ih.bind ?_
    rintro others ⟨faults', hf', hr'⟩
    refine ⟨_, .cons hf hf', .append (hr.below fun hexact => ?_) hr'⟩
    exact Trail.resolve_loop hsite hexact hloops y.1

/-- A body that looks at the parts of every value. -/
theorem Finds.demands {ds : Value → List Demand} (hfacet : ∀ v, t.facet v = .all (ds v))
    (h : ∀ v, FindsAll x exact body site v (ds v)) : Finds x exact body site t := by
  intro trail v hloops
  refine (h v trail hloops).imp ?_
  rintro errors ⟨faults, hf, hr⟩
  exact ⟨faults, .parts (hfacet v) hf, hr⟩

/-- A body that expects the kind of a value, and then looks at its parts. -/
theorem Finds.guarded {a : Arena} {known : Keys} (right : x.Right a known exact) {c : Check}
    {after : List Report} {fits : Value → Bool} {expected : String} {ds : Value → List Demand}
    (hfacet : ∀ v, t.facet v = .guarded (fits v) expected (ds v))
    (hshape : ∀ call v, c.run call v = some (fits v))
    (hafter : ∀ v, FindsAll x exact after site v (ds v)) :
    Finds x exact [.expect c site.path expected after] site t := by
  intro trail v hloops
  obtain ⟨call, -, hcheck⟩ := right.check v
  rw [runAll_singleton, run, hcheck, hshape]
  cases hfits : fits v with
  | false =>
    refine ⟨_, .misfit (by rw [hfacet, hfits]; rfl), .cons ⟨rfl, fun _ => ?_⟩ .nil⟩
    exact (List.append_nil _).symm
  | true =>
    refine (hafter v trail hloops).imp ?_
    rintro errors ⟨faults, hf, hr⟩
    refine ⟨faults, .parts ?_ hf, hr⟩
    rw [hfacet, hfits]
    rfl

/-! ## Nodes -/

section Nodes

variable {a : Arena} {known : Keys} {check : NodeId → Check → Prop}
  {child : Site → NodeId → List Report → Prop} {id : NodeId}

/-- The reports of children find the faults of the children's types. -/
abbrev ChildrenFind (x : Context) (a : Arena) (exact : Prop) (depth : Nat)
    (child : Site → NodeId → List Report → Prop) : Prop :=
  ∀ site id body, site.Sound exact depth → child site id body →
    Finds x exact body site (a.unfolding id)

/-- The tests of members judge as the members' types do, whatever tests they call. -/
abbrev MembersTest (a : Arena) (known : Keys) (check : NodeId → Check → Prop) : Prop :=
  ∀ call, Check.CallsTest call a known → Check.ChildrenTest call a check

theorem finds_atom {y : Atom} {c : Check} (right : x.Right a known exact)
    (h : (a.node id).shape = .atom y) (hc : y.check? = some c) :
    Finds x exact (Compile.expectation c site.path y.expected) site (a.unfolding id) := by
  unfold Compile.expectation
  split
  · rename_i hal
    intro trail v _
    have hholds : y.holds v = true := by
      have hrun : c.run (fun _ _ => none) v = some (y.holds v) := Check.run_check? hc v
      rw [Check.run_of_isAlways hal] at hrun
      exact (Option.some.inj hrun).symm
    exact ⟨[], .parts (by rw [Arena.facet_atom h, hholds]; rfl) .nil, .nil⟩
  · exact .guarded right (fun v => Arena.facet_atom h) (fun call v => Check.run_check? hc v)
      fun v => .nil fun _ hd => absurd hd List.not_mem_nil

theorem finds_union {members : List NodeId} {c : Check} (right : x.Right a known exact)
    (hcheck : MembersTest a known check) (h : (a.node id).shape = .union members)
    (hc : Compile.UnionCheck check members c) :
    Finds x exact (Compile.expectation c site.path "union") site (a.unfolding id) := by
  intro trail v _
  obtain ⟨call, hcall, hx⟩ := right.check v
  have htests := Check.tests_unionCheck (hcheck call hcall)
    (fun v => Arena.facet_union (v := v) h) hc
  unfold Compile.expectation
  split
  · rename_i hal
    exact ⟨[], .member (Arena.facet_union h) (htests.always hal v), .nil⟩
  · rw [runAll_singleton, run, hx]
    cases hb : c.run call v with
    | none => exact rfl
    | some b =>
      cases b with
      | true => exact ⟨[], .member (Arena.facet_union h) (htests v true hb), .nil⟩
      | false =>
        refine ⟨_, .noMember (Arena.facet_union h) (htests v false hb),
          .cons ⟨rfl, fun _ => ?_⟩ .nil⟩
        exact (List.append_nil _).symm

theorem finds_elements {xs : List (NodeId × Nat)} {elements : List (List Report)}
    (hsite : site.Sound exact (depth + 1)) (hchild : ChildrenFind x a exact depth child)
    (helements : List.Forall₂ (fun y out => ∃ body, child (site.part (.element y.2)) y.1 body ∧
        out = Compile.unlessEmpty body (.part (.element y.2) (a.node y.1).optional))
      xs elements) (v : Value) :
    FindsAll x exact elements.flatten site v (xs.flatMap fun y =>
      (a.unfolding y.1).reached (.index y.2) (a.node y.1).optional (v.element y.2)) := by
  induction helements with
  | nil => exact .nil fun _ hd => absurd hd List.not_mem_nil
  | cons hout _ ih =>
    obtain ⟨body, hbody, rfl⟩ := hout
    exact .append (.part (.element _) _ (hchild _ _ _ (hsite.part _) hbody) v) ih

theorem finds_declared {props : List Arena.Property} {declared : List (List Report)}
    (hsite : site.Sound exact (depth + 1)) (hchild : ChildrenFind x a exact depth child)
    (hdeclared : List.Forall₂ (fun p body => child site p.id body) props declared) (v : Value) :
    FindsAll x exact declared.flatten site v (props.map fun p => ⟨[], a.unfolding p.id, v⟩) := by
  induction hdeclared with
  | nil => exact .nil fun _ hd => absurd hd List.not_mem_nil
  | cons hbody _ ih => exact .append (.self (hchild _ _ _ hsite.same hbody)) ih

/-- A body for the elements from an index on. -/
theorem FindsAll.each (hsite : site.Sound exact (depth + 1))
    (h : Finds x exact body site.loop t) (start : Nat) (v : Value) :
    FindsAll x exact (Compile.unlessEmpty body (.each start)) site v
      (t.each (v.stepsFrom start)) :=
  .parts hsite h fun _ => by rw [run]

/-- A body for the members that a filter covers. -/
theorem FindsAll.eachKey (hsite : site.Sound exact (depth + 1))
    (h : Finds x exact body site.loop t) (filter : KeyFilter) (skip : List String) (v : Value) :
    FindsAll x exact (Compile.unlessEmpty body (.eachKey filter skip)) site v
      (t.each (v.stepsCovered (filter.covers skip))) :=
  .parts hsite h fun _ => by rw [run]

/-- The report of a node finds the faults of its type, if the reports of its children do. -/
theorem finds_node (right : x.Right a known exact) (hcheck : MembersTest a known check)
    (hsite : site.Sound exact (depth + 1)) (hchild : ChildrenFind x a exact depth child)
    (h : Compile.ReportNode a check child site (a.node id) body) :
    Finds x exact body site (a.unfolding id) := by
  cases h with
  | atom h hc => exact finds_atom right h hc
  | array h hbody =>
    exact .guarded right (fun v => Arena.facet_array h) (fun _ _ => rfl)
      fun v => .each hsite (hchild _ _ _ hsite.loop hbody) 0 v
  | property h hbody =>
    exact .demands (fun v => Arena.facet_property h) fun v =>
      .part (.member _) _ (hchild _ _ _ (hsite.part _) hbody) v
  | standsFor h hbody =>
    exact Arena.unfolding_of_standsFor h ▸ hchild _ _ _ hsite.same hbody
  | object h hdeclared hothers =>
    refine .guarded right (fun v => Arena.facet_object h) (fun _ _ => rfl) fun v =>
      .append (finds_declared hsite hchild hdeclared v) ?_
    cases hothers with
    | absent hindex =>
      rw [hindex]
      exact .nil fun _ hd => absurd hd List.not_mem_nil
    | present hindex hbody =>
      rw [hindex]
      exact .eachKey hsite (hchild _ _ _ hsite.loop hbody) _ _ v
  | tuple h hsplit helements hothers =>
    have hfacet (v : Value) := Arena.facet_tuple (v := v) h
    simp only [hsplit] at hfacet
    refine .guarded right hfacet (fun call v => ?_) fun v => ?_
    · rw [Check.run_allOf, Check.allM_tupleShape]
    simp only [Arena.tupleDemands, hsplit]
    refine .append (finds_elements hsite hchild helements v) ?_
    cases hothers with
    | absent hrest =>
      rw [hrest]
      exact .nil fun _ hd => absurd hd List.not_mem_nil
    | present hrest hbody =>
      rw [hrest]
      exact .each hsite (hchild _ _ _ hsite.loop hbody) _ v
  | union h hc => exact finds_union right hcheck h hc

end Nodes

/-! ## Calls -/

section Calls

variable {a : Arena} {known : Keys}

theorem finds_at (right : x.Right a known exact) {id : NodeId} (hsite : site.Sound exact depth)
    (h : Compile.ReportAt a known depth site id body) : Finds x exact body site (a.unfolding id) := by
  induction depth generalizing site id body with
  | zero =>
    cases h with
    | plain h => cases h
    | called _ hknown => exact finds_call right hknown
    | inPlace _ h => exact h.elim
  | succ depth ih =>
    cases h with
    | plain h => cases h
    | called _ hknown => exact finds_call right hknown
    | inPlace _ h =>
      exact finds_node right (fun _ hcall _ _ => Check.tests_at hcall) hsite
        (fun _ _ _ => ih) h
where
  finds_call {x : Context} {a : Arena} {known : Keys} {site : Site} {id : NodeId}
      (right : x.Right a known exact) (hknown : known ⟨(a.node id).identity, .typeErrors⟩) :
      Finds x exact (Compile.reports.call (a.node id).identity site.path) site
        (a.unfolding id) := by
    intro trail v _
    rw [Compile.reports, runAll_singleton, run]
    exact right.call id hknown _ v

end Calls

end Report

namespace Program

variable {arenas : Set Arena} {a : Arena} {r : Registry} {limit : Nat} (revivers : Revivers)
  {exact : Prop}

/-- The report registered under an identity is compiled from a node of that identity. -/
theorem typeErrors_of_registered (filled : r.FilledFrom arenas limit) (ha : a ∈ arenas)
    {id : NodeId} (hkey : ⟨(a.node id).identity, .typeErrors⟩ ∈ r.keys) :
    ∃ body, ∃ b ∈ arenas, ∃ node depth site,
      (Program.mk r.functions revivers).body? ⟨(a.node id).identity, .typeErrors⟩ =
        some (.typeErrors body) ∧
      b.unfolding node = a.unfolding id ∧ depth ≤ limit ∧ site.path = [] ∧ site.loops = 0 ∧
      Compile.ReportNode b (Compile.CheckAt b (r.contains · = true) depth)
        (Compile.ReportAt b (r.contains · = true) depth) site (b.node node) body := by
  obtain ⟨f, hf, hbody, b, hb, node, hof⟩ := body?_of_mem revivers filled hkey
  cases hof with
  | @typeErrors depth body site hdepth hpath hloops h =>
    cases h with
    | plain h => cases h
    | inPlace _ h =>
      have htree := filled.faithful b hb a ha _ _ (congrArg FunctionKey.identity hf)
      exact ⟨body, b, hb, node, depth, site, hbody, htree, hdepth, hpath, hloops, h⟩
  | isType | jsonEncode | jsonDecode | jsonStringify =>
    exact nomatch congrArg FunctionKey.target hf

/-- Registered reports find the faults of their nodes' types. -/
theorem ends_reportCall (filled : r.FilledFrom arenas limit) (ha : a ∈ arenas)
    (room : exact → limit < 256) (steps : Nat) {id : NodeId}
    (hkey : ⟨(a.node id).identity, .typeErrors⟩ ∈ r.keys) (base : List PathItem) (v : Value) :
    Ends ((Program.mk r.functions revivers).reportCall steps (a.node id).identity base v)
      fun errors => ∃ faults, Faults (a.unfolding id) v faults ∧
        Reported exact base errors faults := by
  induction steps generalizing a id base v with
  | zero => exact rfl
  | succ steps ih =>
    obtain ⟨body, other, hother, node, depth, site, hbody, htree, hdepth, hpath, hloops, hnode⟩ :=
      typeErrors_of_registered revivers filled ha hkey
    rw [reportCall, hbody]
    have right : Report.Context.Right
        ⟨(Program.mk r.functions revivers).check,
          (Program.mk r.functions revivers).reportCall steps⟩
        other (r.contains · = true) exact :=
      ⟨fun _ => ⟨_, callsTest revivers filled hother _, fun _ => rfl⟩,
        fun _ hknown => ih hother (Registry.contains_iff.mp hknown)⟩
    have hsite : site.Sound exact (depth + 1) := by
      refine ⟨fun k hk => ?_, fun hexact => ?_⟩
      · rw [hpath] at hk
        exact absurd hk List.not_mem_nil
      · have := room hexact
        omega
    have hfinds := Report.finds_node right (fun _ hcall _ _ => Check.tests_at hcall) hsite
      (fun _ _ _ => Report.finds_at right) hnode
    refine (hfinds ⟨base, []⟩ v (by rw [hloops]; rfl)).imp ?_
    rintro errors ⟨faults, hf, hr⟩
    refine ⟨faults, htree ▸ hf, ?_⟩
    rwa [hpath, Trail.resolve, List.map_nil, List.append_nil] at hr

/-- **A registered report finds the faults of its type**, on all values on which it is not cut
off, whatever arenas the functions of the registry come from. -/
theorem reported_of_typeErrors_among (exact : Prop) (filled : r.FilledFrom arenas limit)
    (ha : a ∈ arenas) (room : exact → limit < 256) {id : NodeId}
    (hkey : ⟨(a.node id).identity, .typeErrors⟩ ∈ r.keys) {v : Value}
    (finishes : (Program.mk r.functions revivers).typeErrors (a.node id).identity v ≠
      .error .cutOff) :
    ∃ errors faults, (Program.mk r.functions revivers).typeErrors (a.node id).identity v =
      .ok errors ∧ Faults (a.unfolding id) v faults ∧ Reported exact [] errors faults := by
  have hends := ends_reportCall revivers filled ha room
    ((Program.mk r.functions revivers).steps v) hkey [] v
  change Ends ((Program.mk r.functions revivers).typeErrors (a.node id).identity v) _ at hends
  cases hrun : (Program.mk r.functions revivers).typeErrors (a.node id).identity v with
  | error halt =>
    rw [hrun] at hends finishes
    exact absurd (congrArg Except.error hends) finishes
  | ok errors =>
    rw [hrun] at hends
    obtain ⟨faults, hf, hr⟩ := hends
    exact ⟨errors, faults, rfl, hf, hr⟩

/-- A registered report finds the faults of its type, in a registry of functions of one arena. -/
theorem reported_of_typeErrors (exact : Prop) (faithful : a.Faithful) (hr : r.Compiled a limit)
    (room : exact → limit < 256) {id : NodeId}
    (hkey : ⟨(a.node id).identity, .typeErrors⟩ ∈ r.keys) {v : Value}
    (finishes : (Program.mk r.functions revivers).typeErrors (a.node id).identity v ≠
      .error .cutOff) :
    ∃ errors faults, (Program.mk r.functions revivers).typeErrors (a.node id).identity v =
      .ok errors ∧ Faults (a.unfolding id) v faults ∧ Reported exact [] errors faults :=
  reported_of_typeErrors_among revivers exact (hr.filledFrom faithful) rfl room hkey finishes

end Program

end Typeforge
