/-
# `Typeforge.Proofs.Halting.Tests` — tests of guarded types come to an answer

The test of an object, an array or a tuple looks at the kind of a value first, and
goes on to its parts only if the kind is right.  This is what keeps a run from
reading parts of what has none: a missing part reads as undefined, and the parts
of undefined are undefined again.

A run of a test comes to nothing but what can be reached from its type, so that this
is all that has to be guarded.  And it comes to no functions but those that were
registered when its own was, whatever is registered later.
-/
import Typeforge.Proofs.Halting.Reach

namespace Typeforge

/-! ## Searches through lists -/

theorem allM_ne_none {α : Type} {p : α → Option Bool} {xs : List α} (h : ∀ x ∈ xs, p x ≠ none) :
    xs.allM p ≠ none := by
  induction xs with
  | nil => exact Option.some_ne_none true
  | cons x xs ih =>
    obtain ⟨hx, hxs⟩ := List.forall_mem_cons.mp h
    obtain ⟨b, hb⟩ := Option.ne_none_iff_exists'.mp hx
    rw [List.allM, hb]
    cases b with
    | false => exact Option.some_ne_none false
    | true => exact ih hxs

theorem anyM_ne_none {α : Type} {p : α → Option Bool} {xs : List α} (h : ∀ x ∈ xs, p x ≠ none) :
    xs.anyM p ≠ none := by
  induction xs with
  | nil => exact Option.some_ne_none false
  | cons x xs ih =>
    obtain ⟨hx, hxs⟩ := List.forall_mem_cons.mp h
    obtain ⟨b, hb⟩ := Option.ne_none_iff_exists'.mp hx
    rw [List.anyM, hb]
    cases b with
    | false => exact ih hxs
    | true => exact Option.some_ne_none true

namespace Check

variable {call : String → Value → Option Bool} {c : Check} {v : Value}

/-! ## Tests of parts -/

/-- A test that has an answer for what an access reads has one for the part. -/
theorem part_ne_none (access : Access) (optional : Bool) (h : c.run call (access.read v) ≠ none) :
    (part access optional c).run call v ≠ none := by
  rw [run]
  split
  · exact Option.some_ne_none true
  · exact h

theorem each_ne_none (start : Nat) (h : ∀ w, w.levels < v.levels → c.run call w ≠ none) :
    (each start c).run call v ≠ none := by
  rw [run]
  cases v with
  | array items =>
    exact allM_ne_none fun w hw => h w (Value.levels_item_lt (List.mem_of_mem_drop hw))
  | _ => exact Option.some_ne_none false

theorem eachKey_ne_none (filter : KeyFilter) (skip : List String)
    (h : ∀ w, w.levels < v.levels → c.run call w ≠ none) :
    (eachKey filter skip c).run call v ≠ none := by
  rw [run]
  cases v with
  | object members =>
    exact allM_ne_none fun m hm => h m.2 (Value.levels_member_lt (List.mem_filter.mp hm).1)
  | _ => exact Option.some_ne_none false

theorem mem_unlessAlways {wrap : Check → Check} {c' : Check}
    (h : c' ∈ Compile.unlessAlways c wrap) : c' = wrap c := by
  unfold Compile.unlessAlways at h
  split at h
  · exact absurd h List.not_mem_nil
  · exact List.mem_singleton.mp h

/-- Tests that rest on the kind of a value have an answer if they have one for the right kind. -/
theorem guarded_ne_none {shape cs : List Check} {fits : Bool}
    (hshape : shape.allM (fun c => c.run call v) = some fits)
    (h : fits = true → ∀ c ∈ cs, c.run call v ≠ none) :
    (allOf (shape ++ cs)).run call v ≠ none := by
  rw [run_allOf, allM_append, hshape]
  cases fits with
  | false => exact Option.some_ne_none false
  | true => exact allM_ne_none (h rfl)

/-! ## Nodes -/

section Nodes

variable {a : Arena} {child : NodeId → Check → Prop} {id : NodeId} {m k : Nat}

/-- The tests of guarded children have answers for what may be reached. -/
abbrev ChildrenHalt (call : String → Value → Option Bool) (a : Arena) (m k : Nat)
    (child : NodeId → Check → Prop) : Prop :=
  ∀ id c, child id c → (a.unfolding id).Guarded →
    ∀ w, (a.unfolding id).Reaches Value.levels m k w → c.run call w ≠ none

theorem property_ne_none (hchild : ChildrenHalt call a m k child)
    (guarded : (a.unfolding id).Guarded) {name : String} {part : NodeId}
    (h : (a.node id).shape = .property name part) (hc : Compile.CheckNode a child (a.node id) c)
    (hv : (a.unfolding part).Reaches Value.levels m k (v.member name)) : c.run call v ≠ none := by
  cases hc with
  | property hshape hc =>
    obtain ⟨rfl, rfl⟩ := Shape.property.inj (h.symm.trans hshape)
    have hself : (a.node id).standsFor? = none := by simp only [Node.standsFor?, h]
    have hpart : part ∈ (a.node id).children := by
      rw [Node.children, h]
      exact List.mem_singleton_self part
    rw [run_allOf]
    refine allM_ne_none fun c' hc' => ?_
    rw [mem_unlessAlways hc']
    exact part_ne_none _ _ (hchild _ _ hc (Arena.guarded_child guarded hself hpart) _ hv)
  | standsFor hself => simp only [Node.standsFor?, h, reduceCtorEq] at hself
  | atom hshape | array hshape | object hshape | tuple hshape | union hshape =>
    cases h.symm.trans hshape

theorem unionCheck_ne_none {members : List NodeId} (hc : Compile.UnionCheck child members c)
    (h : ∀ id ∈ members, ∀ c, child id c → c.run call v ≠ none) : c.run call v ≠ none := by
  cases hc with
  | always => exact Option.some_ne_none true
  | arms harms =>
    rw [run, runAny_eq_anyM]
    refine anyM_ne_none fun c hc => ?_
    obtain ⟨id, hid, hchild⟩ := exists_of_forall₂_right harms hc
    exact h id hid c hchild

/-- The test of a node has an answer for a value of no more levels than may be, if the tests of its
children have answers for what is below. -/
theorem node_ne_none (hchild : ChildrenHalt call a m k child)
    (guarded : (a.unfolding id).Guarded) (hself : (a.node id).standsFor? = none)
    (hlevels : v.levels ≤ m) (hrank : (a.unfolding id).rank ≤ k)
    (hc : Compile.CheckNode a child (a.node id) c) : c.run call v ≠ none := by
  have smaller {w : Value} (hw : w.levels < v.levels) {t : TypeTree} :
      t.Reaches Value.levels m k w := .smaller (Nat.lt_of_lt_of_le hw hlevels)
  have below {shape : Shape} (h : (a.node id).shape = shape) {part : NodeId}
      (hpart : part ∈ shape.children) : (a.unfolding part).Guarded :=
    Arena.guarded_child guarded hself (by rwa [Node.children, h])
  cases hc with
  | atom _ hc =>
    rw [run_check? hc]
    exact Option.some_ne_none _
  | @array _ c h hc =>
    have hshape : [Check.is .array].allM (fun c => c.run call v) = some (Kind.array.holds v) :=
      allM_is .array v
    refine guarded_ne_none hshape fun _ c' hc' => ?_
    rw [mem_unlessAlways hc']
    exact each_ne_none 0 fun w hw => hchild _ _ hc (below h List.mem_cons_self) w (smaller hw)
  | property h hc =>
    refine property_ne_none hchild guarded h (.property h hc) ?_
    refine .lower ?_ (Nat.lt_of_lt_of_le (Arena.rank_property_lt guarded.shallow h) hrank)
    rcases Value.under_read (.member _) v with hread | hread
    · exact (congrArg Value.levels hread).le.trans hlevels
    · exact hread.le.trans hlevels
  | standsFor h => cases hself.symm.trans h
  | @object props index className declared others h hdeclared hothers =>
    rw [List.cons_append, ← List.singleton_append]
    refine guarded_ne_none (allM_is .object v) fun hv c' hc' => ?_
    have hne : v ≠ .undefined := by
      rintro rfl
      cases hv
    rcases List.mem_append.mp hc' with hc' | hc'
    · obtain ⟨p, hp, hpc⟩ := exists_of_forall₂_right hdeclared hc'
      have hmem := List.mem_append_left index.toList (Arena.shape_of_mem_properties hp).1
      refine hchild _ _ hpc (below h hmem) v (.property (Arena.label_of_mem_properties hp) ?_)
      exact (Value.levels_read_lt (.member _) hne).trans_le hlevels
    · cases hothers with
      | absent => exact absurd hc' List.not_mem_nil
      | @present x c hx hc =>
        have hmem : x.1 ∈ props ++ index.toList := by
          rw [Arena.eq_some_of_indexFilter hx]
          exact List.mem_append_right props List.mem_cons_self
        rw [mem_unlessAlways hc']
        exact eachKey_ne_none _ _ fun w hw => hchild _ _ hc (below h hmem) w (smaller hw)
  | @tuple members fixed rest elements others h hsplit helements hothers =>
    have hmembers := Arena.splitTuple_append (a := a) members
    rw [hsplit] at hmembers
    dsimp only at hmembers
    rw [List.append_assoc]
    refine guarded_ne_none (allM_tupleShape _ _ v) fun hv c' hc' => ?_
    have hne : v ≠ .undefined := by
      rintro rfl
      cases hv
    rcases List.mem_append.mp hc' with hc' | hc'
    · obtain ⟨out, hout, hc'⟩ := List.mem_flatten.mp hc'
      obtain ⟨x, hx, c, hc, rfl⟩ := exists_of_forall₂_right helements hout
      have hmem : x.1 ∈ members :=
        hmembers ▸ List.mem_append_left rest.toList (List.fst_mem_of_mem_zipIdx hx)
      rw [mem_unlessAlways hc']
      exact part_ne_none _ _ (hchild _ _ hc (below h hmem) _
        (smaller (Value.levels_read_lt (.element _) hne)))
    · cases hothers with
      | absent => exact absurd hc' List.not_mem_nil
      | @present x c hx hc =>
        rw [hx] at hmembers
        have hmem : x ∈ members := hmembers ▸ List.mem_append_right fixed List.mem_cons_self
        rw [mem_unlessAlways hc']
        exact each_ne_none _ fun w hw => hchild _ _ hc (below h hmem) w (smaller hw)
  | union h hc =>
    refine unionCheck_ne_none hc fun member hmember c hc => hchild _ _ hc (below h hmember) v ?_
    exact .lower hlevels
      (Nat.lt_of_lt_of_le (Arena.rank_member_lt guarded.shallow h hmember) hrank)

end Nodes

/-! ## Code -/

section Calls

variable {a : Arena} {known : Keys} {m k : Nat}

/-- Calls of known tests of guarded types have answers below a size and a rank. -/
abbrev CallsHalt (call : String → Value → Option Bool) (a : Arena) (known : Keys) (m k : Nat) :
    Prop :=
  ∀ id, (a.unfolding id).Guarded → (a.node id).hasBody = true →
    known ⟨(a.node id).identity, .isType⟩ →
    ∀ w, (a.unfolding id).Below Value.levels m k w → call (a.node id).identity w ≠ none

theorem at_ne_none {depth : Nat} {id : NodeId} {c : Check} (hcall : CallsHalt call a known m k)
    (hc : Compile.CheckAt a known depth id c) (guarded : (a.unfolding id).Guarded) {v : Value}
    (hv : (a.unfolding id).Reaches Value.levels m k v) : c.run call v ≠ none := by
  induction depth generalizing m k id c v with
  | zero =>
    cases hc with
    | plain h => cases h
    | called _ hknown own =>
      cases hv with
      | below h => exact hcall id guarded own hknown v h
      | property label => exact absurd label (Arena.label_of_hasBody own _ _)
    | inPlace _ h => exact h.elim
  | succ depth ih =>
    cases hc with
    | plain h => cases h
    | called _ hknown own =>
      cases hv with
      | below h => exact hcall id guarded own hknown v h
      | property label => exact absurd label (Arena.label_of_hasBody own _ _)
    | inPlace _ hc =>
      cases hself : (a.node id).standsFor? with
      | some child =>
        rw [Arena.unfolding_of_standsFor hself] at hv guarded
        cases hc with
        | standsFor h hc =>
          cases h.symm.trans hself
          exact ih hcall hc guarded hv
        | atom h | array h | property h | object h | tuple h | union h =>
          simp only [Node.standsFor?, h, reduceCtorEq] at hself
      | none =>
        cases hv with
        | below h =>
          refine node_ne_none (fun _ _ hc guarded w hw => ih ?_ hc guarded hw) guarded hself le_rfl
            le_rfl hc
          exact fun callee guarded own hknown w hw =>
            hcall callee guarded own hknown w (h.trans hw)
        | property label part =>
          obtain ⟨child, hshape⟩ := Arena.shape_of_label_property hself label
          exact property_ne_none (fun _ _ hc guarded w hw => ih hcall hc guarded hw) guarded hshape
            hc (.smaller part)

end Calls

end Check

/-! ## Programs -/

namespace Program

variable {a : Arena} {r r' : Registry} {known : Keys} {limit : Nat}

/-- Known tests are those of nodes that stand for themselves, and call only known ones. -/
def GroundsTests (p : Program) (a : Arena) (known : Keys) : Prop :=
  ∀ id, known ⟨(a.node id).identity, .isType⟩ →
    ∃ node depth c, p.body? ⟨(a.node id).identity, .isType⟩ = some (.isType c) ∧
      (a.node node).standsFor? = none ∧ a.unfolding node = a.unfolding id ∧
      Compile.CheckNode a (Compile.CheckAt a known depth) (a.node node) c

namespace GroundsTests

variable {p : Program} {id : NodeId} {v : Value} {steps : Nat}

/-- A known test has an answer if the calls below it have. -/
theorem checkCall_succ_ne_none (grounds : p.GroundsTests a known)
    (guarded : (a.unfolding id).Guarded) (hknown : known ⟨(a.node id).identity, .isType⟩)
    (hcall : Check.CallsHalt (p.checkCall steps) a known v.levels (a.unfolding id).rank) :
    p.checkCall (steps + 1) (a.node id).identity v ≠ none := by
  obtain ⟨node, depth, c, hbody, hself, htree, hc⟩ := grounds id hknown
  rw [checkCall, hbody]
  rw [← htree] at guarded hcall
  exact Check.node_ne_none (fun _ _ hc guarded w hw => Check.at_ne_none hcall hc guarded hw) guarded
    hself le_rfl le_rfl hc

/-- Calls of known tests have answers, if as many may be nested as there is room for. -/
theorem checkCall_ne_none (grounds : p.GroundsTests a known) (faithful : a.Faithful)
    {names : List String}
    (hnames : ∀ id, (a.node id).hasBody = true → known ⟨(a.node id).identity, .isType⟩ →
      (a.node id).identity ∈ names)
    (guarded : (a.unfolding id).Guarded) (own : (a.node id).hasBody = true)
    (hknown : known ⟨(a.node id).identity, .isType⟩)
    (room : a.room names (a.unfolding id) v.levels ≤ steps) :
    p.checkCall steps (a.node id).identity v ≠ none := by
  induction steps generalizing id v with
  | zero => exact absurd (Arena.room_pos (hnames id own hknown)) (Nat.not_lt_of_le room)
  | succ steps ih =>
    refine grounds.checkCall_succ_ne_none guarded hknown ?_
    intro callee guarded' own' hknown' w hw
    refine ih guarded' own' hknown' (Nat.le_of_lt_succ ?_)
    exact (Arena.room_lt faithful (hnames id own hknown) hw).trans_le room

/-- Within the steps of a program all calls on what is no larger have answers. -/
theorem callsHalt_steps (grounds : p.GroundsTests a known) (faithful : a.Faithful) {k : Nat} :
    Check.CallsHalt (p.checkCall (p.steps v)) a known v.levels k := by
  intro callee guarded own hknown w hw
  refine grounds.checkCall_ne_none faithful (fun id _ hknown => ?_) guarded own hknown
    (Arena.room_le_steps _ (hw.elim Nat.le_of_lt And.left))
  obtain ⟨node, depth, c, hbody, -⟩ := grounds id hknown
  exact mem_names hbody

/-- Tests of guarded types have answers. -/
theorem check_ne_none (grounds : p.GroundsTests a known) (faithful : a.Faithful) {depth : Nat}
    {c : Check} (hc : Compile.CheckAt a known depth id c) (guarded : (a.unfolding id).Guarded)
    (v : Value) : p.check c v ≠ none :=
  Check.at_ne_none (grounds.callsHalt_steps faithful) hc guarded
    (.lower le_rfl (Nat.lt_succ_self _))

end GroundsTests

/-- The code of a test is what its node is compiled to. -/
theorem exists_checkNode {id : NodeId} {f : Function} (hof : Compile.FunctionOf a known limit id f)
    (htarget : f.key.target = .isType) :
    f.key.identity = (a.node id).identity ∧ ∃ depth c, f.body = .isType c ∧
      Compile.CheckNode a (Compile.CheckAt a known depth) (a.node id) c := by
  cases hof with
  | isType _ h =>
    cases h with
    | plain h => cases h
    | inPlace _ hc => exact ⟨rfl, _, _, rfl, hc⟩
  | typeErrors | jsonEncode | jsonDecode | jsonStringify => cases htarget

variable (revivers : Revivers)

theorem identity_mem_names {identity : String} {target : Target}
    (hkey : ⟨identity, target⟩ ∈ r.keys) : identity ∈ (Program.mk r.functions revivers).names := by
  obtain ⟨f, -, -, hbody⟩ := exists_body? revivers hkey
  exact mem_names hbody

/-- The registered tests, where all functions are of nodes that stand for themselves, and whatever
is registered later. -/
theorem groundsTests (faithful : a.Faithful) (grounded : r.Grounded a limit) (kept : r.Keeps r') :
    (Program.mk r'.functions revivers).GroundsTests a (r.contains · = true) := by
  intro id hknown
  obtain ⟨f, hf, hkey, hbody⟩ :=
    exists_body?_of_keeps kept revivers (Registry.contains_iff.mp hknown)
  obtain ⟨node, hself, hof⟩ := grounded f hf
  obtain ⟨hidentity, depth, c, hcode, hc⟩ := exists_checkNode hof (congrArg FunctionKey.target hkey)
  rw [hcode] at hbody
  exact ⟨node, depth, c, hbody, hself,
    faithful node id (hidentity.symm.trans (congrArg FunctionKey.identity hkey)), hc⟩

/-- The test of a type below which all is guarded is not cut off, whatever is registered later. -/
theorem isType_ne_cutOff_below (faithful : a.Faithful) (grounded : r.Grounded a limit)
    (kept : r.Keeps r') {id : NodeId} (hkey : ⟨(a.node id).identity, .isType⟩ ∈ r.keys)
    (guarded : (a.unfolding id).Guarded) (v : Value) :
    (Program.mk r'.functions revivers).isType (a.node id).identity v ≠ .error .cutOff := by
  have grounds := groundsTests revivers faithful grounded kept
  obtain ⟨node, depth, c, hbody, -, htree, hc⟩ := grounds id (Registry.contains_iff.mpr hkey)
  have hat : Compile.CheckAt a (r.contains · = true) (depth + 1) node c := .inPlace rfl hc
  rw [← htree] at guarded
  obtain ⟨b, hb⟩ := Option.ne_none_iff_exists'.mp (grounds.check_ne_none faithful hat guarded v)
  rw [isType_of_check hbody hb]
  rintro ⟨⟩

section Shallow

variable (shallow : a.Shallow) (faithful : a.Faithful) (grounded : r.Grounded a limit)

include shallow faithful grounded

/-- Tests of nodes have answers. -/
theorem check_ne_none {depth : Nat} {id : NodeId} {c : Check}
    (hc : Compile.CheckAt a (r.contains · = true) depth id c) (v : Value) :
    (Program.mk r.functions revivers).check c v ≠ none :=
  (groundsTests revivers faithful grounded (.refl r)).check_ne_none faithful hc
    (shallow.guarded id) v

/-- Registered tests are not cut off. -/
theorem isType_ne_cutOff {id : NodeId} (hkey : ⟨(a.node id).identity, .isType⟩ ∈ r.keys)
    (v : Value) :
    (Program.mk r.functions revivers).isType (a.node id).identity v ≠ .error .cutOff :=
  isType_ne_cutOff_below revivers faithful grounded (.refl r) hkey (shallow.guarded id) v

/-- Registered tests make no more nested calls than the bound. -/
theorem checkCall_ne_none_of_bound {id : NodeId}
    (hkey : ⟨(a.node id).identity, .isType⟩ ∈ r.keys) {v : Value} {steps : Nat}
    (bound : a.callBound v.levels ≤ steps) :
    (Program.mk r.functions revivers).checkCall steps (a.node id).identity v ≠ none := by
  obtain ⟨steps, rfl⟩ := Nat.exists_eq_add_one.mpr (a.callBound_pos.trans_le bound)
  have grounds := groundsTests revivers faithful grounded (.refl r)
  obtain ⟨node, depth, c, hbody, -, -, hc⟩ := grounds id (Registry.contains_iff.mpr hkey)
  have hat : Compile.CheckAt a (r.contains · = true) (depth + 1) node c := .inPlace rfl hc
  rw [checkCall, hbody]
  refine Check.at_ne_none (fun callee guarded own hknown w hw => ?_) hat (shallow.guarded node)
    (.lower le_rfl (Nat.lt_succ_self _))
  refine grounds.checkCall_ne_none faithful (fun id own _ => a.mem_nodeNames own) guarded own hknown
    (Nat.le_of_lt_succ ?_)
  exact (Arena.room_lt_callBound (hw.elim Nat.le_of_lt And.left)).trans_le bound

end Shallow

end Program

/-- The test of a type below which all is guarded comes to its end, whatever is registered later. -/
theorem Engine.Builds.isType_ends {e : Engine} {a : Arena} {r r' : Registry}
    {handles : List (NodeId × Handle)} (built : e.Builds a r handles) (faithful : a.Faithful)
    (own : ∀ x ∈ handles, (a.node x.1).standsFor? = none) (kept : r.Keeps r') {id : NodeId}
    {h : Handle} (hmem : (id, h) ∈ handles) (htarget : h.key.target = .isType)
    (guarded : a.GuardedBelow id) (v : Value) :
    (h.program r').isType h.key.identity v ≠ .error .cutOff := by
  obtain ⟨hname, hkey⟩ := built.registered hmem htarget
  rw [hname]
  exact Program.isType_ne_cutOff_below h.revivers faithful (built.grounded own) kept hkey
    guarded.unfolding v

end Typeforge
