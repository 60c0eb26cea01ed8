/-
# `Typeforge.Proofs.Compiling.Refused` — types that have no code

No language can say what has no instances, a promise or a function is.  A type in
which such a part is met has no code either: the code of a node is made of the
code of its children, or calls functions, and a function is code of a node with
the same unfolded type.  Going down the unfolded type to the part in question, one
comes to code that cannot be.

There is one way round.  A test of a union is made of the tests of its members
only as far as the first one that always holds, and a report of a union is its
test.  What stands in the other members is not looked at; for these two languages
it is not met.
-/
import Typeforge.Proofs.Compiling.Failing
import Typeforge.Proofs.Lowering.Places
import Typeforge.Proofs.Lowering.Reaching
import Typeforge.Proofs.Running.Emits
import Typeforge.Proofs.Running.Judging
import Typeforge.Proofs.Types.Orderly

namespace Typeforge

/-- Whether the code for a target says only which values are instances, or why not. -/
def Target.isTest : Target → Bool
  | isType | typeErrors => true
  | _ => false

/-! ## Types in which a refused part is met -/

/-- Whether no language can say what stands at a place. -/
def Label.isRefused : Label → Bool
  | atom x => x.isNever
  | promise | function => true
  | _ => false

namespace TypeTree

/-- A type whose test is left out: all values are instances, by what its members are. -/
inductive Trivial : TypeTree → Prop where
  | atom {t x} (h : t.label = some (.atom x)) (hx : x = .any ∨ x = .unknown) : Trivial t
  | property {t name optional} (h : t.label = some (.property name optional))
      (trivial : Trivial (t.part 0)) : Trivial t
  | union {t members} (h : t.label = some (.union members)) (i : Nat)
      (trivial : Trivial (t.part i)) : Trivial t

theorem not_trivial_of_label {t : TypeTree} {l : Label} (h : t.label = some l)
    (atom : ∀ x, l = .atom x → x ≠ .any ∧ x ≠ .unknown)
    (property : ∀ name optional, l ≠ .property name optional)
    (union : ∀ members, l ≠ .union members) : ¬t.Trivial := by
  intro trivial
  cases trivial with
  | atom hl hx =>
    obtain ⟨hany, hunknown⟩ := atom _ (Option.some.inj (h.symm.trans hl))
    exact hx.elim hany hunknown
  | property hl => exact property _ _ (Option.some.inj (h.symm.trans hl))
  | union hl => exact union _ (Option.some.inj (h.symm.trans hl))

/-- The members of a union are all looked at, by tests if none of them is trivial. -/
def Opens (tests : Bool) (t : TypeTree) : Prop :=
  tests = true → ∀ members, t.label = some (.union members) → ∀ i < members, ¬(t.part i).Trivial

/-- A type in which a part is met that no language can say. -/
inductive Refused (tests : Bool) : TypeTree → Prop where
  | here {t l} (h : t.label = some l) (hl : l.isRefused = true) : Refused tests t
  | part {t} (i : Nat) (hlabel : t.label ≠ none) (opens : t.Opens tests)
      (h : Refused tests (t.part i)) : Refused tests t

variable {tests : Bool} {t : TypeTree}

theorem Refused.ne_empty (h : t.Refused tests) : t ≠ empty := by
  rintro rfl
  cases h with
  | here h => cases h
  | part i hlabel => exact hlabel rfl

/-- A type in which such a part is met needs code both ways through JSON. -/
theorem Refused.needs (h : t.Refused tests) (w : Way) : t.Needs w := by
  induction h with
  | @here t l h hl =>
    cases l with
    | atom x => exact .atom h (by rw [Atom.needsCode, show x.isNever = true from hl, Bool.or_true])
    | promise => exact .promise h
    | function => exact .function h
    | _ => cases hl
  | part i _ _ _ ih => exact .part i ih

end TypeTree

namespace Arena

variable {a : Arena} {id child : NodeId} {tests : Bool}

/-! ## Nodes below which a refused one is met -/

/-- The members of a union node are all looked at, by tests if none of them is trivial. -/
def Opens (a : Arena) (tests : Bool) (id : NodeId) : Prop :=
  tests = true → ∀ members, (a.node id).shape = .union members →
    ∀ member ∈ members, ¬(a.unfolding member).Trivial

/-- On some way down from a node, one is met that no language can say. -/
inductive Meets (a : Arena) (tests : Bool) : NodeId → Prop where
  | refused {id : NodeId} (h : (a.node id).isRefused = true) : Meets a tests id
  | child {id child : NodeId} (mem : child ∈ (a.node id).children) (opens : a.Opens tests id)
      (meets : Meets a tests child) : Meets a tests id

/-- Where tests are not left out, every node that can be reached is met. -/
theorem Meets.of_reaches {last : NodeId} (reaches : a.Reaches id last)
    (h : (a.node last).isRefused = true) : a.Meets false id := by
  induction reaches using Relation.ReflTransGen.head_induction_on with
  | refl => exact .refused h
  | head mem _ ih => exact .child mem nofun ih

theorem isRefused_of_labelOf {n : Node} {l : Label} (h : a.labelOf n = some l) :
    l.isRefused = n.isRefused := by
  unfold labelOf at h
  unfold Node.isRefused
  cases hshape : n.shape <;> rw [hshape] at h <;> cases h
  case atom x => exact x.isNever_canonical
  all_goals rfl

theorem standsFor?_of_isRefused {n : Node} (h : n.isRefused = true) : n.standsFor? = none := by
  unfold Node.isRefused at h
  unfold Node.standsFor?
  cases hshape : n.shape <;> rw [hshape] at h <;> first | rfl | cases h

theorem exists_label {n : Node} (h : n.standsFor? = none) : ∃ l, a.labelOf n = some l := by
  unfold Node.standsFor? at h
  unfold labelOf
  cases hshape : n.shape <;> rw [hshape] at h <;> first | exact ⟨_, rfl⟩ | cases h

/-- A union node opens as its unfolding does. -/
theorem opens_unfolding (hself : (a.node id).standsFor? = none) :
    (a.unfolding id).Opens tests ↔ a.Opens tests id := by
  refine forall_congr' fun _ => ⟨fun h members hshape member hmember => ?_,
    fun h members hlabel i hi => ?_⟩
  · obtain ⟨i, hi, rfl⟩ := List.mem_iff_getElem.mp hmember
    have hlabel : (a.unfolding id).label = some (.union members.length) := by
      rw [label_unfolding hself]
      simp only [labelOf, hshape]
    have hpart : (a.unfolding id).part i = a.unfolding members[i] := by
      refine part_unfolding hself ?_
      rw [Node.children, hshape]
      exact List.getElem?_eq_getElem hi
    rw [← hpart]
    exact h members.length hlabel i hi
  · rw [label_unfolding hself] at hlabel
    obtain ⟨ids, hshape, rfl⟩ := shape_of_union hlabel
    have hpart : (a.unfolding id).part i = a.unfolding ids[i] := by
      refine part_unfolding hself ?_
      rw [Node.children, hshape]
      exact List.getElem?_eq_getElem hi
    rw [hpart]
    exact h ids hshape _ (List.getElem_mem hi)

theorem opens_of_not_isUnion (h : a.isUnion id = false) : a.Opens tests id := by
  intro _ members hshape
  have hself : (a.node id).standsFor? = none := by rw [Node.standsFor?, hshape]
  rw [isUnion, label_unfolding hself] at h
  simp only [labelOf, hshape, reduceCtorEq] at h

theorem opens_of_children (h : ∀ child ∈ (a.node id).children, ¬(a.unfolding child).Trivial) :
    a.Opens tests id := by
  intro _ members hshape member hmember
  refine h member ?_
  rw [Node.children, hshape]
  exact hmember

/-- A node that stands for another has no other child. -/
theorem eq_of_standsFor (hstands : (a.node id).standsFor? = some child) {other : NodeId}
    (mem : other ∈ (a.node id).children) : other = child := by
  rw [Node.children] at mem
  unfold Node.standsFor? at hstands
  cases hshape : (a.node id).shape <;> rw [hshape] at hstands mem <;> cases hstands <;>
    exact List.mem_singleton.mp mem

/-- What is met below a node is met in its unfolded type. -/
theorem Meets.unfolding (h : a.Meets tests id) : (a.unfolding id).Refused tests := by
  induction h with
  | @refused id h =>
    have hself := standsFor?_of_isRefused h
    obtain ⟨l, hl⟩ := exists_label (a := a) hself
    exact .here ((label_unfolding hself).trans hl) ((isRefused_of_labelOf hl).trans h)
  | @child id child mem opens _ ih =>
    cases hstands : (a.node id).standsFor? with
    | some other =>
      obtain rfl := eq_of_standsFor hstands mem
      rw [unfolding_of_standsFor hstands]
      exact ih
    | none =>
      obtain ⟨i, hi, rfl⟩ := List.mem_iff_getElem.mp mem
      have hpart := part_unfolding hstands (List.getElem?_eq_getElem hi)
      obtain ⟨l, hl⟩ := exists_label (a := a) hstands
      refine .part i ?_ ((opens_unfolding hstands).mpr opens) (hpart ▸ ih)
      rw [label_unfolding hstands, hl]
      exact Option.some_ne_none l

/-! ## Children of objects and tuples -/

/-- A child of an object is one of its properties, or its index signature. -/
theorem MembersInPlace.cases_object (placed : a.MembersInPlace) {props : List NodeId}
    {index : Option NodeId} {className : Option String}
    (hshape : (a.node id).shape = .object props index className)
    (hchild : child ∈ (a.node id).children) :
    (∃ p ∈ a.properties props, p.id = child) ∨
      ∃ filter, a.indexFilter index = some (child, filter) := by
  rw [Node.children, hshape] at hchild
  rcases List.mem_append.mp hchild with hmem | hmem
  · have hproperty := placed.props id props index className hshape child hmem
    cases hprop : (a.node child).shape <;> rw [hprop] at hproperty <;> cases hproperty
    rename_i name inner
    refine .inl ⟨⟨child, name, (a.node child).optional⟩, List.mem_filterMap.mpr ⟨child, hmem, ?_⟩, rfl⟩
    simp only [hprop]
  · obtain rfl := Option.mem_toList.mp hmem
    have hsignature := placed.index id props (some child) className hshape child rfl
    cases hindex : (a.node child).shape <;> rw [hindex] at hsignature <;> cases hsignature
    rename_i filter inner
    exact .inr ⟨filter, by simp only [indexFilter, Option.bind_some, hindex]⟩

/-- A child of a tuple has a fixed position, or stands for the remaining elements. -/
theorem cases_splitTuple {members fixed : List NodeId} {rest : Option NodeId}
    (hsplit : a.splitTuple members = (fixed, rest)) (hchild : child ∈ members) :
    (∃ i, (child, i) ∈ fixed.zipIdx) ∨ rest = some child := by
  rw [← splitTuple_append (a := a) members, hsplit] at hchild
  rcases List.mem_append.mp hchild with hmem | hmem
  · obtain ⟨i, hi, rfl⟩ := List.mem_iff_getElem.mp hmem
    exact .inl ⟨i, List.mk_mem_zipIdx_iff_getElem?.mpr (List.getElem?_eq_getElem hi)⟩
  · exact .inr (Option.mem_toList.mp hmem)

end Arena

/-! ## Code of nodes and of their children -/

namespace Compile

variable {a : Arena} {id child : NodeId} {tests : Bool}

theorem Others.exists_of_some {α γ δ : Type} {x : Option α} {R : α → γ → Prop} {wrap : α → γ → δ}
    {absent out : δ} (h : Others x R wrap absent out) {y : α} (hy : x = some y) : ∃ c, R y c := by
  cases h with
  | absent h => cases h.symm.trans hy
  | @present y' c h hc =>
    obtain rfl := Option.some.inj (h.symm.trans hy)
    exact ⟨c, hc⟩

/-- A node is compiled together with its children: whatever it is compiled to, they are compiled to
something as well. -/
def Uses (a : Arena) (id : NodeId) (Coded : NodeId → Prop) : Prop :=
  ∀ child ∈ (a.node id).children, Coded child

section Uses

variable {Code : Type} {R : NodeId → Code → Prop} {Coded : NodeId → Prop}

theorem uses_one (mem : (a.node id).children = [child]) (h : Coded child) : Uses a id Coded := by
  intro other hother
  rw [mem] at hother
  obtain rfl := List.mem_singleton.mp hother
  exact h

theorem uses_standsFor (hstands : (a.node id).standsFor? = some child) (h : Coded child) :
    Uses a id Coded := by
  intro other hother
  obtain rfl := Arena.eq_of_standsFor hstands hother
  exact h

theorem uses_object (placed : a.MembersInPlace) {props : List NodeId} {index : Option NodeId}
    {className : Option String} (hshape : (a.node id).shape = .object props index className)
    (declared : ∀ p ∈ a.properties props, Coded p.id)
    (others : ∀ x, a.indexFilter index = some x → Coded x.1) : Uses a id Coded := by
  intro child hchild
  rcases placed.cases_object hshape hchild with ⟨p, hp, rfl⟩ | ⟨filter, hindex⟩
  · exact declared p hp
  · exact others _ hindex

theorem uses_tuple {members fixed : List NodeId} {rest : Option NodeId}
    (hshape : (a.node id).shape = .tuple members) (hsplit : a.splitTuple members = (fixed, rest))
    (positions : ∀ x ∈ fixed.zipIdx, Coded x.1) (others : ∀ last, rest = some last → Coded last) :
    Uses a id Coded := by
  intro child hchild
  rw [Node.children, hshape] at hchild
  rcases Arena.cases_splitTuple hsplit hchild with ⟨i, hi⟩ | hrest
  · exact positions _ hi
  · exact others child hrest

theorem uses_union {members : List NodeId} (hshape : (a.node id).shape = .union members)
    (h : ∀ member ∈ members, Coded member) : Uses a id Coded := by
  intro child hchild
  rw [Node.children, hshape] at hchild
  exact h child hchild

end Uses

/-! ### Tests -/

section Checks

variable {known : Keys} {depth : Nat} {c : Check}

/-- Tests of which one may fail may fail together. -/
theorem isAlways_allOf {cs : List Check} (hc : c ∈ cs) (h : c.isAlways = false) :
    (Check.allOf cs).isAlways = false := by
  have hmem : c ∈ cs.filter fun c => !c.isAlways := List.mem_filter.mpr ⟨hc, by rw [h]; rfl⟩
  unfold Check.allOf
  split
  · rename_i hnil
    exact absurd (hnil ▸ hmem) List.not_mem_nil
  · rename_i c' hone
    rw [hone] at hmem
    exact List.mem_singleton.mp hmem ▸ h
  · rfl

/-- A test that always holds, and is seen to, is of a trivial type. -/
theorem trivial_of_isAlways (h : CheckAt a known depth id c) (hc : c.isAlways = true) :
    (a.unfolding id).Trivial := by
  induction depth generalizing id c with
  | zero =>
    cases h with
    | plain h => cases h
    | called => cases hc
    | inPlace _ h => exact h.elim
  | succ depth ih =>
    cases h with
    | plain h => cases h
    | called => cases hc
    | inPlace _ h =>
      have head {kind : Kind} {cs : List Check} :
          (Check.allOf (.is kind :: cs)).isAlways = false :=
        isAlways_allOf List.mem_cons_self rfl
      have label (hself : (a.node id).standsFor? = none) := Arena.label_unfolding hself
      cases h with
      | @atom x _ hshape hcheck =>
        have hx : x = .any ∨ x = .unknown := by
          cases x <;> cases hcheck <;> first | exact .inl rfl | exact .inr rfl | cases hc
        refine .atom (x := x) ?_ hx
        rw [label (by simp only [Node.standsFor?, hshape])]
        rcases hx with rfl | rfl <;> simp only [Arena.labelOf, hshape] <;> rfl
      | array => cases head.symm.trans hc
      | @property name child body hshape hbody =>
        have hbodyAlways : body.isAlways = true := by
          by_contra hne
          rw [unlessAlways, if_neg hne] at hc
          cases (isAlways_allOf List.mem_cons_self rfl).symm.trans hc
        obtain ⟨hlabel, hpart⟩ := Arena.label_of_property hshape
        exact .property hlabel (hpart ▸ ih hbody hbodyAlways)
      | standsFor hstands hbody =>
        rw [Arena.unfolding_of_standsFor hstands]
        exact ih hbody hc
      | object => cases head.symm.trans hc
      | @tuple members fixed rest elements others hshape =>
        have hmem : Check.is .array ∈ tupleShape fixed.length rest.isSome := by
          unfold tupleShape
          split <;> exact List.mem_cons_self
        have halways : (Check.allOf (tupleShape fixed.length rest.isSome ++ elements.flatten ++
            others)).isAlways = false :=
          isAlways_allOf (List.mem_append_left _ (List.mem_append_left _ hmem)) rfl
        cases halways.symm.trans hc
      | @union members _ hshape hunion =>
        have hself : (a.node id).standsFor? = none := by simp only [Node.standsFor?, hshape]
        cases hunion with
        | @always member body hmember hbody hbodyAlways =>
          obtain ⟨i, hi, rfl⟩ := List.mem_iff_getElem.mp hmember
          have hlabel := (Arena.label_of_union hshape).1
          have hpart : (a.unfolding id).part i = a.unfolding members[i] :=
            Arena.part_unfolding hself (by rw [Node.children, hshape]; exact List.getElem?_eq_getElem hi)
          exact .union hlabel i (hpart ▸ ih hbody hbodyAlways)
        | arms => cases hc

theorem coded_unionCheck {members : List NodeId} (opens : a.Opens true id)
    (hshape : (a.node id).shape = .union members)
    (h : UnionCheck (CheckAt a known depth) members c) :
    ∀ member ∈ members, ∃ c, CheckAt a known depth member c := by
  cases h with
  | always mem hc halways =>
    exact absurd (trivial_of_isAlways hc halways) (opens rfl members hshape _ mem)
  | arms harms =>
    intro member hmember
    obtain ⟨c, -, hc⟩ := exists_of_forall₂_left harms hmember
    exact ⟨c, hc⟩

theorem uses_checkNode (placed : a.MembersInPlace) (opens : a.Opens true id)
    (h : CheckNode a (CheckAt a known depth) (a.node id) c) :
    Uses a id fun child => ∃ c, CheckAt a known depth child c := by
  cases h with
  | atom hshape =>
    intro child hchild
    rw [Node.children, hshape] at hchild
    exact absurd hchild List.not_mem_nil
  | array hshape hc | property hshape hc => exact uses_one (by rw [Node.children, hshape]; rfl) ⟨_, hc⟩
  | standsFor hstands hc => exact uses_standsFor hstands ⟨_, hc⟩
  | object hshape hdeclared hothers =>
    refine uses_object placed hshape (fun p hp => ?_) fun x hx => hothers.exists_of_some hx
    obtain ⟨c, -, hc⟩ := exists_of_forall₂_left hdeclared hp
    exact ⟨c, hc⟩
  | tuple hshape hsplit helements hothers =>
    refine uses_tuple hshape hsplit (fun x hx => ?_) fun last hlast => hothers.exists_of_some hlast
    obtain ⟨_, -, c, hc, -⟩ := exists_of_forall₂_left helements hx
    exact ⟨c, hc⟩
  | union hshape hunion => exact uses_union hshape (coded_unionCheck opens hshape hunion)

end Checks

/-! ### Reports -/

/-- The children of a union have tests, and all others reports. -/
theorem uses_reportNode (placed : a.MembersInPlace) {known : Keys} {depth : Nat} {site : Site}
    {body : List Report} (opens : a.Opens true id)
    (h : ReportNode a (CheckAt a known depth) (ReportAt a known depth) site (a.node id) body) :
    Uses a id fun child => (∃ c, CheckAt a known depth child c) ∨
      ∃ site body, ReportAt a known depth site child body := by
  cases h with
  | atom hshape =>
    intro child hchild
    rw [Node.children, hshape] at hchild
    exact absurd hchild List.not_mem_nil
  | array hshape hc | property hshape hc =>
    exact uses_one (by rw [Node.children, hshape]; rfl) (.inr ⟨_, _, hc⟩)
  | standsFor hstands hc => exact uses_standsFor hstands (.inr ⟨_, _, hc⟩)
  | object hshape hdeclared hothers =>
    refine uses_object placed hshape (fun p hp => ?_) fun x hx => ?_
    · obtain ⟨c, -, hc⟩ := exists_of_forall₂_left hdeclared hp
      exact .inr ⟨_, c, hc⟩
    · exact .inr ⟨_, hothers.exists_of_some hx⟩
  | tuple hshape hsplit helements hothers =>
    refine uses_tuple hshape hsplit (fun x hx => ?_) fun last hlast => ?_
    · obtain ⟨_, -, c, hc, -⟩ := exists_of_forall₂_left helements hx
      exact .inr ⟨_, c, hc⟩
    · exact .inr ⟨_, hothers.exists_of_some hlast⟩
  | union hshape hunion =>
    exact uses_union hshape fun member hmember => .inl (coded_unionCheck opens hshape hunion member hmember)

/-! ### Encoders, decoders and emitters -/

section Transforms

variable {R : NodeId → List Transform → Prop} {body : List Transform}

theorem uses_objectTransform (placed : a.MembersInPlace) {props : List NodeId}
    {index : Option NodeId} {className : Option String}
    (hshape : (a.node id).shape = .object props index className)
    (h : ObjectTransform a R props index body) : Uses a id fun child => ∃ c, R child c := by
  obtain ⟨hdeclared, hothers⟩ := h
  refine uses_object placed hshape (fun p hp => ?_) fun x hx => hothers.exists_of_some hx
  obtain ⟨c, -, hc⟩ := exists_of_forall₂_left hdeclared hp
  exact ⟨c, hc⟩

theorem uses_tupleTransform {before : NodeId → Nat → List Transform} {members : List NodeId}
    (hshape : (a.node id).shape = .tuple members)
    (h : TupleTransform a before R members body) : Uses a id fun child => ∃ c, R child c := by
  obtain ⟨hsplit, helements, hothers⟩ := h
  refine uses_tuple hshape hsplit (fun x hx => ?_) fun last hlast => hothers.exists_of_some hlast
  obtain ⟨_, -, c, hc, -⟩ := exists_of_forall₂_left helements hx
  exact ⟨c, hc⟩

theorem uses_encodeNode (placed : a.MembersInPlace) {check : NodeId → Check → Prop}
    (h : EncodeNode a check R (a.node id) body) : Uses a id fun child => ∃ c, R child c := by
  cases h with
  | atom hshape =>
    intro child hchild
    rw [Node.children, hshape] at hchild
    exact absurd hchild List.not_mem_nil
  | array hshape hc | property hshape hc => exact uses_one (by rw [Node.children, hshape]; rfl) ⟨_, hc⟩
  | standsFor hstands hc => exact uses_standsFor hstands ⟨_, hc⟩
  | object hshape hbody => exact uses_objectTransform placed hshape hbody
  | tuple hshape hbody => exact uses_tupleTransform hshape hbody
  | union hshape harms =>
    refine uses_union hshape fun member hmember => ?_
    obtain ⟨arm, -, -, hc⟩ := exists_of_forall₂_left harms hmember
    exact ⟨arm.2, hc⟩

theorem uses_decodeNode (placed : a.MembersInPlace) (h : DecodeNode a R (a.node id) body) :
    Uses a id fun child => ∃ c, R child c := by
  cases h with
  | atom hshape =>
    intro child hchild
    rw [Node.children, hshape] at hchild
    exact absurd hchild List.not_mem_nil
  | array hshape hc | property hshape hc => exact uses_one (by rw [Node.children, hshape]; rfl) ⟨_, hc⟩
  | standsFor hstands hc => exact uses_standsFor hstands ⟨_, hc⟩
  | object hshape hbody => exact uses_objectTransform placed hshape hbody
  | tuple hshape hbody => exact uses_tupleTransform hshape hbody
  | union hshape harms =>
    refine uses_union hshape fun member hmember => ?_
    obtain ⟨c, -, hc⟩ := exists_of_forall₂_left harms hmember
    exact ⟨c, hc⟩

end Transforms

theorem uses_emitNode (placed : a.MembersInPlace) {check : NodeId → Check → Prop}
    {R : NodeId → Emit → Prop} {emit : Emit} (h : EmitNode a check R (a.node id) emit) :
    Uses a id fun child => ∃ c, R child c := by
  cases h with
  | atom hshape =>
    intro child hchild
    rw [Node.children, hshape] at hchild
    exact absurd hchild List.not_mem_nil
  | array hshape hc | property hshape hc => exact uses_one (by rw [Node.children, hshape]; rfl) ⟨_, hc⟩
  | standsFor hstands hc => exact uses_standsFor hstands ⟨_, hc⟩
  | object hshape hmembers hothers =>
    refine uses_object placed hshape (fun p hp => ?_) fun x hx => hothers.exists_of_some hx
    obtain ⟨_, -, c, hc, -⟩ := exists_of_forall₂_left hmembers hp
    exact ⟨c, hc⟩
  | tuple hshape hsplit helements hothers =>
    refine uses_tuple hshape hsplit (fun x hx => ?_) fun last hlast => hothers.exists_of_some hlast
    obtain ⟨c, -, hc⟩ := exists_of_forall₂_left helements hx
    exact ⟨c, hc⟩
  | union hshape harms =>
    refine uses_union hshape fun member hmember => ?_
    obtain ⟨arm, -, -, hc⟩ := exists_of_forall₂_left harms hmember
    exact ⟨arm.2, hc⟩

/-! ## Refused types have no code -/

/-- The nodes that have code in a language at a depth, visited or compiled in place, when certain
functions are known. -/
structure Coding (a : Arena) (known : Keys) (target : Target) (At InPlace : Nat → NodeId → Prop) :
    Prop where
  visited : ∀ depth id, At depth id → (¬(a.unfolding id).Refused target.isTest) ∨
    known ⟨(a.node id).identity, target⟩ ∨ ∃ below, depth = below + 1 ∧ InPlace below id
  uses : ∀ depth id, a.Opens target.isTest id → InPlace depth id →
    Uses a id fun child => (¬(a.unfolding child).Refused target.isTest) ∨ At depth child
  refused : ∀ depth id, InPlace depth id → (a.node id).isRefused = false
  /-- A known function is code of a node that stands for itself. -/
  start : ∀ id, known ⟨(a.node id).identity, target⟩ → ∃ start, (a.node start).standsFor? = none ∧
    (a.node start).identity = (a.node id).identity ∧
    ((¬(a.unfolding start).Refused target.isTest) ∨ ∃ depth, InPlace depth start)

theorem opens_of_standsFor (hstands : (a.node id).standsFor? = some child) : a.Opens tests id := by
  intro _ members hshape
  simp only [Node.standsFor?, hshape, reduceCtorEq] at hstands

section Coding

variable {known : Keys} {target : Target} {At InPlace : Nat → NodeId → Prop}

/-- A visit comes to a node that stands for itself and is compiled in place. -/
theorem Coding.not_at_of_not_inPlace (coding : Coding a known target At InPlace)
    (faithful : a.Faithful) {t : TypeTree} (h : t.Refused target.isTest)
    (own : ∀ depth id, (a.node id).standsFor? = none → a.unfolding id = t → ¬InPlace depth id)
    (depth : Nat) : ∀ id, a.unfolding id = t → ¬At depth id := by
  induction depth using Nat.strongRecOn with
  | ind depth ih =>
    rintro id rfl hat
    rcases coding.visited depth id hat with hnot | hknown | ⟨below, rfl, hplace⟩
    · exact hnot h
    · obtain ⟨start, hself, hidentity, hstart⟩ := coding.start id hknown
      have heq := faithful start id hidentity
      rcases hstart with hnot | ⟨depth, hplace⟩
      · exact hnot (heq ▸ h)
      · exact own depth start hself heq hplace
    · cases hstands : (a.node id).standsFor? with
      | none => exact own below id hstands rfl hplace
      | some child =>
        have hunfold := Arena.unfolding_of_standsFor hstands
        have hmem : child ∈ (a.node id).children := Arena.mem_children_of_standsFor hstands
        rcases coding.uses below id (opens_of_standsFor hstands) hplace child hmem with hnot | hat
        · exact hnot (hunfold ▸ h)
        · exact ih below (Nat.lt_succ_self below) child hunfold.symm hat

/-- **A refused type has no code in any language.** -/
theorem Coding.not_inPlace (coding : Coding a known target At InPlace) (faithful : a.Faithful)
    {t : TypeTree} (h : t.Refused target.isTest) : ∀ depth id, (a.node id).standsFor? = none →
      a.unfolding id = t → ¬InPlace depth id := by
  induction h with
  | @here t l hlabel hl =>
    rintro depth id hself rfl hplace
    rw [Arena.label_unfolding hself] at hlabel
    rw [Arena.isRefused_of_labelOf hlabel, coding.refused depth id hplace] at hl
    cases hl
  | @part t i hlabel opens hpart ih =>
    rintro depth id hself rfl hplace
    obtain ⟨core, child, hcore, hchild, heq⟩ := Arena.exists_child_of_part hpart.ne_empty
    obtain rfl := Option.some.inj ((Arena.core_of_none hself).symm.trans hcore)
    have hopens := (Arena.opens_unfolding hself).mp opens
    rcases coding.uses depth id hopens hplace child (List.mem_of_getElem? hchild) with hnot | hat
    · exact hnot (heq ▸ hpart)
    · exact coding.not_at_of_not_inPlace faithful hpart ih depth child heq.symm hat

theorem Coding.not_at (coding : Coding a known target At InPlace) (faithful : a.Faithful)
    {t : TypeTree} (h : t.Refused target.isTest) (depth : Nat) :
    ∀ id, a.unfolding id = t → ¬At depth id :=
  coding.not_at_of_not_inPlace faithful h (coding.not_inPlace faithful h) depth

end Coding

section Languages

variable {known : Keys} {depth : Nat}

/-! ## The five languages -/

theorem CheckAt.visited {c : Check} (h : CheckAt a known depth id c) :
    known ⟨(a.node id).identity, .isType⟩ ∨ ∃ below, depth = below + 1 ∧
      CheckNode a (CheckAt a known below) (a.node id) c := by
  cases depth with
  | zero => exact (h.known_or_inPlace rfl).imp_right False.elim
  | succ below => exact (h.known_or_inPlace rfl).imp_right fun h => ⟨below, rfl, h⟩

theorem ReportAt.visited {site : Site} {body : List Report}
    (h : ReportAt a known depth site id body) :
    known ⟨(a.node id).identity, .typeErrors⟩ ∨ ∃ below, depth = below + 1 ∧
      ReportNode a (CheckAt a known below) (ReportAt a known below) site (a.node id) body := by
  cases depth with
  | zero => exact (h.known_or_inPlace rfl).imp_right False.elim
  | succ below => exact (h.known_or_inPlace rfl).imp_right fun h => ⟨below, rfl, h⟩

theorem isRefused_of_shape {n : Node} {shape : Shape} (h : n.shape = shape)
    (atom : ∀ x, shape = .atom x → x.isNever = false) (promise : ∀ child, shape ≠ .promise child)
    (function : ∀ f, shape ≠ .function f) : n.isRefused = false := by
  unfold Node.isRefused
  rw [h]
  cases shape with
  | atom x => exact atom x rfl
  | promise child => exact absurd rfl (promise child)
  | function f => exact absurd rfl (function f)
  | _ => rfl

theorem isRefused_of_standsFor {n : Node} {child : NodeId} (h : n.standsFor? = some child) :
    n.isRefused = false := by
  refine Bool.eq_false_iff.mpr fun hrefused => ?_
  cases h.symm.trans (Arena.standsFor?_of_isRefused hrefused)

theorem isRefused_of_atom {n : Node} {x : Atom} (h : n.shape = .atom x) (never : x.isNever = false) :
    n.isRefused = false := by
  refine isRefused_of_shape h (fun y hy => ?_) nofun nofun
  cases hy
  exact never

/-- Nodes with a test or a report are not refused. -/
theorem isRefused_of_tested {n : Node} {C : NodeId → Check → Prop}
    {R : Site → NodeId → List Report → Prop}
    (h : (∃ c, CheckNode a C n c) ∨ ∃ site body, ReportNode a C R site n body) :
    n.isRefused = false := by
  rcases h with ⟨_, h⟩ | ⟨_, _, h⟩ <;> cases h with
  | @atom x _ h hc =>
    refine isRefused_of_atom h ?_
    cases x <;> first | rfl | cases hc
  | standsFor h => exact isRefused_of_standsFor h
  | array h | property h | object h | tuple h | union h => exact isRefused_of_shape h nofun nofun nofun

/-- Nodes with an encoder, a decoder or a printer are not refused. -/
theorem isRefused_of_carried {n : Node} {C : NodeId → Check → Prop}
    {T : NodeId → List Transform → Prop} {E : NodeId → Emit → Prop}
    (h : (∃ body, EncodeNode a C T n body) ∨ (∃ body, DecodeNode a T n body) ∨
      ∃ emit, EmitNode a C E n emit) : n.isRefused = false := by
  rcases h with ⟨_, h⟩ | ⟨_, h⟩ | ⟨_, h⟩ <;> cases h with
  | atom h never => exact isRefused_of_atom h never
  | standsFor h => exact isRefused_of_standsFor h
  | array h | property h | object h | tuple h | union h => exact isRefused_of_shape h nofun nofun nofun

section Codings

variable {r : Registry} {limit : Nat} (placed : a.MembersInPlace) (faithful : a.Faithful)
  (grounded : r.Grounded a limit)

include placed faithful grounded

theorem coding_checks : Coding a (r.contains · = true) .isType
    (fun depth id => ∃ c, CheckAt a (r.contains · = true) depth id c)
    (fun depth id => ∃ c, CheckNode a (CheckAt a (r.contains · = true) depth) (a.node id) c) where
  visited _ _ := fun ⟨c, hc⟩ => .inr (hc.visited.imp_right fun ⟨below, heq, h⟩ => ⟨below, heq, c, h⟩)
  uses _ _ opens := fun ⟨_, h⟩ child hchild => .inr (uses_checkNode placed opens h child hchild)
  refused _ _ := fun h => isRefused_of_tested (R := fun _ _ _ => False) (.inl h)
  start id hknown := by
    obtain ⟨f, hf, -, node, hself, hof, -⟩ :=
      Program.exists_grounded [] faithful grounded (Registry.contains_iff.mp hknown)
    cases hof with
    | @isType depth code _ h =>
      refine ⟨node, hself, congrArg FunctionKey.identity hf, .inr ⟨depth, code, ?_⟩⟩
      cases h with
      | plain h => cases h
      | inPlace _ h => exact h
    | typeErrors | jsonEncode | jsonDecode | jsonStringify =>
      cases congrArg FunctionKey.target hf

theorem coding_reports : Coding a (r.contains · = true) .typeErrors
    (fun depth id => ∃ site body, ReportAt a (r.contains · = true) depth site id body)
    (fun depth id => ∃ site body, ReportNode a (CheckAt a (r.contains · = true) depth)
      (ReportAt a (r.contains · = true) depth) site (a.node id) body) where
  visited _ _ := fun ⟨site, body, h⟩ =>
    .inr (h.visited.imp_right fun ⟨below, heq, h⟩ => ⟨below, heq, site, body, h⟩)
  uses _ _ opens := fun ⟨_, _, h⟩ child hchild => by
    refine (uses_reportNode placed opens h child hchild).imp_left fun hcheck hrefused => ?_
    exact (coding_checks placed faithful grounded).not_at faithful hrefused _ child rfl hcheck
  refused _ _ := fun h => isRefused_of_tested (.inr h)
  start id hknown := by
    obtain ⟨f, hf, -, node, hself, hof, -⟩ :=
      Program.exists_grounded [] faithful grounded (Registry.contains_iff.mp hknown)
    cases hof with
    | @typeErrors depth code site _ _ _ h =>
      refine ⟨node, hself, congrArg FunctionKey.identity hf, .inr ⟨depth, site, code, ?_⟩⟩
      cases h with
      | plain h => cases h
      | inPlace _ h => exact h
    | isType | jsonEncode | jsonDecode | jsonStringify =>
      cases congrArg FunctionKey.target hf

variable (marked : a.Marked)

include marked

omit placed faithful grounded in
/-- A type without need of code has no refused part. -/
theorem not_refused_of_not_needs {way : Way} {tests : Bool} (h : (a.node id).needs way ≠ true) :
    ¬(a.unfolding id).Refused tests := fun hrefused => h ((marked id way).mpr (hrefused.needs way))

theorem coding_transforms (way : Way) : Coding a (r.contains · = true) way.target
    (fun depth id => ∃ body, way.CodeAt a (r.contains · = true) depth id body)
    (fun depth id => ∃ body, way.CodeNode a (r.contains · = true) depth (a.node id) body) where
  visited _ id := fun ⟨body, h⟩ => by
    cases h.visited with
    | plain hplain => exact .inl (not_refused_of_not_needs marked (Way.plain?_eq_some hplain).1)
    | called _ hknown => exact .inr (.inl (by cases way <;> exact hknown))
    | inPlace _ h => exact .inr (.inr (h.imp fun _ => And.imp_right fun h => ⟨body, h⟩))
  uses _ _ _ := fun ⟨_, h⟩ child hchild => .inr <| by
    cases way with
    | encode => exact uses_encodeNode placed h child hchild
    | decode => exact uses_decodeNode placed h child hchild
  refused _ _ := fun h => by
    cases way with
    | encode => exact isRefused_of_carried (E := fun _ _ => False) (.inl h)
    | decode =>
      exact isRefused_of_carried (C := fun _ _ => False) (E := fun _ _ => False) (.inr (.inl h))
  start id hknown := by
    obtain ⟨f, hf, -, node, hself, hof, -⟩ :=
      Program.exists_grounded [] faithful grounded (Registry.contains_iff.mp hknown)
    have entered {body : List Transform} {depth : Nat} (h : way.language.Entered
        (way.CodeNode a (r.contains · = true) depth) (a.node node) body) :
        (¬(a.unfolding node).Refused way.target.isTest) ∨
          ∃ depth body, way.CodeNode a (r.contains · = true) depth (a.node node) body := by
      cases h with
      | plain hplain => exact .inl (not_refused_of_not_needs marked (Way.plain?_eq_some hplain).1)
      | inPlace _ h => exact .inr ⟨depth, body, h⟩
    cases way <;> cases hof with
    | jsonEncode _ h | jsonDecode _ h =>
      first
        | exact ⟨node, hself, congrArg FunctionKey.identity hf, entered h⟩
        | cases congrArg FunctionKey.target hf
    | isType | typeErrors | jsonStringify => cases congrArg FunctionKey.target hf

theorem coding_emits : Coding a (r.contains · = true) .jsonStringify
    (fun depth id => ∃ emit, EmitAt a (r.contains · = true) depth id emit)
    (fun depth id => ∃ emit, EmitNode a (CheckAt a (r.contains · = true) depth)
      (EmitAt a (r.contains · = true) depth) (a.node id) emit) where
  visited _ id := fun ⟨emit, h⟩ => by
    cases h.visited with
    | plain hplain => exact .inl (not_refused_of_not_needs marked (eq_json_of_emitters_plain? hplain).1)
    | called _ hknown => exact .inr (.inl hknown)
    | inPlace _ h => exact .inr (.inr (h.imp fun _ => And.imp_right fun h => ⟨emit, h⟩))
  uses _ _ _ := fun ⟨_, h⟩ child hchild => .inr (uses_emitNode placed h child hchild)
  refused _ _ := fun h => isRefused_of_carried (T := fun _ _ => False) (.inr (.inr h))
  start id hknown := by
    obtain ⟨f, hf, -, node, hself, hof, -⟩ :=
      Program.exists_grounded [] faithful grounded (Registry.contains_iff.mp hknown)
    cases hof with
    | @jsonStringify depth code _ h =>
      refine ⟨node, hself, congrArg FunctionKey.identity hf, ?_⟩
      cases h with
      | plain hplain =>
        exact .inl (not_refused_of_not_needs marked (eq_json_of_emitters_plain? hplain).1)
      | inPlace _ h => exact .inr ⟨depth, code, h⟩
    | isType | typeErrors | jsonEncode | jsonDecode => cases congrArg FunctionKey.target hf

/-- The nodes with code in the language of a target. -/
theorem exists_coding (target : Target) :
    ∃ At InPlace, Coding a (r.contains · = true) target At InPlace := by
  cases target with
  | isType => exact ⟨_, _, coding_checks placed faithful grounded⟩
  | typeErrors => exact ⟨_, _, coding_reports placed faithful grounded⟩
  | jsonEncode => exact ⟨_, _, coding_transforms placed faithful grounded marked .encode⟩
  | jsonDecode => exact ⟨_, _, coding_transforms placed faithful grounded marked .decode⟩
  | jsonStringify => exact ⟨_, _, coding_emits placed faithful grounded marked⟩

/-- **No function of a refused type is ever registered.** -/
theorem not_contains_of_refused {target : Target} (h : (a.unfolding id).Refused target.isTest) :
    r.contains ⟨(a.node id).identity, target⟩ ≠ true := by
  intro hknown
  obtain ⟨At, InPlace, coding⟩ := exists_coding placed faithful grounded marked target
  obtain ⟨start, hself, hidentity, hstart⟩ := coding.start id hknown
  have heq := faithful start id hidentity
  rcases hstart with hnot | ⟨depth, hplace⟩
  · exact hnot (heq ▸ h)
  · exact coding.not_inPlace faithful h depth start hself heq hplace

end Codings

end Languages

end Compile

end Typeforge
