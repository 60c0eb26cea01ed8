/-
# `Typeforge.Proofs.Lowering.Causes` — what a mark is set for

The rules by which types are marked lead from children to the nodes that refer to
them, and back and forth between the two ways at unions.  Followed down to where
they start, a mark is there because of some node that can be reached: one whose
instances are not data, a class, or a tuple with an element whose absence must be
restored.  So the marks can be read off the references, and sweeping for them
ends, with the least marks that agree with the rules.

`Arena.Unmarked.markJsonNeeds_exact` starts where the walk leaves an arena, with no mark
set.  From other marks sweeping may end with more than these: around a cycle marks can
keep one another.
-/
import Typeforge.Proofs.Lowering.Marks
import Typeforge.Proofs.Lowering.Reaching

namespace Typeforge

namespace Node

/-- JSON carries no instance of the node as it is. -/
inductive Uncarried (n : Node) : Prop where
  | codec {x : Atom} {c : Codec} (h : n.shape = .atom x) (hx : x.codec? = some c)
  | never (h : n.shape = .atom .never)
  | promise {child : NodeId} (h : n.shape = .promise child)
  | function {f : FunctionShape} (h : n.shape = .function f)

theorem uncarried_of_atom {n : Node} {x : Atom} (h : n.shape = .atom x)
    (hx : x.needsCode = true) : n.Uncarried := by
  rw [Atom.needsCode, Bool.or_eq_true, Option.isSome_iff_exists] at hx
  rcases hx with ⟨c, hc⟩ | hnever
  · exact .codec h hc
  · refine .never ?_
    cases x <;> first | exact h | cases hnever

/-- What JSON does not carry is a reason for both ways. -/
theorem Uncarried.reason {a : Arena} {n m : Node} {w : Way} (hnm : n.shape = m.shape) :
    n.Uncarried → a.Reason m w
  | .codec h hx => .atom (hnm ▸ h) (by rw [Atom.needsCode, hx]; rfl)
  | .never h => .atom (hnm ▸ h) rfl
  | .promise h => .promise (hnm ▸ h)
  | .function h => .function (hnm ▸ h)

end Node

namespace Arena

variable {a b : Arena} {id last : NodeId} {w : Way}

/-- What JSON carries of the node's instances does not say all about them. -/
inductive Unrestored (a : Arena) (n : Node) : Prop where
  | uncarried (h : n.Uncarried)
  | class {props : List NodeId} {index : Option NodeId} {name : String}
      (h : n.shape = .object props index (some name))
  | absent {members : List NodeId} {member : NodeId} (h : n.shape = .tuple members)
      (mem : member ∈ members) (habsent : a.nullMeansAbsent member = true)

theorem Unrestored.reason (alike : a.Alike b) {n m : Node} (hnm : n.shape = m.shape) :
    a.Unrestored n → b.Reason m .decode
  | .uncarried h => h.reason hnm
  | .class h => .class (hnm ▸ h)
  | .absent h mem habsent => .absent (hnm ▸ h) mem (alike.nullMeansAbsent _ ▸ habsent)

theorem Alike.reaches (alike : a.Alike b) (h : a.Reaches id last) : b.Reaches id last := by
  refine Relation.ReflTransGen.mono (fun x child hchild => ?_) id last h
  rwa [← alike.children]

/-! ## Causes -/

/-- What a node is marked for. -/
def Cause (a : Arena) (id : NodeId) : Way → Prop
  | .decode => ∃ last, a.Reaches id last ∧ a.Unrestored (a.node last)
  | .encode => (∃ last, a.Reaches id last ∧ (a.node last).Uncarried) ∨
      ∃ u members last, a.Reaches id u ∧ (a.node u).shape = .union members ∧ a.Reaches u last ∧
        a.Unrestored (a.node last)

/-- Uncarried nodes are a cause for both ways. -/
theorem Cause.of_uncarried (reaches : a.Reaches id last) (h : (a.node last).Uncarried) :
    a.Cause id w := by
  cases w with
  | encode => exact .inl ⟨last, reaches, h⟩
  | decode => exact ⟨last, reaches, .uncarried h⟩

/-- What has a cause for one way has one for decoding. -/
theorem Cause.decode (h : a.Cause id w) : a.Cause id .decode := by
  cases w with
  | decode => exact h
  | encode =>
    rcases h with ⟨last, reaches, h⟩ | ⟨u, members, last, toUnion, -, reaches, h⟩
    · exact ⟨last, reaches, .uncarried h⟩
    · exact ⟨last, toUnion.trans reaches, h⟩

/-- A cause below a node is a cause for the node. -/
theorem Cause.of_reaches (reaches : a.Reaches id last) (h : a.Cause last w) : a.Cause id w := by
  cases w with
  | decode =>
    obtain ⟨x, hx, h⟩ := h
    exact ⟨x, reaches.trans hx, h⟩
  | encode =>
    rcases h with ⟨x, hx, h⟩ | ⟨u, members, x, hu, hunion, hx, h⟩
    · exact .inl ⟨x, reaches.trans hx, h⟩
    · exact .inr ⟨u, members, x, reaches.trans hu, hunion, hx, h⟩

/-- A cause below a union is one for both ways. -/
theorem Cause.of_union {members : List NodeId} (hunion : (a.node id).shape = .union members)
    (reaches : a.Reaches id last) (h : a.Cause last w) {w' : Way} : a.Cause id w' := by
  obtain ⟨x, hx, h⟩ := Cause.of_reaches reaches h.decode
  cases w' with
  | decode => exact ⟨x, hx, h⟩
  | encode => exact .inr ⟨id, members, x, .refl, hunion, hx, h⟩

/-- Reasons come down to causes. -/
theorem closedUnderReasons_cause (a : Arena) : a.ClosedUnderReasons a.Cause where
  outside id w hid := .of_uncarried .refl (.never (by rw [node_eq_default hid]; rfl))
  reason b alike within id w hreason := by
    have hshape := alike.shape id
    have here (h : (a.node id).Uncarried) : a.Cause id w := .of_uncarried .refl h
    cases hreason with
    | atom h hx => exact here (Node.uncarried_of_atom (hshape.trans h) hx)
    | promise h => exact here (.promise (hshape.trans h))
    | function h => exact here (.function (hshape.trans h))
    | absent h mem habsent =>
      exact ⟨id, .refl, .absent (hshape.trans h) mem (by rwa [alike.nullMeansAbsent])⟩
    | «class» h => exact ⟨id, .refl, .class (hshape.trans h)⟩
    | child mem h =>
      exact .of_reaches (.single (by rwa [alike.children])) (within _ _ h)
    | @union _ _ members child h mem needs =>
      have hmem : child ∈ (a.node id).children := by
        rwa [Node.children, hshape, h, Shape.children]
      exact .of_union (hshape.trans h) (.single hmem) (within _ _ needs)

/-! ## Marks along references -/

namespace FullyMarked

/-- Where every reason has been heard, marks come up along references. -/
theorem of_reaches (full : b.FullyMarked) (reaches : b.Reaches id last)
    (h : (b.node last).needs w = true) : (b.node id).needs w = true := by
  induction reaches using Relation.ReflTransGen.head_induction_on with
  | refl => exact h
  | head mem _ ih => exact full _ w (.child mem ih)

/-- Where every reason has been heard, a union is marked for what is marked below it. -/
theorem of_union (full : b.FullyMarked) (grounded : b.Grounded) {members : List NodeId}
    (hunion : (b.node id).shape = .union members) (reaches : b.Reaches id last) {w' : Way}
    (h : (b.node last).needs w' = true) : (b.node id).needs w = true := by
  have hmem {child : NodeId} (hchild : child ∈ (b.node id).children) : child ∈ members := by
    rwa [Node.children, hunion, Shape.children] at hchild
  -- the union's own mark has a reason below it, as any other node's
  have hchild : ∃ child ∈ members, ∃ w', (b.node child).needs w' = true := by
    rcases reaches.cases_head with rfl | ⟨child, hchild, reaches⟩
    · cases grounded id w' h with
      | child mem h => exact ⟨_, hmem mem, _, h⟩
      | union h' mem h =>
        rw [hunion] at h'
        cases h'
        exact ⟨_, mem, _, h⟩
      | atom h' | promise h' | function h' | absent h' | «class» h' =>
        rw [hunion] at h'
        cases h'
    · exact ⟨child, hmem hchild, w', full.of_reaches reaches h⟩
  obtain ⟨child, mem, w', h⟩ := hchild
  exact full id w (.union hunion mem h)

/-- Where every reason has been heard, every cause has. -/
theorem of_cause (full : b.FullyMarked) (grounded : b.Grounded) (alike : a.Alike b)
    (h : a.Cause id w) : (b.node id).needs w = true := by
  have unrestored {last : NodeId} (h : a.Unrestored (a.node last)) :
      (b.node last).needs .decode = true := full last .decode (h.reason alike (alike.shape last))
  cases w with
  | decode =>
    obtain ⟨last, reaches, h⟩ := h
    exact full.of_reaches (alike.reaches reaches) (unrestored h)
  | encode =>
    rcases h with ⟨last, reaches, h⟩ | ⟨u, members, last, toUnion, hunion, reaches, h⟩
    · exact full.of_reaches (alike.reaches reaches) (full last _ (h.reason (alike.shape last)))
    · refine full.of_reaches (alike.reaches toUnion) ?_
      exact full.of_union grounded ((alike.shape u).symm.trans hunion) (alike.reaches reaches)
        (unrestored h)

end FullyMarked

/-! ## The marks of a lowered arena -/

/-- A node is marked for its causes, and for nothing else. -/
theorem Unmarked.needs_iff_cause (unmarked : a.Unmarked) :
    (a.markJsonNeeds.node id).needs w = true ↔ a.Cause id w := by
  have hend := unmarked.marking_markJsonNeeds a.closedUnderReasons_cause
  refine ⟨hend.within id w, ?_⟩
  exact (fullyMarked_of_stable unmarked.stable).of_cause hend.grounded hend.alike

/-- The marks of an arena with all that have reasons are closed under reasons. -/
theorem closedUnderReasons_needs_of_full (alike : a.Alike b) (full : b.FullyMarked) :
    a.ClosedUnderReasons fun id w => (b.node id).needs w = true where
  outside id w hid := by
    have hout : id ∉ b.ids := fun hb => hid (mem_ids.mpr (alike.size ▸ mem_ids.mp hb))
    rw [node_eq_default hout]
    cases w <;> rfl
  reason c alike' within id w hreason := by
    have hcb := alike'.symm.trans alike
    exact full id w (hreason.mono hcb within (hcb.shape id))

/-- **The marks are the least that agree with the rules, and say what can be reached.**  From
nodes without marks, as the walk leaves them, sweeping without a bound ends where it is said to.
The marks then are a fixed point of the rules, and are among the marks of any arena of the same
structure that agrees with the rules. -/
theorem Unmarked.markJsonNeeds_exact (unmarked : a.Unmarked) :
    SettlesAt improveNeeds a a.markJsonNeeds ∧
    a.Alike a.markJsonNeeds ∧
    (∀ id w, (a.markJsonNeeds.node id).needs w = a.markJsonNeeds.need (a.markJsonNeeds.node id) w) ∧
    (∀ b : Arena, a.Alike b →
      (∀ id w, b.need (b.node id) w = true → (b.node id).needs w = true) →
      ∀ id w, (a.markJsonNeeds.node id).needs w = true → (b.node id).needs w = true) ∧
    ∀ id,
      ((a.markJsonNeeds.node id).needsDecode = true ↔
        ∃ last, a.Reaches id last ∧ a.Unrestored (a.node last)) ∧
      ((a.markJsonNeeds.node id).needsEncode = true ↔
        (∃ last, a.Reaches id last ∧ (a.node last).Uncarried) ∨
        ∃ u members last, a.Reaches id u ∧ (a.node u).shape = .union members ∧
          a.Reaches u last ∧ (a.markJsonNeeds.node last).needsDecode = true) ∧
      ((a.markJsonNeeds.node id).needsEncode = true →
        (a.markJsonNeeds.node id).needsDecode = true) := by
  have hend := unmarked.marking_markJsonNeeds a.closedUnderReasons_cause
  have full := fullyMarked_of_stable unmarked.stable
  have decode (id : NodeId) :
      (a.markJsonNeeds.node id).needsDecode = true ↔ a.Cause id .decode :=
    unmarked.needs_iff_cause (w := .decode)
  have encode (id : NodeId) :
      (a.markJsonNeeds.node id).needsEncode = true ↔ a.Cause id .encode :=
    unmarked.needs_iff_cause (w := .encode)
  refine ⟨unmarked.settlesAt, hend.alike, fun id w => ?_, fun b alike closed id w h => ?_,
    fun id => ⟨decode id, ?_, fun h => ?_⟩⟩
  · exact Bool.eq_iff_iff.mpr ⟨fun h => need_iff.mpr (hend.grounded id w h),
      fun h => full id w (need_iff.mp h)⟩
  · have full : b.FullyMarked := fun id w hreason => closed id w (need_iff.mpr hreason)
    exact (unmarked.marking_markJsonNeeds (closedUnderReasons_needs_of_full alike full)).within id w h
  · rw [encode id]
    refine or_congr_right ⟨?_, ?_⟩
    · rintro ⟨u, members, last, toUnion, hunion, reaches, h⟩
      exact ⟨u, members, last, toUnion, hunion, reaches, (decode last).mpr ⟨last, .refl, h⟩⟩
    · rintro ⟨u, members, last, toUnion, hunion, reaches, h⟩
      obtain ⟨x, hx, h⟩ := (decode last).mp h
      exact ⟨u, members, x, toUnion, hunion, reaches.trans hx, h⟩
  · exact (decode id).mpr ((encode id).mp h).decode

/-- A chain of boxes, each dated or empty and pointing at the next. -/
def datedChain : Arena where
  root := ⟨0⟩
  nodes := #[
    { source := ⟨0⟩, shape := .object [⟨1⟩] none none },
    { source := ⟨1⟩, shape := .property "next" ⟨2⟩ },
    { source := ⟨2⟩, shape := .union [⟨0⟩, ⟨3⟩, ⟨4⟩] },
    { source := ⟨3⟩, shape := .atom .date },
    { source := ⟨4⟩, shape := .atom .null }]

theorem markJsonNeeds_exact_datedChain :
    datedChain.Unmarked ∧ SettlesAt improveNeeds datedChain datedChain.markJsonNeeds ∧
      (datedChain.markJsonNeeds.node ⟨0⟩).needsEncode = true := by
  have unmarked : datedChain.Unmarked := by
    intro n hn w
    simp only [datedChain, List.mem_toArray, List.mem_cons, List.not_mem_nil, or_false] at hn
    rcases hn with rfl | rfl | rfl | rfl | rfl <;> cases w <;> rfl
  have hdate : datedChain.Reaches ⟨0⟩ ⟨3⟩ :=
    ((Relation.ReflTransGen.single (by decide : ⟨1⟩ ∈ (datedChain.node ⟨0⟩).children)).tail
      (by decide : ⟨2⟩ ∈ (datedChain.node ⟨1⟩).children)).tail
      (by decide : ⟨3⟩ ∈ (datedChain.node ⟨2⟩).children)
  obtain ⟨settles, -, -, -, reads⟩ := unmarked.markJsonNeeds_exact
  exact ⟨unmarked, settles, (reads ⟨0⟩).2.1.mpr (.inl ⟨⟨3⟩, hdate, .codec rfl rfl⟩)⟩

end Arena

end Typeforge
