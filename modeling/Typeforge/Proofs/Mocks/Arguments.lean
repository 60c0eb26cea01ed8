/-
# `Typeforge.Proofs.Mocks.Arguments` — argument lists that are drawn pass

Arguments are drawn parameter by parameter.  The first optional one that is left out ends the
list, whatever comes after it, and what is drawn for a parameter that takes the rest is put
into the list element by element.  A signature reads a list the other way round: it counts
the arguments, the last required parameter being the measure, and finds the parameter of each
by its place.

How a list goes with parameters is said once, by `Fills`, and both ways are compared with
that: `Mock.meets_drawArguments` for draws, `Signature.counts_of_fills` and
`Signature.fits_of_takes` for the reading.  They come to the same if parameters are `Ordered`,
with the required ones first and one that takes the rest last.  Otherwise they need not: a list
that ends at an optional parameter is too short for a required one behind it, and what was
drawn for a parameter behind one that takes the rest is taken for part of the rest.

`Signature.paramsIsType_of_mock` puts this together with what is known of single mocks, and
asks the same of the parameters' types: that they are `MockableAt` all the way down, with
identities that are faithful.  As there, no test rejects, and the list passes where the tests
come to an end.  A parameter may have a type whose test does not
(`Captions.never_passed`); where all is guarded below the parameters they all do.
-/
import Typeforge.Proofs.ArgumentChecks
import Typeforge.Proofs.Mocks.Conforming

namespace Typeforge

/-! ## Lists and parameters -/

/-- Parameters in the usual order. -/
structure Parameter.Ordered (params : List Parameter) : Prop where
  /-- No required parameter follows an optional one. -/
  required : params.Pairwise fun p q => p.optional = true → q.optional = true ∨ q.rest = true
  /-- None follows one that takes the rest. -/
  last : params.Pairwise fun p _ => p.rest = false

/-- How a list of arguments goes with parameters. -/
inductive Fills (Fits : Parameter → Value → Prop) : List Parameter → List Value → Prop
  | done : Fills Fits [] []
  /-- An optional parameter is left out, and so are all behind it. -/
  | leftOut {p others} (optional : p.optional = true) : Fills Fits (p :: others) []
  | given {p others v args} (fits : Fits p v) (more : Fills Fits others args) :
      Fills Fits (p :: others) (v :: args)
  /-- A parameter takes any number of arguments. -/
  | rest {p others items args} (rest : p.rest = true) (fits : ∀ v ∈ items, Fits p v)
      (more : Fills Fits others args) : Fills Fits (p :: others) (items ++ args)

namespace Parameter

/-- Whether parameters are in the usual order. -/
def areOrdered (params : List Parameter) : Bool :=
  decide (params.Pairwise fun p q => p.optional = true → q.optional = true ∨ q.rest = true) &&
    decide (params.Pairwise fun p _ => p.rest = false)

theorem ordered_of_areOrdered {params : List Parameter} (h : areOrdered params = true) :
    Ordered params := by
  obtain ⟨required, last⟩ := Bool.and_eq_true_iff.mp h
  exact ⟨of_decide_eq_true required, of_decide_eq_true last⟩

namespace Ordered

variable {p : Parameter} {others : List Parameter}

theorem tail (h : Ordered (p :: others)) : Ordered others :=
  ⟨h.required.of_cons, h.last.of_cons⟩

/-- What takes the rest stands alone at the end. -/
theorem eq_nil_of_rest (h : Ordered (p :: others)) (rest : p.rest = true) : others = [] := by
  refine List.eq_nil_iff_forall_not_mem.mpr fun q hq => ?_
  cases rest.symm.trans (List.rel_of_pairwise_cons h.last hq)

end Ordered

end Parameter

namespace Fills

variable {Fits : Parameter → Value → Prop} {params : List Parameter} {args : List Value} {i : Nat}
  {v : Value}

theorem eq_nil (h : Fills Fits [] args) : args = [] := by
  cases h
  rfl

/-- No parameter that is left without an argument asks for one. -/
theorem required (h : Fills Fits params args) (ordered : Parameter.Ordered params) :
    ∀ p ∈ params.drop args.length, p.optional = true ∨ p.rest = true := by
  induction h with
  | done => exact fun p hp => absurd hp List.not_mem_nil
  | leftOut optional =>
    refine List.forall_mem_cons.mpr ⟨.inl optional, fun q hq => ?_⟩
    exact List.rel_of_pairwise_cons ordered.required hq optional
  | given _ _ ih => exact ih ordered.tail
  | rest rest =>
    obtain rfl := ordered.eq_nil_of_rest rest
    intro q hq
    obtain rfl := List.mem_singleton.mp (List.mem_of_mem_drop hq)
    exact .inr rest

/-- There is a parameter for each argument. -/
theorem placed (h : Fills Fits params args) (ordered : Parameter.Ordered params) :
    args.length ≤ params.length ∨ ∃ p, params.getLast? = some p ∧ p.rest = true := by
  induction h with
  | done => exact .inl le_rfl
  | leftOut => exact .inl (Nat.zero_le _)
  | given _ _ ih =>
    refine (ih ordered.tail).imp Nat.succ_le_succ fun h => ?_
    obtain ⟨p, last, rest⟩ := h
    exact ⟨p, by rw [List.getLast?_cons, last, Option.getD_some], rest⟩
  | rest rest =>
    obtain rfl := ordered.eq_nil_of_rest rest
    exact .inr ⟨_, rfl, rest⟩

/-- Each argument fits the parameter in its place, or behind all places the one that takes the
rest. -/
theorem exists_fits (h : Fills Fits params args) (ordered : Parameter.Ordered params)
    (hv : args[i]? = some v) :
    ∃ p, Fits p v ∧ (params[i]? = some p ∨
      params.length ≤ i ∧ params.getLast? = some p ∧ p.rest = true) := by
  induction h generalizing i with
  | done | leftOut => cases hv
  | given fits _ ih =>
    cases i with
    | zero =>
      obtain rfl := Option.some.inj hv
      exact ⟨_, fits, .inl rfl⟩
    | succ i =>
      obtain ⟨p, hp, hplaced | ⟨behind, last, rest⟩⟩ := ih ordered.tail hv
      · exact ⟨p, hp, .inl hplaced⟩
      · refine ⟨p, hp, .inr ⟨Nat.succ_le_succ behind, ?_, rest⟩⟩
        rw [List.getLast?_cons, last, Option.getD_some]
  | rest rest fits more =>
    obtain rfl := ordered.eq_nil_of_rest rest
    obtain rfl := more.eq_nil
    rw [List.append_nil] at hv
    refine ⟨_, fits v (List.mem_of_getElem? hv), ?_⟩
    cases i with
    | zero => exact .inl rfl
    | succ i => exact .inr ⟨Nat.le_add_left 1 i, rfl, rest⟩

end Fills

namespace Signature

variable {Fits : Parameter → Value → Prop} {s : Signature} {args : List Value} {i : Nat} {v : Value}
  {p : Parameter}

theorem counts_of_fills (h : Fills Fits s.params args) (ordered : Parameter.Ordered s.params) :
    s.Counts args.length :=
  ⟨h.required ordered, h.placed ordered⟩

/-- An argument fits the parameter that takes it. -/
theorem fits_of_takes (h : Fills Fits s.params args) (ordered : Parameter.Ordered s.params)
    (hv : args[i]? = some v) (takes : s.Takes i p) : Fits p v := by
  obtain ⟨q, fits, hq⟩ := h.exists_fits ordered hv
  have hq : s.Takes i q := by
    rcases hq with placed | ⟨behind, last, rest⟩
    · exact .placed placed
    · exact .rest behind last rest
  obtain rfl : p = q := Option.some.inj ((takes_iff.mp takes).symm.trans (takes_iff.mp hq))
  exact fits

end Signature

/-! ## Instances -/

/-- Whether a value is an instance of the type that the functions of a parameter are built for. -/
def Parameter.Suits (p : Parameter) (a : Arena) (handles : List (NodeId × Handle)) (v : Value) :
    Prop :=
  ∃ child, p.functions.BuiltFor handles child ∧ Judges (a.unfolding child) v true

namespace Parameter.Suits

variable {e : Engine} {a : Arena} {r : Registry} {handles : List (NodeId × Handle)} {p : Parameter}
  {v : Value}

/-- The test of a parameter does not reject an instance, however many calls it may make. -/
theorem checkCall_ne_false (h : p.Suits a handles v) (faithful : a.Faithful)
    (built : e.Builds a r handles) (calls : Nat) :
    (p.functions.isType.program r).checkCall calls p.functions.isType.key.identity v ≠
      some false := by
  obtain ⟨child, functions, judges⟩ := h
  obtain ⟨hmem, htarget⟩ := functions .isType
  exact Handle.checkCall_ne_false faithful built hmem htarget judges calls

/-- The test of a parameter accepts an instance, if it comes to its end. -/
theorem isType (h : p.Suits a handles v) (faithful : a.Faithful) (built : e.Builds a r handles)
    (ends : p.CheckEnds r v) : p.functions.isType.isType r v = true := by
  obtain ⟨child, functions, judges⟩ := h
  obtain ⟨hmem, htarget⟩ := functions .isType
  exact (Handle.judges_isType faithful built hmem htarget ends).unique judges

end Parameter.Suits

/-! ## Draws -/

namespace Mock

variable {a : Arena} {handles : List (NodeId × Handle)} {id child : NodeId} {name : String}

/-- What is drawn for a parameter of one argument is an instance of its type. -/
theorem meets_draw_parameter (mockable : ∀ n, a.Reaches id n → a.MockableAt n)
    (hshape : (a.node id).shape = .parameter name child false) (o : MockOptions) (site : Site) :
    Meets (fun _ => True) (draw ⟨a, o⟩ site id) fun v => Judges (a.unfolding child) v true := by
  have hchild : a.propertyName? child = none :=
    (mockable id .refl).propertyName?_part hshape List.mem_cons_self (by rintro _ _ _ ⟨⟩)
  refine (meets_drawWithin mockable o _ site).mono fun v built => ?_
  cases built with
  | behind h drawn =>
    rw [hshape] at h
    cases h
    exact (Arena.conforms_iff hchild).mp drawn
  | array h =>
    rw [hshape] at h
    cases h
  | atom h | object h | tuple h | union h => cases hshape.symm.trans h

/-- What is drawn for a parameter that takes the rest is a list of instances of its type. -/
theorem meets_draw_rest (mockable : ∀ n, a.Reaches id n → a.MockableAt n)
    (hshape : (a.node id).shape = .parameter name child true) (o : MockOptions) (site : Site) :
    Meets (fun _ => True) (draw ⟨a, o⟩ site id) fun v =>
      ∃ items, v = .array items ∧ ∀ w ∈ items, Judges (a.unfolding child) w true := by
  have hchild : a.propertyName? child = none :=
    (mockable id .refl).propertyName?_part hshape List.mem_cons_self (by rintro _ _ _ ⟨⟩)
  refine (meets_drawWithin mockable o _ site).mono fun v built => ?_
  cases built with
  | array h all =>
    rw [hshape] at h
    cases h
    exact ⟨_, rfl, fun w hw => (Arena.conforms_iff hchild).mp (all w hw)⟩
  | behind h =>
    rw [hshape] at h
    cases h
  | atom h | object h | tuple h | union h => cases hshape.symm.trans h

/-- **The arguments that are drawn go with the parameters**, and are instances of their types. -/
theorem meets_drawArguments {ids : List NodeId} {params : List Parameter}
    (built : List.Forall₂ (fun id p => p.BuiltFor a handles id) ids params)
    (mockable : ∀ id ∈ ids, ∀ n, a.Reaches id n → a.MockableAt n) (o : MockOptions) (i : Nat) :
    Meets (fun _ => True) (drawArguments ⟨a, o⟩ i ids) (Fills (·.Suits a handles) params) := by
  induction built generalizing i with
  | nil => exact .pure .done
  | cons hp _ ih =>
    rename_i p _ _ _
    obtain ⟨hid, hids⟩ := List.forall_mem_cons.mp mockable
    obtain ⟨child, hshape, functions⟩ := hp.functions
    unfold drawArguments
    dsimp only
    rw [hshape]
    cases hrest : p.rest with
    | true =>
      rw [hrest] at hshape
      refine (meets_draw_rest hid hshape o _).bind fun drawn hdrawn =>
        (ih hids (i + 1)).bind fun args hargs => ?_
      obtain ⟨items, rfl, hitems⟩ := hdrawn
      exact .pure (.rest hrest (fun v hv => ⟨child, functions, hitems v hv⟩) hargs)
    | false =>
      rw [hrest] at hshape
      refine Context.meets_included fun included _ hleft => ?_
      split
      · refine (meets_draw_parameter hid hshape o _).bind fun v hv =>
          (ih hids (i + 1)).bind fun args hargs => .pure ?_
        exact .given ⟨child, functions, hv⟩ hargs
      · rename_i hout
        exact .pure (.leftOut (hp.optional.trans (hleft (Bool.eq_false_iff.mpr hout))))

end Mock

/-! ## Argument lists that are drawn -/

namespace Signature

variable {e : Engine} {a : Arena} {s : Signature} {r : Registry} {handles : List (NodeId × Handle)}
  {args : List Value} {skip : Nat}

theorem fills_of_mock (built : s.BuiltFor a skip handles)
    (mockable : ∀ id ∈ s.shape.params.drop skip, ∀ n, a.Reaches id n → a.MockableAt n)
    {g g' : Generator} (drawn : s.paramsMock.run.run g = (.ok args, g')) :
    Fills (·.Suits a handles) s.params args := by
  have hmeets := Mock.meets_drawArguments built.params mockable s.options s.skip g
  rw [paramsMock, built.arena, built.skip_eq] at drawn
  rw [built.skip_eq, drawn] at hmeets
  exact hmeets

/-- The tests of parameters come to their ends, if all that can be reached from the parameters is
guarded and their types stand for themselves. Neither the parameters that are left out matter, nor
the result: what is built for it is built later. -/
theorem checkEnds_of_bound (faithful : a.Faithful)
    (built : (Signature.build e a skip).run.run .empty = (.ok s, r))
    (guarded : ∀ id ∈ s.shape.params.drop skip, a.GuardedBelow id)
    (own : ∀ id ∈ s.shape.params.drop skip, ∀ child ∈ (a.node id).children,
      (a.node child).standsFor? = none)
    {i : Nat} {v : Value} {p : Parameter} (hp : s.bound i v = some p) : p.CheckEnds r v := by
  obtain ⟨r₁, handles, past, hs, first, result, hresult⟩ := exists_built_first .fresh built
  obtain ⟨id, hid, hbuilt⟩ := exists_of_forall₂_right hs.params (takes_iff.mpr
    (bound_eq_some_iff.mp hp).1).mem
  obtain ⟨child, hshape, functions⟩ := hbuilt.functions
  obtain ⟨hmem, htarget⟩ := functions .isType
  have hchild : child ∈ (a.node id).children := by
    rw [Node.children, hshape]
    exact List.mem_singleton_self child
  refine past.isType_ends faithful (fun x hx => ?_) (Engine.keeps_of_buildAll hresult) hmem htarget
    ((guarded id hid).mono (.single hchild)) v
  obtain ⟨id', hid', hx⟩ := List.mem_flatMap.mp ((first x hx).resolve_left List.not_mem_nil)
  exact own id' hid' x.1 hx

/-- **Argument lists that are drawn can be called with.** The signature is built with nothing else
in the registry, its parameters are in the usual order, and whatever can be reached from those that
are left in keeps to the rules for mocks. Then, for all options and from any state of the generator,
the number of arguments is right, and none of them is rejected by the test of its parameter, however
many calls that may make. The list passes wherever these tests come to their ends, as they always do
where all that can be reached from the parameters is guarded and their types stand for themselves,
as types do that are not out of place. -/
theorem paramsIsType_of_mock (faithful : a.Faithful)
    (built : (Signature.build e a skip).run.run .empty = (.ok s, r))
    (ordered : Parameter.Ordered s.params)
    (mockable : ∀ id ∈ s.shape.params.drop skip, ∀ n, a.Reaches id n → a.MockableAt n)
    {g g' : Generator} (drawn : s.paramsMock.run.run g = (.ok args, g')) :
    s.checkCount args.length = .ok () ∧
      (∀ i v p, args[i]? = some v → s.bound i v = some p → ∀ calls,
        (p.functions.isType.program r).checkCall calls p.functions.isType.key.identity v ≠
          some false) ∧
      ((∀ i v p, args[i]? = some v → s.bound i v = some p → p.CheckEnds r v) →
        s.paramsIsType r args = .ok true) ∧
      ((∀ id ∈ s.shape.params.drop skip, a.GuardedBelow id) →
        (∀ id ∈ s.shape.params.drop skip, ∀ child ∈ (a.node id).children,
          (a.node child).standsFor? = none) →
        s.paramsIsType r args = .ok true) := by
  obtain ⟨handles, past, hs⟩ := exists_built .fresh built
  have fills := fills_of_mock hs mockable drawn
  have counts := counts_of_fills fills ordered
  have suits (i v p) (hv : args[i]? = some v) (hp : s.bound i v = some p) : p.Suits a handles v :=
    fits_of_takes fills ordered hv (takes_iff.mpr (bound_eq_some_iff.mp hp).1)
  have accepted (ends : ∀ i v p, args[i]? = some v → s.bound i v = some p → p.CheckEnds r v) :
      s.paramsIsType r args = .ok true := by
    rw [paramsIsType_of_counts counts]
    refine congrArg _ (List.all_eq_true.mpr ?_)
    rintro ⟨i, p, v⟩ hmem
    obtain ⟨hv, hp⟩ := mem_boundArgs.mp hmem
    exact (suits i v p hv hp).isType faithful past (ends i v p hv hp)
  refine ⟨checkCount_eq_ok_iff.mpr counts, fun i v p hv hp => ?_, accepted,
    fun guarded own => accepted fun i v p _ hp => checkEnds_of_bound faithful built guarded own hp⟩
  exact (suits i v p hv hp).checkCall_ne_false faithful past

/-- A list does not pass with an argument that is not accepted. -/
theorem paramsIsType_ne_true {i : Nat} {v : Value} {p : Parameter} (hv : args[i]? = some v)
    (hp : s.bound i v = some p) (rejects : p.functions.isType.isType r v = false) :
    s.paramsIsType r args ≠ .ok true := by
  intro passes
  by_cases counts : s.Counts args.length
  · rw [paramsIsType_of_counts counts] at passes
    have accepts := List.all_eq_true.mp (Except.ok.inj passes) (i, p, v) (mem_boundArgs.mpr ⟨hv, hp⟩)
    exact Bool.false_ne_true (rejects.symm.trans accepts)
  · rw [paramsIsType_of_not_counts counts] at passes
    cases passes

end Signature

/-! ## Mail with parts

The first parameter is left out; then come an address, an optional subject, and parts, which have
parts themselves.
-/

namespace Mailing

def sample : Sample where
  graph := {
    nodes := #[⟨.function none [⟨1⟩, ⟨3⟩, ⟨5⟩, ⟨6⟩] ⟨11⟩, none⟩,
      ⟨.parameter "session" ⟨2⟩ false, none⟩, ⟨.any, none⟩, ⟨.parameter "to" ⟨4⟩ false, none⟩,
      ⟨.string, none⟩, ⟨.parameter "subject" ⟨4⟩ true, none⟩, ⟨.parameter "parts" ⟨7⟩ false, none⟩,
      ⟨.rest ⟨8⟩, none⟩, ⟨.objectLiteral [⟨9⟩], some "Part"⟩,
      ⟨.property "parts" ⟨10⟩ false false, none⟩, ⟨.array ⟨8⟩, none⟩, ⟨.void, none⟩]
    roots := [("send", ⟨0⟩)] }
  engine := { config := { mock := { maxDepth := 2 } } }

def registry : Registry := (sample.signature 1).2

/-- Numbers that fall from a node to what instances are passed on to. -/
def rank (id : NodeId) : Nat :=
  match (sample.arena.node id).shape with
  | .function _ => 2
  | .parameter _ _ _ | .property _ _ => 1
  | _ => 0

/-- What is computed here: the signature is built, and five arguments are drawn. -/
theorem computed : sample.isFaithful = true ∧ sample.arena.isMockable = true ∧
    sample.arena.isRankedBy rank = true ∧
    (sample.signature 1).1.toOption.any (fun s => Parameter.areOrdered s.params &&
      (s.shape.params.drop 1).all (fun id => (sample.arena.node id).children.all fun child =>
        (sample.arena.node child).standsFor?.isNone) &&
      (s.paramsMock.run.run ⟨7⟩).1.toOption.any fun args => args.length == 5) = true := by
  decide +kernel

theorem sent : ∃ s args, sample.signature 1 = (.ok s, registry) ∧
    (s.paramsMock.run.run ⟨7⟩).1 = .ok args ∧ args.length = 5 ∧
    s.paramsIsType registry args = .ok true := by
  obtain ⟨faithful, mockable, ranked, h⟩ := computed
  obtain ⟨s, hs, h⟩ := Sample.exists_signature h
  obtain ⟨h, drawn⟩ := Bool.and_eq_true_iff.mp h
  obtain ⟨ordered, own⟩ := Bool.and_eq_true_iff.mp h
  obtain ⟨args, hargs, five⟩ := Except.exists_of_any drawn
  refine ⟨s, args, hs, hargs, eq_of_beq five, ?_⟩
  have mockable := Arena.mockable_of_isMockable mockable
  obtain ⟨-, -, -, passes⟩ := Signature.paramsIsType_of_mock
    (Sample.faithful faithful) hs
    (Parameter.ordered_of_areOrdered ordered) (fun _ _ n _ => mockable.mockableAt n)
    (Prod.ext hargs rfl)
  refine passes (fun id _ => (Arena.guarded_of_isRankedBy ranked).below id)
    fun id hid child hchild => ?_
  exact Option.isNone_iff_eq_none.mp
    (List.all_eq_true.mp (List.all_eq_true.mp own id hid) child hchild)

end Mailing

/-! ## A caption

The only parameter is a union of itself and strings.  A caption is drawn, but the test of the
parameter calls itself before it asks for a string.
-/

namespace Captions

def sample : Sample where
  graph := {
    nodes := #[⟨.function none [⟨1⟩] ⟨4⟩, none⟩, ⟨.parameter "caption" ⟨2⟩ false, none⟩,
      ⟨.union [⟨2⟩, ⟨3⟩], some "Text"⟩, ⟨.string, none⟩, ⟨.void, none⟩]
    roots := [("draw", ⟨0⟩)] }

def registry : Registry := (sample.signature 0).2

theorem computed : sample.loads = true ∧ sample.isFaithful = true ∧
    sample.arena.isMockable = true ∧
    (sample.signature 0).1.toOption.any (fun s => Parameter.areOrdered s.params &&
      (s.paramsMock.run.run ⟨7⟩).1.toOption.any fun args =>
        (s.boundArgs args).any fun (_, p, _) => p.functions.isType.callsFirst registry) = true := by
  decide +kernel

/-- The signature meets all that is asked of those whose lists pass, and a list is drawn. It has an
argument on which the test of its parameter never answers. -/
theorem never_passed : sample.engine.load sample.graph sample.root = .ok sample.arena ∧
    sample.arena.Faithful ∧ sample.arena.Mockable ∧
    ∃ s args, sample.signature 0 = (.ok s, registry) ∧ Parameter.Ordered s.params ∧
      (s.paramsMock.run.run ⟨7⟩).1 = .ok args ∧
      (∃ i v p, args[i]? = some v ∧ s.bound i v = some p ∧ ∀ calls,
        (p.functions.isType.program registry).checkCall calls p.functions.isType.key.identity v =
          none) ∧
      s.paramsIsType registry args ≠ .ok true := by
  obtain ⟨loads, faithful, mockable, h⟩ := computed
  obtain ⟨s, hs, h⟩ := Sample.exists_signature h
  obtain ⟨ordered, h⟩ := Bool.and_eq_true_iff.mp h
  obtain ⟨args, hargs, h⟩ := Except.exists_of_any h
  obtain ⟨⟨i, p, v⟩, hbound, first⟩ := List.any_eq_true.mp h
  obtain ⟨hv, hp⟩ := Signature.mem_boundArgs.mp hbound
  refine ⟨Sample.loaded loads, Sample.faithful faithful, Arena.mockable_of_isMockable mockable,
    s, args, hs, Parameter.ordered_of_areOrdered ordered, hargs,
    ⟨i, v, p, hv, hp, fun calls => Handle.checkCall_of_callsFirst first calls v⟩,
    Signature.paramsIsType_ne_true hv hp (Handle.isType_of_callsFirst first v)⟩

end Captions

end Typeforge
