/-
# `Typeforge.Proofs.Arguments` — arguments through a signature

A signature encodes and decodes an argument list position by position, each
argument with the functions of its own parameter.  Undefined stands for an
argument left out, and null for its document.  A tuple does the same with its
optional elements, unless their type has null; a signature does not look at the
type, and so an argument of an optional parameter whose own document is null
comes back as one left out.

This is all that can happen to an argument that its functions carry over: the
other ones come back equal (`Signature.paramsDecode_paramsEncode`).  What a function
carries over is asked of each argument by itself, so that nothing here depends on which
types have a round trip.  `Notes.null_left_out` has a null that comes back undefined.
-/
import Typeforge.Proofs.Compiling.Build
import Typeforge.Proofs.Samples

namespace Typeforge

/-- What the functions of a parameter encode an argument to is decoded to an equal value. -/
def Parameter.Carries (p : Parameter) (r : Registry) (v : Value) : Prop :=
  ∃ d w, p.functions.jsonEncode.encode r v = .ok d ∧ p.functions.jsonDecode.decode r d = .ok w ∧
    w.equals v = true

/-! ## One by one -/

/-- A run that succeeds at every position of a list succeeds on the list. -/
theorem mapM_zipIdx_eq_ok {ε α β : Type} {f : α × Nat → Except ε β} {xs : List α} {n : Nat}
    (h : ∀ i v, xs[i]? = some v → ∃ y, f (v, n + i) = .ok y) :
    ∃ ys, (xs.zipIdx n).mapM f = .ok ys ∧ ys.length = xs.length ∧
      ∀ i v, xs[i]? = some v → ∃ y, ys[i]? = some y ∧ f (v, n + i) = .ok y := by
  induction xs generalizing n with
  | nil => exact ⟨[], rfl, rfl, fun i v hv => absurd hv (by simp)⟩
  | cons x xs ih =>
    obtain ⟨y, hy⟩ := h 0 x rfl
    obtain ⟨ys, hrun, hlength, hys⟩ := ih (n := n + 1) fun i v hv => by
      rw [Nat.add_assoc, Nat.add_comm 1]
      exact h (i + 1) v hv
    refine ⟨y :: ys, ?_, congrArg (· + 1) hlength, fun i v hv => ?_⟩
    · rw [List.zipIdx_cons, List.mapM_cons, Except.bind_eq_ok]
      exact ⟨y, hy, Except.bind_eq_ok.mpr ⟨ys, hrun, rfl⟩⟩
    · cases i with
      | zero =>
        obtain rfl : x = v := Option.some.inj hv
        exact ⟨y, rfl, hy⟩
      | succ i =>
        obtain ⟨z, hz, hf⟩ := hys i v hv
        refine ⟨z, hz, ?_⟩
        rwa [Nat.add_comm i, ← Nat.add_assoc]

namespace Signature

variable {s : Signature} {r : Registry} {i : Nat} {v : Value} {p : Parameter}

/-! ## Places and parameters -/

theorem exists_rest_of_maxArgs (h : s.maxArgs = none) :
    ∃ p, s.params.getLast? = some p ∧ p.rest = true := by
  rw [maxArgs] at h
  split at h
  · rename_i p hlast
    split at h
    · rename_i hrest
      exact ⟨p, hlast, hrest⟩
    · cases h
  · cases h

theorem le_length_of_maxArgs {most : Nat} (h : s.maxArgs = some most) :
    most ≤ s.params.length := by
  rw [maxArgs] at h
  split at h
  · split at h
    · cases h
    · exact (Option.some.inj h).ge
  · exact (Option.some.inj h).ge.trans (Nat.zero_le _)

theorem le_length_or_rest_of_checkCount {n : Nat} (h : s.checkCount n = .ok ()) :
    n ≤ s.params.length ∨ ∃ p, s.params.getLast? = some p ∧ p.rest = true := by
  cases hmost : s.maxArgs with
  | none => exact .inr (exists_rest_of_maxArgs hmost)
  | some most =>
    refine .inl (Nat.le_trans (Nat.le_of_not_lt fun hlt => ?_) (le_length_of_maxArgs hmost))
    rw [checkCount, hmost] at h
    simp only [hlt, decide_true, Bool.or_true, if_true] at h
    cases h

/-- Where the number of arguments is right, every argument has a parameter. -/
theorem exists_parameterAt {n : Nat} (h : s.checkCount n = .ok ()) (hi : i < n) :
    ∃ p, s.parameterAt i = some p := by
  rw [parameterAt]
  cases hp : s.params[i]? with
  | some p => exact ⟨p, rfl⟩
  | none =>
    rcases le_length_or_rest_of_checkCount h with hn | ⟨p, hlast, hrest⟩
    · exact absurd hp (by rw [List.getElem?_eq_getElem (hi.trans_le hn)]; rintro ⟨⟩)
    · exact ⟨p, by rw [hlast, Option.filter_some, if_pos hrest]⟩

theorem bound_eq_some_iff : s.bound i v = some p ↔
    s.parameterAt i = some p ∧ (p.optional && !p.rest && v.isUndefined) = false := by
  rw [bound, Option.filter_eq_some_iff, Bool.not_eq_true']

/-- An argument that is left out is undefined, and its parameter is optional. -/
theorem leftOut_of_bound_eq_none (hp : s.parameterAt i = some p) (h : s.bound i v = none) :
    p.optional = true ∧ p.rest = false ∧ v = .undefined := by
  rw [bound, hp, Option.filter_some] at h
  split at h
  · cases h
  · rename_i hout
    rw [Bool.not_eq_true', Bool.not_eq_false, Bool.and_eq_true, Bool.and_eq_true,
      Bool.not_eq_true'] at hout
    obtain ⟨⟨optional, rest⟩, hv⟩ := hout
    cases v <;> first | exact ⟨optional, rest, rfl⟩ | cases hv

theorem decodeArgument_null (hp : s.parameterAt i = some p) (optional : p.optional = true)
    (rest : p.rest = false) : s.decodeArgument r i .null = .ok .undefined := by
  simp only [decodeArgument, hp, optional, rest, Bool.not_false, Bool.and_self, if_true]
  rfl

theorem decodeArgument_of_not {j : Json} (hp : s.parameterAt i = some p)
    (h : ¬ (p.optional = true ∧ p.rest = false ∧ j = .null)) :
    s.decodeArgument r i j = p.functions.jsonDecode.decode r j := by
  rw [decodeArgument, hp]
  cases j with
  | null =>
    refine if_neg fun hnull => h ?_
    rw [Bool.and_eq_true, Bool.not_eq_true'] at hnull
    exact ⟨hnull.1, hnull.2, rfl⟩
  | _ => rfl

/-! ## One argument -/

/-- An argument whose document is that of an argument left out. -/
def ReadsAsLeftOut (s : Signature) (r : Registry) (i : Nat) (v : Value) : Prop :=
  ∃ p, s.bound i v = some p ∧ p.optional = true ∧ p.rest = false ∧
    p.functions.jsonEncode.encode r v = .ok .null

/-- What comes back for an argument. -/
def ComesBack (s : Signature) (r : Registry) (i : Nat) (v w : Value) : Prop :=
  (¬ s.ReadsAsLeftOut r i v ∧ w.equals v = true) ∨ (s.ReadsAsLeftOut r i v ∧ w = .undefined)

theorem argument_comesBack (hp : s.parameterAt i = some p)
    (carries : ∀ p, s.bound i v = some p → p.Carries r v) :
    ∃ d w, s.encodeArgument r i v = .ok d ∧ s.decodeArgument r i d = .ok w ∧
      s.ComesBack r i v w := by
  cases hbound : s.bound i v with
  | none =>
    obtain ⟨optional, rest, rfl⟩ := leftOut_of_bound_eq_none hp hbound
    refine ⟨.null, .undefined, by rw [encodeArgument, hbound]; rfl,
      decodeArgument_null hp optional rest, .inl ⟨?_, rfl⟩⟩
    rintro ⟨q, hq, -⟩
    cases hbound.symm.trans hq
  | some q =>
    obtain ⟨hq, -⟩ := bound_eq_some_iff.mp hbound
    obtain ⟨d, w, encoded, decoded, equal⟩ := carries q hbound
    have hencode : s.encodeArgument r i v = .ok d := by rw [encodeArgument, hbound]; exact encoded
    by_cases hnull : q.optional = true ∧ q.rest = false ∧ d = .null
    · obtain ⟨optional, rest, rfl⟩ := hnull
      exact ⟨.null, .undefined, hencode, decodeArgument_null hq optional rest,
        .inr ⟨⟨q, hbound, optional, rest, encoded⟩, rfl⟩⟩
    · refine ⟨d, w, hencode, (decodeArgument_of_not hq hnull).trans decoded, .inl ⟨?_, equal⟩⟩
      rintro ⟨q', hq', optional, rest, encoded'⟩
      obtain rfl : q = q' := Option.some.inj (hbound.symm.trans hq')
      exact hnull ⟨optional, rest, Except.ok.inj (encoded.symm.trans encoded')⟩

/-! ## Argument lists -/

theorem checkCount_of_paramsIsType {args : List Value} {b : Bool}
    (h : s.paramsIsType r args = .ok b) : s.checkCount args.length = .ok () := by
  obtain ⟨_, hbind, -⟩ := Except.bind_eq_ok.mp h
  exact (Except.bind_eq_ok.mp hbind).choose_spec.1

/-- **Arguments come back from their documents**, each at its place: all those that their own
functions carry over, but for the ones given for an optional parameter and encoded to null. -/
theorem paramsDecode_paramsEncode {args : List Value} (typed : s.paramsIsType r args = .ok true)
    (carries : ∀ i v p, args[i]? = some v → s.bound i v = some p → p.Carries r v) :
    ∃ documents others, s.paramsEncode r args = .ok documents ∧
      s.paramsDecode r documents = .ok others ∧ others.length = args.length ∧
      ∀ i v, args[i]? = some v → ∃ w, others[i]? = some w ∧ s.ComesBack r i v w := by
  have counted := checkCount_of_paramsIsType typed
  have each (i v) (hv : args[i]? = some v) : ∃ d w, s.encodeArgument r i v = .ok d ∧
      s.decodeArgument r i d = .ok w ∧ s.ComesBack r i v w := by
    obtain ⟨p, hp⟩ := exists_parameterAt counted (List.getElem?_eq_some_iff.mp hv).choose
    exact argument_comesBack hp (carries i v · hv)
  have encodes (i v) (hv : args[i]? = some v) :
      ∃ d, liftRun (s.encodeArgument r (0 + i) v) = .ok d := by
    obtain ⟨d, _, hd, -⟩ := each i v hv
    exact ⟨d, by rw [Nat.zero_add, hd]; rfl⟩
  obtain ⟨documents, hencode, hlength, hdocument⟩ :=
    mapM_zipIdx_eq_ok (f := fun x => liftRun (s.encodeArgument r x.2 x.1)) encodes
  have found (i d) (hd : documents[i]? = some d) : ∃ v, args[i]? = some v ∧ ∃ w,
      s.decodeArgument r i d = .ok w ∧ s.ComesBack r i v w := by
    have hi := (List.getElem?_eq_some_iff.mp hd).choose
    have hv := List.getElem?_eq_getElem (hlength ▸ hi)
    obtain ⟨d', hd', hrun⟩ := hdocument i _ hv
    obtain ⟨d'', w, hd'', hw, back⟩ := each i _ hv
    obtain rfl : d = d' := Option.some.inj (hd.symm.trans hd')
    rw [Nat.zero_add, hd''] at hrun
    obtain rfl : d'' = d := Except.ok.inj hrun
    exact ⟨_, hv, w, hw, back⟩
  have decodes (i d) (hd : documents[i]? = some d) :
      ∃ w, liftRun (s.decodeArgument r (0 + i) d) = .ok w := by
    obtain ⟨_, -, w, hw, -⟩ := found i d hd
    exact ⟨w, by rw [Nat.zero_add, hw]; rfl⟩
  obtain ⟨others, hdecode, hlength', hother⟩ :=
    mapM_zipIdx_eq_ok (f := fun x => liftRun (s.decodeArgument r x.2 x.1)) decodes
  refine ⟨documents, others, Except.bind_eq_ok.mpr ⟨(), counted, hencode⟩,
    Except.bind_eq_ok.mpr ⟨(), hlength ▸ counted, hdecode⟩, hlength'.trans hlength, ?_⟩
  intro i v hv
  obtain ⟨d, hd, -⟩ := hdocument i v hv
  obtain ⟨v', hv', w, hw, back⟩ := found i d hd
  obtain rfl : v = v' := Option.some.inj (hv.symm.trans hv')
  obtain ⟨w', hw', hrun⟩ := hother i d hd
  rw [Nat.zero_add, hw] at hrun
  obtain rfl : w = w' := Except.ok.inj hrun
  exact ⟨w, hw', back⟩

end Signature

/-- Whether the functions of a parameter carry an argument over. -/
def Parameter.carries (p : Parameter) (r : Registry) (v : Value) : Bool :=
  (p.functions.jsonEncode.encode r v).toOption.any fun d =>
    (p.functions.jsonDecode.decode r d).toOption.any (·.equals v)

theorem Parameter.carries_of_carries {p : Parameter} {r : Registry} {v : Value}
    (h : p.carries r v = true) : p.Carries r v := by
  obtain ⟨d, encoded, h⟩ := Except.exists_of_any h
  obtain ⟨w, decoded, equal⟩ := Except.exists_of_any h
  exact ⟨d, w, encoded, decoded, equal⟩

/-! ## A note with tags

The first parameter is left out; then come an optional note, which may be null, an optional date,
and tags.
-/

namespace Notes

def sample : Sample where
  graph := {
    nodes := #[⟨.function none [⟨1⟩, ⟨3⟩, ⟨7⟩, ⟨9⟩] ⟨11⟩, none⟩,
      ⟨.parameter "context" ⟨2⟩ false, none⟩, ⟨.any, none⟩, ⟨.parameter "note" ⟨4⟩ true, none⟩,
      ⟨.union [⟨5⟩, ⟨6⟩], none⟩, ⟨.string, none⟩, ⟨.null, none⟩, ⟨.parameter "on" ⟨8⟩ true, none⟩,
      ⟨.classType "Date" [], none⟩, ⟨.parameter "tags" ⟨10⟩ false, none⟩, ⟨.rest ⟨5⟩, none⟩,
      ⟨.void, none⟩]
    roots := [("write", ⟨0⟩)] }

def registry : Registry := (sample.signature 1).2

def args : List Value := [.string "late", .undefined, .string "a", .string "b"]

/-- The arguments have the types of a signature's parameters, whose functions carry them over. -/
def passes (s : Signature) (args : List Value) : Bool :=
  (s.paramsIsType registry args).toOption == some true &&
  args.zipIdx.all fun x => (s.bound x.2 x.1).all fun p => p.carries registry x.1

theorem computed : (sample.signature 1).1.toOption.any (fun s => passes s args) = true := by
  decide +kernel

theorem of_passes {s : Signature} {args : List Value} (h : passes s args = true) :
    s.paramsIsType registry args = .ok true ∧
      ∀ i v p, args[i]? = some v → s.bound i v = some p → p.Carries registry v := by
  obtain ⟨typed, carried⟩ := Bool.and_eq_true_iff.mp h
  constructor
  · obtain ⟨b, hb, rfl⟩ := Except.exists_of_any (f := id) (x := s.paramsIsType registry args)
      (by rw [eq_of_beq typed]; rfl)
    exact hb
  · intro i v p hv hp
    have hall := List.all_eq_true.mp carried (v, i) (List.mem_zipIdx_iff_getElem?.mpr hv)
    rw [hp] at hall
    exact Parameter.carries_of_carries hall

theorem come_back : ∃ s, sample.signature 1 = (.ok s, registry) ∧ ∃ documents others,
    s.paramsEncode registry args = .ok documents ∧
    s.paramsDecode registry documents = .ok others ∧ others.length = args.length ∧
    ∀ i v, args[i]? = some v → ∃ w, others[i]? = some w ∧ s.ComesBack registry i v w := by
  obtain ⟨s, hs, passed⟩ := Sample.exists_signature computed
  obtain ⟨typed, carried⟩ := of_passes passed
  exact ⟨s, hs, Signature.paramsDecode_paramsEncode typed carried⟩

/-- A note that is null has the type of its parameter and is carried over by its functions, but
comes back as one left out. -/
theorem null_left_out : (sample.signature 1).1.toOption.any (fun s =>
    passes s [.null] &&
    (s.paramsEncode registry [.null]).toOption.any fun documents =>
      (s.paramsDecode registry documents).toOption.any fun others =>
        others.length == 1 && others.all fun w => w.isUndefined && !w.equals .null) = true := by
  decide +kernel

end Notes

end Typeforge
