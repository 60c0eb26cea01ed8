/-
# `Typeforge.Proofs.ArgumentChecks` — the two ways to validate arguments agree

A signature can test an argument list, and it can report what is wrong with it.  Both count
the arguments first, and refuse the same lists: those in which a required argument is
missing, and those with more arguments than there are parameters to take them.  Of the
other lists the test looks at one argument after the other, each with the function of its
own parameter, and stops at the first that fails; the report looks at all of them.

A list passes exactly when its report is empty, and whatever is reported stands at an
argument that its own parameter rejects.  Undefined stands for an argument left out where
its parameter is optional, and is then not looked at.  A parameter that takes all remaining
arguments is optional too, but none of its arguments is left out: an undefined one has to be
of its type (`Tagging.undefined_reported`).

`Signature.validations_agree` rests on the agreement of test and report for one type, and so
asks for faithful identities and for runs that end.
-/
import Typeforge.Proofs.Agreement
import Typeforge.Proofs.Arguments
import Typeforge.Proofs.Compiling.Parameters

namespace Typeforge

namespace Signature

variable {s : Signature} {r : Registry} {args : List Value} {i n : Nat} {v : Value} {p : Parameter}

/-! ## Numbers of arguments -/

/-- The last required parameter is the last whose argument may not be missing. -/
theorem minArgsOf_le_iff {params : List Parameter} :
    minArgsOf params ≤ n ↔ ∀ p ∈ params.drop n, p.optional = true ∨ p.rest = true := by
  induction params generalizing n with
  | nil => simp [minArgsOf]
  | cons p others ih =>
    cases n with
    | zero =>
      have hothers := ih (n := 0)
      rw [List.drop_zero] at hothers ⊢
      rw [List.forall_mem_cons, ← hothers, ← Bool.or_eq_true]
      cases hmin : minArgsOf others with
      | zero =>
        simp only [minArgsOf, hmin]
        cases p.optional || p.rest <;> simp
      | succ k => simp [minArgsOf, hmin]
    | succ n =>
      rw [List.drop_succ_cons, ← ih]
      cases hmin : minArgsOf others with
      | zero =>
        simp only [minArgsOf, hmin]
        cases p.optional || p.rest <;> simp
      | succ k =>
        simp only [minArgsOf, hmin]
        omega

/-- Whether so many arguments are right: none that is required is missing, and each has a parameter. -/
structure Counts (s : Signature) (n : Nat) : Prop where
  required : ∀ p ∈ s.params.drop n, p.optional = true ∨ p.rest = true
  placed : n ≤ s.params.length ∨ ∃ p, s.params.getLast? = some p ∧ p.rest = true

theorem maxArgs_of_rest (last : s.params.getLast? = some p) (rest : p.rest = true) :
    s.maxArgs = none := by
  rw [maxArgs, last]
  exact if_pos rest

theorem Counts.le_of_maxArgs {most : Nat} (h : s.Counts n) (hmost : s.maxArgs = some most) :
    n ≤ most := by
  rcases h.placed with hplaced | ⟨p, last, rest⟩
  · rw [maxArgs] at hmost
    split at hmost
    · split at hmost
      · cases hmost
      · exact hplaced.trans (Option.some.inj hmost).le
    · rename_i hnone
      rw [List.getLast?_eq_none_iff.mp hnone] at hplaced
      exact hplaced.trans (Nat.zero_le _)
  · cases (maxArgs_of_rest last rest).symm.trans hmost

theorem checkCount_eq_ok_iff : s.checkCount n = .ok () ↔ s.Counts n := by
  constructor
  · intro hcheck
    refine ⟨minArgsOf_le_iff.mp (Nat.not_lt.mp ?_), le_length_or_rest_of_checkCount hcheck⟩
    intro hfew
    have hfew : n < s.minArgs := hfew
    simp [checkCount, hfew] at hcheck
  · intro h
    have henough : ¬ n < s.minArgs := Nat.not_lt.mpr (minArgsOf_le_iff.mpr h.required)
    rw [checkCount]
    cases hmost : s.maxArgs with
    | none => simp [henough]
    | some most => simp [henough, Nat.not_lt.mpr (h.le_of_maxArgs hmost)]

theorem checkCount_of_not_counts (h : ¬ s.Counts n) :
    s.checkCount n = .error (.count s.minArgs s.maxArgs n) := by
  have houtcome : s.checkCount n = .error (.count s.minArgs s.maxArgs n) ∨
      s.checkCount n = .ok () := by
    rw [checkCount]
    exact ite_eq_or_eq ..
  exact houtcome.resolve_right (mt checkCount_eq_ok_iff.mp h)

/-! ## Arguments and their parameters -/

/-- Which parameter takes an argument: the one in its place, and behind all places a last one that
takes the rest. -/
inductive Takes (s : Signature) (i : Nat) (p : Parameter) : Prop where
  | placed (h : s.params[i]? = some p)
  | rest (behind : s.params.length ≤ i) (last : s.params.getLast? = some p) (rest : p.rest = true)

theorem takes_iff : s.Takes i p ↔ s.parameterAt i = some p := by
  rw [parameterAt]
  constructor
  · rintro (h | ⟨behind, last, rest⟩)
    · rw [h]
    · rw [List.getElem?_eq_none behind, last]
      simp [rest]
  · intro h
    cases hi : s.params[i]? with
    | some q =>
      rw [hi] at h
      obtain rfl := Option.some.inj h
      exact .placed hi
    | none =>
      rw [hi] at h
      obtain ⟨last, rest⟩ := Option.filter_eq_some_iff.mp h
      exact .rest (List.getElem?_eq_none_iff.mp hi) last rest

theorem Takes.mem (h : s.Takes i p) : p ∈ s.params := by
  cases h with
  | placed h => exact List.mem_of_getElem? h
  | rest _ last _ => exact List.mem_of_getLast? last

/-- The arguments that are not left out, with their places and parameters. -/
def boundArgs (s : Signature) (args : List Value) : List (Nat × Parameter × Value) :=
  args.zipIdx.filterMap fun (arg, i) => (s.bound i arg).map fun p => (i, p, arg)

theorem mem_boundArgs : (i, p, v) ∈ s.boundArgs args ↔ args[i]? = some v ∧ s.bound i v = some p := by
  rw [boundArgs, List.mem_filterMap]
  constructor
  · rintro ⟨⟨w, j⟩, hmem, heq⟩
    obtain ⟨q, hq, heq⟩ := Option.map_eq_some_iff.mp heq
    cases heq
    exact ⟨List.mem_zipIdx_iff_getElem?.mp hmem, hq⟩
  · rintro ⟨hv, hp⟩
    refine ⟨(v, i), List.mem_zipIdx_iff_getElem?.mpr hv, ?_⟩
    show (s.bound i v).map _ = _
    rw [hp]
    rfl

theorem paramsIsType_of_counts (h : s.Counts args.length) : s.paramsIsType r args =
    .ok ((s.boundArgs args).all fun (_, p, v) => p.functions.isType.isType r v) := by
  rw [paramsIsType, bind, checkCount_eq_ok_iff.mpr h]
  rfl

theorem paramsTypeErrors_of_counts (h : s.Counts args.length) : s.paramsTypeErrors r args =
    .ok ((s.boundArgs args).flatMap fun (i, p, v) =>
      p.functions.typeErrors.typeErrors r v [.index i]) := by
  rw [paramsTypeErrors, bind, checkCount_eq_ok_iff.mpr h]
  rfl

theorem paramsIsType_of_not_counts (h : ¬ s.Counts args.length) :
    s.paramsIsType r args = .error (.count s.minArgs s.maxArgs args.length) := by
  rw [paramsIsType, bind, checkCount_of_not_counts h]
  rfl

theorem paramsTypeErrors_of_not_counts (h : ¬ s.Counts args.length) :
    s.paramsTypeErrors r args = .error (.count s.minArgs s.maxArgs args.length) := by
  rw [paramsTypeErrors, bind, checkCount_of_not_counts h]
  rfl

/-! ## One argument -/

end Signature

/-- Whether the test of an argument comes to its end. -/
def Parameter.CheckEnds (p : Parameter) (r : Registry) (v : Value) : Prop :=
  (p.functions.isType.program r).isType p.functions.isType.key.identity v ≠ .error .cutOff

/-- Whether the report on an argument comes to its end. -/
def Parameter.ReportEnds (p : Parameter) (r : Registry) (v : Value) : Prop :=
  (p.functions.typeErrors.program r).typeErrors p.functions.typeErrors.key.identity v ≠ .error .cutOff

namespace Parameter

variable {e : Engine} {a : Arena} {r : Registry} {handles : List (NodeId × Handle)} {id : NodeId}
  {p : Parameter} {v : Value}

theorem BuiltFor.isType_iff (faithful : a.Faithful) (built : e.Builds a r handles)
    (hp : p.BuiltFor a handles id) (checkEnds : p.CheckEnds r v) (reportEnds : p.ReportEnds r v)
    (base : List PathItem) :
    p.functions.isType.isType r v = true ↔ p.functions.typeErrors.typeErrors r v base = [] := by
  obtain ⟨child, -, hfunctions⟩ := hp.functions
  obtain ⟨hcheck, checks⟩ := hfunctions .isType
  obtain ⟨hreport, reports⟩ := hfunctions .typeErrors
  exact Handle.isType_iff_typeErrors_eq_nil faithful built hcheck checks hreport reports checkEnds
    reportEnds base

/-- A test with a positive answer has come to its end. -/
theorem checkEnds_of_isType (h : p.functions.isType.isType r v = true) : p.CheckEnds r v := by
  intro hcut
  rw [Handle.isType, hcut] at h
  cases h

theorem BuiltFor.typeErrors_eq_nil (faithful : a.Faithful) (built : e.Builds a r handles)
    (hp : p.BuiltFor a handles id) (reportEnds : p.ReportEnds r v)
    (h : p.functions.isType.isType r v = true) (base : List PathItem) :
    p.functions.typeErrors.typeErrors r v base = [] :=
  (hp.isType_iff faithful built (checkEnds_of_isType h) reportEnds base).mp h

end Parameter

namespace Signature

variable {e : Engine} {a : Arena} {s : Signature} {r : Registry} {handles : List (NodeId × Handle)}
  {args : List Value} {skip : Nat}

/-! ## All arguments -/

/-- Whether the runs of both validations come to their ends: all the reports, and the tests up to
the first argument that fails. -/
structure ValidationEnds (s : Signature) (r : Registry) (args : List Value) : Prop where
  reports : ∀ i v p, args[i]? = some v → s.bound i v = some p → p.ReportEnds r v
  checks : ∀ i v p, args[i]? = some v → s.bound i v = some p →
    (∀ j < i, ∀ w q, args[j]? = some w → s.bound j w = some q →
      q.functions.isType.isType r w = true) → p.CheckEnds r v

theorem BuiltFor.exists_builtFor (h : s.BuiltFor a skip handles) {i : Nat} {v : Value} {p : Parameter}
    (hp : s.bound i v = some p) : ∃ id, p.BuiltFor a handles id := by
  have hmem := (takes_iff.mpr (bound_eq_some_iff.mp hp).1).mem
  obtain ⟨id, -, hbuilt⟩ := exists_of_forall₂_right h.params hmem
  exact ⟨id, hbuilt⟩

/-- **All arguments pass exactly when nothing is reported.** -/
theorem all_isType_iff (faithful : a.Faithful) (built : e.Builds a r handles)
    (h : s.BuiltFor a skip handles) (ends : s.ValidationEnds r args) :
    (s.boundArgs args).all (fun (_, p, v) => p.functions.isType.isType r v) = true ↔
      (s.boundArgs args).flatMap (fun (i, p, v) =>
        p.functions.typeErrors.typeErrors r v [.index i]) = [] := by
  rw [List.all_eq_true, List.flatMap_eq_nil_iff]
  constructor
  · rintro passes ⟨i, p, v⟩ hmem
    obtain ⟨hv, hp⟩ := mem_boundArgs.mp hmem
    obtain ⟨id, hbuilt⟩ := h.exists_builtFor hp
    exact hbuilt.typeErrors_eq_nil faithful built (ends.reports i v p hv hp) (passes _ hmem) _
  · intro silent
    -- an argument is only tested once those before it have passed
    have passes : ∀ i v p, args[i]? = some v → s.bound i v = some p →
        p.functions.isType.isType r v = true := by
      intro i
      induction i using Nat.strongRecOn with
      | ind i ih =>
        intro v p hv hp
        obtain ⟨id, hbuilt⟩ := h.exists_builtFor hp
        have checkEnds := ends.checks i v p hv hp fun j hj w q => ih j hj w q
        exact (hbuilt.isType_iff faithful built checkEnds (ends.reports i v p hv hp) _).mpr
          (silent _ (mem_boundArgs.mpr ⟨hv, hp⟩))
    rintro ⟨i, p, v⟩ hmem
    obtain ⟨hv, hp⟩ := mem_boundArgs.mp hmem
    exact passes i v p hv hp

/-- What is reported stands at an argument that is not left out and that its parameter rejects. -/
theorem exists_rejected (faithful : a.Faithful) (built : e.Builds a r handles)
    (h : s.BuiltFor a skip handles) (ends : s.ValidationEnds r args) {error : ValidationError}
    (herror : error ∈ (s.boundArgs args).flatMap fun (i, p, v) =>
      p.functions.typeErrors.typeErrors r v [.index i]) :
    ∃ i v p rest, error.path = .index i :: rest ∧ args[i]? = some v ∧ s.bound i v = some p ∧
      p.functions.isType.isType r v = false := by
  obtain ⟨⟨i, p, v⟩, hmem, herror⟩ := List.mem_flatMap.mp herror
  obtain ⟨hv, hp⟩ := mem_boundArgs.mp hmem
  obtain ⟨id, hbuilt⟩ := h.exists_builtFor hp
  have hpath : ∃ rest, error.path = .index i :: rest := by
    obtain ⟨inner, -, rfl⟩ := List.mem_map.mp herror
    exact ⟨inner.path, rfl⟩
  obtain ⟨rest, hpath⟩ := hpath
  refine ⟨i, v, p, rest, hpath, hv, hp, ?_⟩
  cases hcheck : p.functions.isType.isType r v with
  | false => rfl
  | true =>
    have hnil := hbuilt.typeErrors_eq_nil faithful built (ends.reports i v p hv hp) hcheck [.index i]
    exact absurd (show error ∈ [] from hnil ▸ herror) List.not_mem_nil

/-- An undefined argument is left out where its parameter is optional and takes no rest. -/
theorem bound_undefined {i : Nat} {p : Parameter} (takes : s.Takes i p) (optional : p.optional = true)
    (rest : p.rest = false) : s.bound i .undefined = none := by
  rw [bound, takes_iff.mp takes, Option.filter_some]
  exact if_neg (by simp [optional, rest, Value.isUndefined])

/-- **The two validations of arguments agree.** The signature is built with nothing else in the
registry, and the runs come to their ends. Where the number of arguments is not right, both fail
with it. Otherwise the list passes exactly when nothing is reported; whatever is reported stands at
an argument that its own parameter rejects; and nothing is reported at an undefined argument whose
parameter is optional, unless that takes the rest. -/
theorem validations_agree (faithful : a.Faithful)
    (built : (Signature.build e a skip).run.run .empty = (.ok s, r))
    (ends : s.ValidationEnds r args) :
    (¬ s.Counts args.length ∧
      s.paramsIsType r args = .error (.count s.minArgs s.maxArgs args.length) ∧
      s.paramsTypeErrors r args = .error (.count s.minArgs s.maxArgs args.length)) ∨
    (s.Counts args.length ∧ ∃ passed errors, s.paramsIsType r args = .ok passed ∧
      s.paramsTypeErrors r args = .ok errors ∧
      (passed = true ↔ errors = []) ∧
      (∀ error ∈ errors, ∃ i v p rest, error.path = .index i :: rest ∧ args[i]? = some v ∧
        s.Takes i p ∧ p.functions.isType.isType r v = false) ∧
      ∀ i p, args[i]? = some .undefined → s.Takes i p → p.optional = true → p.rest = false →
        ∀ error ∈ errors, error.path.head? ≠ some (.index i)) := by
  by_cases counts : s.Counts args.length
  · obtain ⟨handles, past, hs⟩ := exists_built .fresh built
    refine .inr ⟨counts, _, _, paramsIsType_of_counts counts, paramsTypeErrors_of_counts counts,
      all_isType_iff faithful past hs ends, ?_, ?_⟩
    · intro error herror
      obtain ⟨i, v, p, rest, hpath, hv, hp, rejected⟩ :=
        exists_rejected faithful past hs ends herror
      exact ⟨i, v, p, rest, hpath, hv, takes_iff.mpr (bound_eq_some_iff.mp hp).1, rejected⟩
    · intro i p hundefined takes optional rest error herror hhead
      obtain ⟨j, v, q, more, hpath, hv, hq, -⟩ := exists_rejected faithful past hs ends herror
      rw [hpath, List.head?_cons] at hhead
      cases hhead
      obtain rfl : Value.undefined = v := Option.some.inj (hundefined.symm.trans hv)
      rw [bound_undefined takes optional rest] at hq
      cases hq
  · exact .inl ⟨counts, paramsIsType_of_not_counts counts, paramsTypeErrors_of_not_counts counts⟩

/-- Whether all the functions of both validations come to their ends. -/
def validationEnds (s : Signature) (r : Registry) (args : List Value) : Bool :=
  (s.boundArgs args).all fun (_, p, v) =>
    ((p.functions.isType.program r).isType p.functions.isType.key.identity v).isOk &&
    ((p.functions.typeErrors.program r).typeErrors p.functions.typeErrors.key.identity v).isOk

theorem ends_of_validationEnds (h : s.validationEnds r args = true) : s.ValidationEnds r args := by
  have each (i v p) (hv : args[i]? = some v) (hp : s.bound i v = some p) :
      p.CheckEnds r v ∧ p.ReportEnds r v := by
    obtain ⟨hcheck, hreport⟩ :=
      Bool.and_eq_true_iff.mp (List.all_eq_true.mp h (i, p, v) (mem_boundArgs.mpr ⟨hv, hp⟩))
    exact ⟨Except.ne_error_of_isOk hcheck _, Except.ne_error_of_isOk hreport _⟩
  constructor
  · intro i v p hv hp
    exact (each i v p hv hp).2
  · intro i v p hv hp _
    exact (each i v p hv hp).1

end Signature

/-! ## Trees in a row

The first parameter is left out; then come an optional label, where to plant, and trees, which
have trees for branches.
-/

namespace Planting

def sample : Sample where
  graph := {
    nodes := #[⟨.function none [⟨1⟩, ⟨3⟩, ⟨5⟩, ⟨6⟩] ⟨11⟩, none⟩,
      ⟨.parameter "context" ⟨2⟩ false, none⟩, ⟨.any, none⟩, ⟨.parameter "label" ⟨4⟩ true, none⟩,
      ⟨.string, none⟩, ⟨.parameter "place" ⟨4⟩ false, none⟩, ⟨.parameter "trees" ⟨7⟩ false, none⟩,
      ⟨.rest ⟨8⟩, none⟩, ⟨.classType "Tree" [⟨9⟩], some "Tree"⟩,
      ⟨.property "branches" ⟨10⟩ false false, none⟩, ⟨.array ⟨8⟩, none⟩, ⟨.void, none⟩]
    roots := [("plant", ⟨0⟩)] }
  engine := { revivers := [("Tree", id)] }

def registry : Registry := (sample.signature 1).2

/-- A list without a label, with a tree of which a branch is bare, and with what is no tree. -/
def args : List Value :=
  let leaf : Value := .object [("branches", .array [])]
  [.undefined, .string "hill", .object [("branches", .array [leaf, .object []])], .undefined]

/-- What is computed here: the signature is built, and both of its validations come to their ends,
one with two errors. -/
theorem computed : sample.isFaithful = true ∧
    (sample.signature 1).1.toOption.any (fun s => s.validationEnds registry args &&
      (s.paramsTypeErrors registry args).toOption.any fun errors => errors.length == 2) = true := by
  decide +kernel

theorem two_rejected : ∃ s, sample.signature 1 = (.ok s, registry) ∧ ∃ errors,
    s.paramsIsType registry args = .ok false ∧ s.paramsTypeErrors registry args = .ok errors ∧
    errors.length = 2 ∧
    (∀ error ∈ errors, ∃ i v p rest, error.path = .index i :: rest ∧ args[i]? = some v ∧
      s.Takes i p ∧ p.functions.isType.isType registry v = false) ∧
    ∀ i p, args[i]? = some .undefined → s.Takes i p → p.optional = true → p.rest = false →
      ∀ error ∈ errors, error.path.head? ≠ some (.index i) := by
  obtain ⟨faithful, h⟩ := computed
  obtain ⟨s, hs, h⟩ := Sample.exists_signature h
  obtain ⟨ends, reported⟩ := Bool.and_eq_true_iff.mp h
  obtain ⟨errors, herrors, two⟩ := Except.exists_of_any reported
  refine ⟨s, hs, errors, ?_⟩
  rcases Signature.validations_agree (Sample.faithful faithful) hs
    (Signature.ends_of_validationEnds ends) with
    ⟨-, -, refused⟩ | ⟨-, passed, errors', hpassed, herrors', agree, rejected, leftOut⟩
  · cases herrors.symm.trans refused
  · obtain rfl : errors = errors' := Except.ok.inj (herrors.symm.trans herrors')
    have two : errors.length = 2 := eq_of_beq two
    have hfalse : passed = false := by
      rw [← Bool.not_eq_true, agree]
      rintro rfl
      cases two
    exact ⟨hfalse ▸ hpassed, herrors, two, rejected, leftOut⟩

end Planting

/-! ## No tags at all

A rest parameter that is marked optional: its argument is undefined, and is not left out.
-/

namespace Tagging

def sample : Sample where
  graph := {
    nodes := #[⟨.function none [⟨1⟩] ⟨4⟩, none⟩, ⟨.parameter "tags" ⟨2⟩ true, none⟩, ⟨.rest ⟨3⟩, none⟩,
      ⟨.string, none⟩, ⟨.void, none⟩]
    roots := [("tag", ⟨0⟩)] }

def registry : Registry := (sample.signature 0).2

theorem computed : sample.isFaithful = true ∧
    (sample.signature 0).1.toOption.any (fun s => s.validationEnds registry [.undefined] &&
      s.params.head?.any (·.optional) &&
      (s.paramsTypeErrors registry [.undefined]).toOption.any
        (· == [⟨[.index 0], "string"⟩])) = true := by
  decide +kernel

theorem undefined_reported : ∃ s p, sample.signature 0 = (.ok s, registry) ∧
    sample.arena.Faithful ∧
    s.ValidationEnds registry [.undefined] ∧ s.Takes 0 p ∧ p.optional = true ∧
    s.paramsTypeErrors registry [.undefined] = .ok [⟨[.index 0], "string"⟩] := by
  obtain ⟨faithful, h⟩ := computed
  obtain ⟨s, hs, h⟩ := Sample.exists_signature h
  obtain ⟨h, reported⟩ := Bool.and_eq_true_iff.mp h
  obtain ⟨ends, hoptional⟩ := Bool.and_eq_true_iff.mp h
  obtain ⟨p, hp, optional⟩ := Option.any_eq_true _ _ |>.mp hoptional
  obtain ⟨errors, herrors, herror⟩ := Except.exists_of_any reported
  rw [eq_of_beq herror] at herrors
  exact ⟨s, p, hs, Sample.faithful faithful, Signature.ends_of_validationEnds ends,
    .placed (by rwa [← List.head?_eq_getElem?]), optional, herrors⟩

end Tagging

end Typeforge
