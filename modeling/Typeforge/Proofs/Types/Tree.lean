/-
# `Typeforge.Proofs.Types.Tree` — types unfolded, and what they say of values

A lowered type is a graph: shared types have several references to them, and
recursive types refer back to themselves.  None of this matters to what the
type says.  Unfolded along all its references a type is a tree, infinite when
the type is recursive, and a tree is given here as the function from places to
labels.

What a tree says of a value comes in two forms.  `Judges` is the bare answer,
yes or no; `Faults` is the list of places where the value fails.  Both are
inductive, so that a value has an answer only if finitely many places decide
it: a union that contains itself as a member may well have no answer.
-/
import Typeforge.Arena.Basic
import Typeforge.Proofs.Numbers.Content
import Typeforge.Run.Reports

namespace Typeforge

/-! ## Atoms -/

namespace Literal

/-- A literal up to what no value can tell apart: the two zeros are one literal. -/
def canonical : Literal → Literal
  | number x => number (if x == 0 then 0 else x)
  | l => l

theorem accepts_canonical (l : Literal) (v : Value) : l.canonical.accepts v = l.accepts v := by
  cases l with
  | number x =>
    rw [canonical]
    split
    · rename_i h
      cases v with
      | number y => exact (beq_of_beq_zero h y).symm
      | _ => rfl
    · rfl
  | _ => rfl

theorem text_canonical (l : Literal) : l.canonical.text = l.text := by
  cases l with
  | number x =>
    rw [canonical]
    split
    · rename_i h
      exact (scriptText_of_beq_zero h).symm
    · rfl
  | _ => rfl

end Literal

namespace Atom

/-- An atom up to what no value can tell apart; the names of an enum's members are dropped. -/
def canonical : Atom → Atom
  | literal l => literal l.canonical
  | enumeration members => enumeration (members.map fun m => ("", m.2.canonical))
  | a => a

/-- Whether a value is an instance of an atom. -/
def holds : Atom → Value → Bool
  | never, _ => false
  | any, _ | unknown, _ => true
  | void, v | undefined, v => v.isUndefined
  | object, v => Kind.nonPrimitive.holds v
  | string, v => Kind.string.holds v
  | number, v => v.isFiniteNumber
  | boolean, v => Kind.boolean.holds v
  | symbol, v => Kind.symbol.holds v
  | bigint, v => Kind.bigint.holds v
  | null, v => v.isNull
  | regexp, v => Kind.regexp.holds v
  | date, v => Kind.date.holds v
  | literal l, v => l.accepts v
  | enumeration members, v => members.any fun m => m.2.accepts v

theorem holds_canonical (a : Atom) (v : Value) : a.canonical.holds v = a.holds v := by
  cases a with
  | literal l => exact l.accepts_canonical v
  | enumeration members =>
    simp only [canonical, holds, List.any_map]
    congr 1
    funext m
    exact m.2.accepts_canonical v
  | _ => rfl

theorem expected_canonical (a : Atom) : a.canonical.expected = a.expected := by
  cases a with
  | literal l => exact l.text_canonical
  | _ => rfl

end Atom

/-! ## Trees -/

/-- A fixed position of a tuple. -/
structure Slot where
  optional : Bool
  /-- Whether a null here can only stand for an element left out. -/
  absent : Bool
deriving Repr, DecidableEq

/-- What stands at a place of an unfolded type. -/
inductive Label where
  | atom (a : Atom)
  | array
  /-- A property of the object around it. -/
  | property (name : String) (optional : Bool)
  | promise
  /-- The names of the properties, none for a part that is not a property; the keys of the index
  signature, whose part comes last; and the class. -/
  | object (props : List (Option String)) (index : Option KeyFilter) (className : Option String)
  /-- The fixed positions, and whether more elements may follow, for which the last part stands. -/
  | tuple (slots : List Slot) (rest : Bool)
  | union (members : Nat)
  | function

/-- An unfolded type: the label at each place, a place given by the numbers of the parts on the
way to it. A type whose references lead nowhere has no label. -/
abbrev TypeTree := List Nat → Option Label

namespace TypeTree

def label (t : TypeTree) : Option Label := t []

/-- The part of a tree with a number. -/
def part (t : TypeTree) (i : Nat) : TypeTree := fun place => t (i :: place)

@[ext] theorem ext {t u : TypeTree} (h : ∀ place, t place = u place) : t = u := funext h

end TypeTree

/-! ## What a tree asks of a value -/

/-- A part of a type that a part of a value must be an instance of. -/
structure Demand where
  /-- The step from the value to its part; none for the value itself. -/
  step : List PathItem
  tree : TypeTree
  value : Value

/-- What a tree asks of a value. -/
inductive Facet where
  /-- Nothing that can be tested. -/
  | silent
  /-- The value is of the wrong kind already; what was expected of it. -/
  | misfit (expected : String)
  /-- All of the demands. -/
  | all (demands : List Demand)
  /-- One of the types, and what it is called if it is none of them. -/
  | oneOf (members : List TypeTree)

/-- All of the demands of a value of the right kind. -/
def Facet.guarded (fits : Bool) (expected : String) (demands : List Demand) : Facet :=
  if fits then .all demands else .misfit expected

namespace TypeTree

/-- The demand of a part on a part of a value, for each of these. -/
def each (t : TypeTree) (parts : List (PathItem × Value)) : List Demand :=
  parts.map fun (step, v) => ⟨[step], t, v⟩

/-- The demand of a part on a part of a value, which may be left out if it is optional. -/
def reached (t : TypeTree) (step : PathItem) (optional : Bool) (v : Value) : List Demand :=
  if optional && v.isUndefined then [] else [⟨[step], t, v⟩]

/-- The names of the properties of an object. -/
def propertyNames (props : List (Option String)) : List String := props.filterMap id

/-- Whether a tree is an optional property. -/
def isOptional (t : TypeTree) : Bool :=
  match t.label with
  | some (.property _ optional) => optional
  | _ => false

/-- A property of an object, by its name. -/
structure Property where
  name : String
  optional : Bool
  tree : TypeTree

/-- The properties among the parts of an object. -/
def properties (t : TypeTree) (props : List (Option String)) : List Property :=
  props.zipIdx.filterMap fun (name, i) =>
    name.map fun name => ⟨name, (t.part i).isOptional, t.part i⟩

/-- A fixed position of a tuple, by its number. -/
structure Position where
  slot : Slot
  index : Nat
  tree : TypeTree

/-- The fixed positions of a tuple. -/
def positions (t : TypeTree) (slots : List Slot) : List Position :=
  slots.zipIdx.map fun (slot, i) => ⟨slot, i, t.part i⟩

/-- The demands of an object's properties on the object. -/
def declaredDemands (t : TypeTree) (props : List (Option String)) (v : Value) : List Demand :=
  (t.properties props).map fun p => ⟨[], p.tree, v⟩

/-- The demands of an object's index signature. -/
def indexDemands (t : TypeTree) (props : List (Option String)) (index : Option KeyFilter)
    (v : Value) : List Demand :=
  match index with
  | some filter =>
    (t.part props.length).each (v.stepsCovered (filter.covers (propertyNames props)))
  | none => []

/-- The demands of a tuple's fixed positions. -/
def slotDemands (t : TypeTree) (slots : List Slot) (v : Value) : List Demand :=
  (t.positions slots).flatMap fun p =>
    p.tree.reached (.index p.index) p.slot.optional (v.element p.index)

/-- The demands of a tuple's remaining elements. -/
def restDemands (t : TypeTree) (slots : List Slot) (rest : Bool) (v : Value) : List Demand :=
  if rest then (t.part slots.length).each (v.stepsFrom slots.length) else []

/-- Whether a value is an array that is no longer than a tuple allows. -/
def tupleFits (slots : List Slot) (rest : Bool) (v : Value) : Bool :=
  Kind.array.holds v && (rest || v.fits slots.length)

/-- What a tree asks of a value. -/
def facet (t : TypeTree) (v : Value) : Facet :=
  match t.label with
  | none | some .promise | some .function => .silent
  | some (.atom a) => .guarded (a.holds v) a.expected []
  | some .array => .guarded (Kind.array.holds v) "array" ((t.part 0).each (v.stepsFrom 0))
  | some (.property name optional) =>
    .all ((t.part 0).reached (.key name) optional (v.member name))
  | some (.object props index className) =>
    .guarded (Kind.object.holds v) (className.getD "object")
      (t.declaredDemands props v ++ t.indexDemands props index v)
  | some (.tuple slots rest) =>
    .guarded (tupleFits slots rest v) "tuple" (t.slotDemands slots v ++ t.restDemands slots rest v)
  | some (.union members) => .oneOf ((List.range members).map t.part)

end TypeTree

/-! ## Judgements -/

/-- Whether a value is an instance of a type. A part that fails decides against the whole, and a
member that holds decides for a union, whatever the others have to say. -/
inductive Judges : TypeTree → Value → Bool → Prop where
  | misfit {t v expected} (h : t.facet v = .misfit expected) : Judges t v false
  | holds {t v demands} (h : t.facet v = .all demands)
      (all : ∀ d ∈ demands, Judges d.tree d.value true) : Judges t v true
  | fails {t v demands d} (h : t.facet v = .all demands) (mem : d ∈ demands)
      (fails : Judges d.tree d.value false) : Judges t v false
  | member {t v members u} (h : t.facet v = .oneOf members) (mem : u ∈ members)
      (holds : Judges u v true) : Judges t v true
  | noMember {t v members} (h : t.facet v = .oneOf members)
      (all : ∀ u ∈ members, Judges u v false) : Judges t v false

theorem Judges.not_both {t : TypeTree} {v : Value} (yes : Judges t v true) :
    ¬ Judges t v false := by
  generalize hb : true = b at yes
  induction yes with
  | misfit | fails | noMember => cases hb
  | holds h all ih =>
    rintro (h' | h' | ⟨h', mem, fails⟩ | h' | h')
    · rw [h] at h'; cases h'
    · rw [h] at h'; cases h'
      exact ih _ mem rfl fails
    · rw [h] at h'; cases h'
  | member h mem holds ih =>
    rintro (h' | h' | h' | h' | ⟨h', all⟩)
    · rw [h] at h'; cases h'
    · rw [h] at h'; cases h'
    · rw [h] at h'; cases h'
      exact ih rfl (all _ mem)

/-- A value has one answer at most. -/
theorem Judges.unique {t : TypeTree} {v : Value} {b c : Bool} (hb : Judges t v b)
    (hc : Judges t v c) : b = c := by
  cases b <;> cases c
  · rfl
  · exact absurd hb hc.not_both
  · exact absurd hc hb.not_both
  · rfl

/-! ## Faults -/

/-- An error as it is seen from a whole, a step above. -/
def ValidationError.below (step : List PathItem) (e : ValidationError) : ValidationError :=
  { e with path := step ++ e.path }

theorem ValidationError.map_below_nil (errors : List ValidationError) :
    errors.map (below []) = errors := List.map_id errors

mutual

/-- Where a value fails a type, and what was expected there, in the order of the parts. A union
fails as a whole. -/
inductive Faults : TypeTree → Value → List ValidationError → Prop where
  | misfit {t v expected} (h : t.facet v = .misfit expected) : Faults t v [⟨[], expected⟩]
  | parts {t v demands errors} (h : t.facet v = .all demands)
      (all : FaultsAll demands errors) : Faults t v errors
  | member {t v members} (h : t.facet v = .oneOf members) (holds : Judges t v true) :
      Faults t v []
  | noMember {t v members} (h : t.facet v = .oneOf members) (fails : Judges t v false) :
      Faults t v [⟨[], "union"⟩]

/-- The faults of all demands, one after the other. -/
inductive FaultsAll : List Demand → List ValidationError → Prop where
  | nil : FaultsAll [] []
  | cons {d rest errors others} (first : Faults d.tree d.value errors)
      (more : FaultsAll rest others) :
      FaultsAll (d :: rest) (errors.map (.below d.step) ++ others)

end

mutual

/-- A value without faults is an instance, and one with faults is none. -/
theorem Faults.judges {t : TypeTree} {v : Value} {errors : List ValidationError} :
    Faults t v errors → Judges t v errors.isEmpty
  | .misfit h => .misfit h
  | .member _ holds => holds
  | .noMember _ fails => fails
  | .parts h all => by
    obtain ⟨none, some⟩ := all.judges
    by_cases he : errors = []
    · rw [he]
      exact .holds h (none he)
    · obtain ⟨d, mem, fails⟩ := some he
      rw [List.isEmpty_eq_false_iff.mpr he]
      exact .fails h mem fails

theorem FaultsAll.judges {demands : List Demand} {errors : List ValidationError} :
    FaultsAll demands errors →
      (errors = [] → ∀ d ∈ demands, Judges d.tree d.value true) ∧
      (errors ≠ [] → ∃ d ∈ demands, Judges d.tree d.value false)
  | .nil => ⟨fun _ _ mem => absurd mem List.not_mem_nil, fun h => absurd rfl h⟩
  | @FaultsAll.cons d _ first others hfirst hmore => by
    have hd := hfirst.judges
    obtain ⟨none, some⟩ := hmore.judges
    refine ⟨fun h => ?_, fun h => ?_⟩
    · obtain ⟨h₁, h₂⟩ := List.append_eq_nil_iff.mp h
      rw [List.map_eq_nil_iff.mp h₁] at hd
      exact List.forall_mem_cons.mpr ⟨hd, none h₂⟩
    · by_cases he : first = []
      · obtain ⟨d', mem, fails⟩ := some fun h₂ => h (by rw [he, h₂]; rfl)
        exact ⟨d', List.mem_cons_of_mem _ mem, fails⟩
      · rw [List.isEmpty_eq_false_iff.mpr he] at hd
        exact ⟨d, List.mem_cons_self, hd⟩

end

/-- Demands without faults have none together. -/
theorem FaultsAll.of_forall {demands : List Demand}
    (h : ∀ d ∈ demands, Faults d.tree d.value []) : FaultsAll demands [] := by
  induction demands with
  | nil => exact .nil
  | cons d ds ih =>
    exact .cons (h d List.mem_cons_self) (ih fun d hd => h d (List.mem_cons_of_mem _ hd))

/-- The faults of two lists of demands. -/
theorem FaultsAll.append {ds es : List Demand} {errors others : List ValidationError} :
    FaultsAll ds errors → FaultsAll es others → FaultsAll (ds ++ es) (errors ++ others)
  | .nil, h => h
  | .cons first more, h => by
    rw [List.append_assoc]
    exact .cons first (more.append h)

end Typeforge
