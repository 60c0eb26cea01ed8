/-
# `Typeforge.Proofs.Types.Validator` — validating by recursion over an arena

The plain way to validate a value: look at the node, look at the value, and go
on with the node's children and the value's parts.  There is no code here, no
function to call and no loop to number; paths are written down on the way.

An atom or a union gives one error where the value is none of its instances.
Any other node has a shape to test first, and a value of the wrong shape is one
error, whatever its parts are.  Where the shape is right the errors are those of
the parts in order: properties as declared, then the remaining keys as the value
has them; elements by their index, fixed positions first.

An arena may be recursive without a value getting any smaller (a union may be a
member of itself), so that the recursion is over a bound.  What counts is what
the validator arrives at once the bound is large enough.
-/
import Typeforge.Proofs.Types.Needs

namespace Typeforge

/-! ## Answers that may be missing -/

/-- Whether a yes has been found for all: a single no decides, and a missing answer leaves open
what no other answer decides. -/
def everyAnswer {α : Type} (f : α → Option Bool) : List α → Option Bool
  | [] => some true
  | x :: xs =>
    match f x, everyAnswer f xs with
    | some false, _ => some false
    | _, some false => some false
    | some true, some true => some true
    | _, _ => none

/-- Whether a yes has been found for one. -/
def someAnswer {α : Type} (f : α → Option Bool) (xs : List α) : Option Bool :=
  (everyAnswer (fun x => (f x).map (!·)) xs).map (!·)

section Answers

variable {α : Type} {f : α → Option Bool} {xs : List α}

theorem everyAnswer_eq_true (h : ∀ x ∈ xs, f x = some true) : everyAnswer f xs = some true := by
  induction xs with
  | nil => rfl
  | cons x xs ih =>
    have hx := h x List.mem_cons_self
    have hxs := ih fun y hy => h y (List.mem_cons_of_mem x hy)
    simp only [everyAnswer, hx, hxs]

theorem everyAnswer_eq_false {x : α} (hx : x ∈ xs) (h : f x = some false) :
    everyAnswer f xs = some false := by
  induction xs with
  | nil => exact absurd hx List.not_mem_nil
  | cons y ys ih =>
    rcases List.mem_cons.mp hx with rfl | hx
    · simp only [everyAnswer, h]
    · simp only [everyAnswer, ih hx]
      rcases f y with _ | _ | _ <;> rfl

theorem someAnswer_eq_true {x : α} (hx : x ∈ xs) (h : f x = some true) :
    someAnswer f xs = some true := by
  have hnot : everyAnswer (fun x => (f x).map (!·)) xs = some false := by
    refine everyAnswer_eq_false hx ?_
    rw [h]
    rfl
  rw [someAnswer, hnot]
  rfl

theorem someAnswer_eq_false (h : ∀ x ∈ xs, f x = some false) : someAnswer f xs = some false := by
  have hnot : everyAnswer (fun x => (f x).map (!·)) xs = some true := by
    refine everyAnswer_eq_true fun x hx => ?_
    rw [h x hx]
    rfl
  rw [someAnswer, hnot]
  rfl

end Answers

/-- What a bounded search comes to: from some bound on, it has this answer. -/
def Arrives {α : Type} (search : Nat → Option α) (answer : α) : Prop :=
  ∃ n, ∀ m, n ≤ m → search m = some answer

namespace Arrives

variable {α β : Type} {search : Nat → Option α} {answer : α}

/-- One more step of the bound is needed for each level. -/
theorem step (h : Arrives (fun n => search (n + 1)) answer) : Arrives search answer := by
  obtain ⟨n, hn⟩ := h
  refine ⟨n + 1, fun m hm => ?_⟩
  obtain ⟨k, rfl⟩ : ∃ k, m = k + 1 := ⟨m - 1, by omega⟩
  exact hn k (by omega)

theorem const (answer : α) : Arrives (fun _ => some answer) answer := ⟨0, fun _ _ => rfl⟩

theorem imp {search' : Nat → Option β} {answer' : β} (h : Arrives search answer)
    (himp : ∀ n, search n = some answer → search' n = some answer') : Arrives search' answer' := by
  obtain ⟨n, hn⟩ := h
  exact ⟨n, fun m hm => himp m (hn m hm)⟩

/-- Finitely many searches all have their answers from some bound on. -/
theorem forall_mem {γ : Type} {xs : List γ} (search : γ → Nat → Option α) {answer : γ → α}
    (h : ∀ x ∈ xs, Arrives (search x) (answer x)) :
    ∃ n, ∀ m, n ≤ m → ∀ x ∈ xs, search x m = some (answer x) := by
  induction xs with
  | nil => exact ⟨0, fun _ _ _ hx => absurd hx List.not_mem_nil⟩
  | cons y ys ih =>
    obtain ⟨n, hn⟩ := h y List.mem_cons_self
    obtain ⟨k, hk⟩ := ih fun x hx => h x (List.mem_cons_of_mem y hx)
    refine ⟨max n k, fun m hm => List.forall_mem_cons.mpr ⟨?_, ?_⟩⟩
    · exact hn m (le_trans (le_max_left n k) hm)
    · exact hk m (le_trans (le_max_right n k) hm)

/-- A search has one answer at most. -/
theorem unique {answer' : α} (h : Arrives search answer) (h' : Arrives search answer') :
    answer = answer' := by
  obtain ⟨n, hn⟩ := h
  obtain ⟨k, hk⟩ := h'
  have := hn (max n k) (le_max_left n k)
  rw [hk (max n k) (le_max_right n k)] at this
  exact (Option.some.inj this).symm

end Arrives

/-! ## The validator -/

namespace Arena

/-- A part of a value that must be an instance of a node's type. -/
structure Part where
  /-- The step from the value to its part; none for the value itself. -/
  step : List PathItem
  node : NodeId
  value : Value

/-- What a node asks of a value. -/
inductive Ask where
  /-- Nothing that can be tested. -/
  | nothing
  /-- The value has the wrong shape; what was expected. -/
  | misfit (expected : String)
  | parts (parts : List Part)
  | oneOf (members : List NodeId)

/-- A part of a value that may be left out if it is optional. -/
def reached (child : NodeId) (step : PathItem) (optional : Bool) (v : Value) : List Part :=
  if optional && v.isUndefined then [] else [⟨[step], child, v⟩]

/-- Each of some parts of a value. -/
def each (child : NodeId) (parts : List (PathItem × Value)) : List Part :=
  parts.map fun (step, v) => ⟨[step], child, v⟩

/-- The parts of an object: itself for each property, and the values of the remaining keys that the
index signature accepts. -/
def objectParts (a : Arena) (props : List NodeId) (index : Option NodeId) (v : Value) :
    List Part :=
  (a.properties props).map (fun p => ⟨[], p.id, v⟩) ++
    match a.indexFilter index with
    | some (id, filter) =>
      each id (v.stepsCovered (filter.covers (Compile.declaredNames (a.properties props))))
    | none => []

/-- The parts of an array as a tuple has them: its fixed positions, and the elements after these. -/
def tupleParts (a : Arena) (members : List NodeId) (v : Value) : List Part :=
  let (fixed, rest) := a.splitTuple members
  (fixed.zipIdx.flatMap fun (id, i) =>
      reached id (.index i) (a.node id).optional (v.element i)) ++
    match rest with
    | some id => each id (v.stepsFrom fixed.length)
    | none => []

/-- Whether a value is an array that is no longer than a tuple allows. -/
def tupleAccepts (a : Arena) (members : List NodeId) (v : Value) : Bool :=
  let (fixed, rest) := a.splitTuple members
  Kind.array.holds v && (rest.isSome || v.fits fixed.length)

/-- What a node asks of a value. -/
def ask (a : Arena) (id : NodeId) (v : Value) : Ask :=
  match (a.node id).shape with
  | .atom x => if x.holds v then .parts [] else .misfit x.expected
  | .array item =>
    if Kind.array.holds v then .parts (each item (v.stepsFrom 0)) else .misfit "array"
  | .property name child =>
    .parts (reached child (.key name) (a.node id).optional (v.member name))
  | .object props index className =>
    if Kind.object.holds v then .parts (a.objectParts props index v)
    else .misfit (className.getD "object")
  | .tuple members =>
    if a.tupleAccepts members v then .parts (a.tupleParts members v) else .misfit "tuple"
  | .union members => .oneOf members
  | .tupleMember child | .rest child | .indexSignature _ child | .parameter _ child _ =>
    .parts [⟨[], child, v⟩]
  | .promise _ | .function _ => .nothing

/-- Whether a value is an instance of a node's type, as far as a bound allows to say. -/
def accepts (a : Arena) : Nat → NodeId → Value → Option Bool
  | 0, _, _ => none
  | n + 1, id, v =>
    match a.ask id v with
    | .nothing => none
    | .misfit _ => some false
    | .parts parts => everyAnswer (fun p => a.accepts n p.node p.value) parts
    | .oneOf members => someAnswer (fun member => a.accepts n member v) members

/-- The errors of parts, one part after the other. -/
def gatherParts (f : Part → Option (List ValidationError)) :
    List Part → Option (List ValidationError)
  | [] => some []
  | p :: ps => do
    let errors ← f p
    let others ← gatherParts f ps
    pure (errors ++ others)

/-- **The validator**: the errors of a value at a path, as far as a bound allows to say. -/
def validate (a : Arena) : Nat → NodeId → List PathItem → Value → Option (List ValidationError)
  | 0, _, _, _ => none
  | n + 1, id, path, v =>
    match a.ask id v with
    | .nothing => none
    | .misfit expected => some [⟨path, expected⟩]
    | .parts parts => gatherParts (fun p => a.validate n p.node (path ++ p.step) p.value) parts
    | .oneOf members =>
      (someAnswer (fun member => a.accepts n member v) members).map fun accepted =>
        if accepted then [] else [⟨path, "union"⟩]

/-! ## The validator and the unfolded type -/

variable {a : Arena}

/-- The demand that a part stands for. -/
def Part.demand (a : Arena) (p : Part) : Demand := ⟨p.step, a.unfolding p.node, p.value⟩

/-- What a question comes to for unfolded types. -/
def Ask.facet (a : Arena) : Ask → Facet
  | nothing => .silent
  | misfit expected => .misfit expected
  | parts ps => .all (ps.map (Part.demand a))
  | oneOf members => .oneOf (members.map a.unfolding)

theorem facet_ite (a : Arena) (fits : Bool) (expected : String) (ps : List Part) :
    Ask.facet a (if fits then .parts ps else .misfit expected) =
      .guarded fits expected (ps.map (Part.demand a)) := by
  cases fits <;> rfl

theorem demand_reached (child : NodeId) (step : PathItem) (optional : Bool) (v : Value) :
    (reached child step optional v).map (Part.demand a) =
      (a.unfolding child).reached step optional v := by
  unfold reached TypeTree.reached
  split <;> rfl

theorem demand_each (child : NodeId) (parts : List (PathItem × Value)) :
    (each child parts).map (Part.demand a) = (a.unfolding child).each parts := by
  simp only [each, TypeTree.each, List.map_map]
  rfl

theorem demand_objectParts (props : List NodeId) (index : Option NodeId) (v : Value) :
    (a.objectParts props index v).map (Part.demand a) = a.objectDemands props index v := by
  simp only [objectParts, objectDemands, List.map_append, List.map_map]
  congr 1
  cases a.indexFilter index with
  | none => rfl
  | some x => exact demand_each _ _

theorem demand_tupleParts (members : List NodeId) (v : Value) :
    (a.tupleParts members v).map (Part.demand a) = a.tupleDemands members v := by
  simp only [tupleParts, tupleDemands, List.map_append, List.map_flatMap, demand_reached]
  congr 1
  cases (a.splitTuple members).2 with
  | none => rfl
  | some id => exact demand_each _ _

/-- Away from nodes that stand for others, a node asks what its unfolded type asks. -/
theorem facet_unfolding {id : NodeId} (hself : (a.node id).standsFor? = none) (v : Value) :
    (a.unfolding id).facet v = (a.ask id v).facet a := by
  unfold ask
  split
  · rename_i x h
    rw [facet_atom h, facet_ite]
    rfl
  · rename_i item h
    rw [facet_array h, facet_ite, demand_each]
  · rename_i name child h
    rw [facet_property h, Ask.facet, demand_reached]
  · rename_i props index className h
    rw [facet_object h, facet_ite, demand_objectParts]
  · rename_i members h
    rw [facet_tuple h, facet_ite, demand_tupleParts]
    rfl
  · rename_i members h
    rw [facet_union h]
    rfl
  -- a node that stands for another
  iterate 4
    · rename_i h
      simp only [Node.standsFor?, h, reduceCtorEq] at hself
  -- a promise or a function, of which nothing can be tested
  iterate 2
    · rename_i h
      simp only [TypeTree.facet, label_unfolding hself, labelOf, h, Ask.facet]

/-- A node that stands for another asks that the value be an instance of that one. -/
theorem ask_of_standsFor {id child : NodeId} (h : (a.node id).standsFor? = some child)
    (v : Value) : a.ask id v = .parts [⟨[], child, v⟩] := by
  unfold Node.standsFor? at h
  unfold ask
  split at h <;> rename_i hshape <;> cases h <;> rw [hshape]

/-- Where a search at the end of a chain of nodes arrives, a search at its beginning arrives. -/
theorem arrives_of_core {α : Type} (search : Nat → NodeId → Option α) {answer : α}
    (hsearch : ∀ n id child, (a.node id).standsFor? = some child →
      search n child = some answer → search (n + 1) id = some answer)
    {id core : NodeId} (hcore : a.core id = some core) (h : Arrives (search · core) answer) :
    Arrives (search · id) answer := by
  unfold Arena.core at hcore
  generalize a.size + 1 = k at hcore
  induction k generalizing id with
  | zero => cases hcore
  | succ k ih =>
    cases hself : (a.node id).standsFor? with
    | none =>
      rw [coreWithin_succ_of_none k hself] at hcore
      cases hcore
      exact h
    | some child =>
      rw [coreWithin_succ_of_standsFor k hself] at hcore
      exact .step ((ih hcore).imp fun n hn => hsearch n id child hself hn)

/-- A type that asks anything has a node at the end of the chain, which asks the same. -/
theorem exists_ask {id : NodeId} {v : Value} {facet : Facet} (h : (a.unfolding id).facet v = facet)
    (asks : facet ≠ .silent) : ∃ core, a.core id = some core ∧ (a.ask core v).facet a = facet := by
  cases hcore : a.core id with
  | none =>
    have hlabel : (a.unfolding id).label = none := by
      simp only [TypeTree.label, unfolding, labelAlong, hcore, Option.bind_none]
    simp only [TypeTree.facet, hlabel] at h
    exact absurd h.symm asks
  | some core =>
    refine ⟨core, rfl, ?_⟩
    rw [← facet_unfolding (standsFor_of_core hcore), ← unfolding_core hcore, h]

theorem exists_misfit {id : NodeId} {v : Value} {expected : String}
    (h : (a.unfolding id).facet v = .misfit expected) :
    ∃ core, a.core id = some core ∧ a.ask core v = .misfit expected := by
  obtain ⟨core, hcore, hask⟩ := exists_ask h nofun
  refine ⟨core, hcore, ?_⟩
  cases hq : a.ask core v <;> rw [hq] at hask <;> cases hask
  rfl

theorem exists_parts {id : NodeId} {v : Value} {demands : List Demand}
    (h : (a.unfolding id).facet v = .all demands) :
    ∃ core parts, a.core id = some core ∧ a.ask core v = .parts parts ∧
      demands = parts.map (Part.demand a) := by
  obtain ⟨core, hcore, hask⟩ := exists_ask h nofun
  cases hq : a.ask core v <;> rw [hq] at hask <;> cases hask
  exact ⟨core, _, hcore, hq, rfl⟩

theorem exists_oneOf {id : NodeId} {v : Value} {types : List TypeTree}
    (h : (a.unfolding id).facet v = .oneOf types) :
    ∃ core members, a.core id = some core ∧ a.ask core v = .oneOf members ∧
      types = members.map a.unfolding := by
  obtain ⟨core, hcore, hask⟩ := exists_ask h nofun
  cases hq : a.ask core v <;> rw [hq] at hask <;> cases hask
  exact ⟨core, _, hcore, hq, rfl⟩

/-! ## What the validator arrives at -/

/-- The question of acceptance may be put to the end of the chain of nodes. -/
theorem arrives_accepts_of_core {id core : NodeId} {v : Value} {b : Bool}
    (hcore : a.core id = some core) (h : Arrives (fun n => a.accepts (n + 1) core v) b) :
    Arrives (fun n => a.accepts n id v) b := by
  refine arrives_of_core (fun n id => a.accepts n id v) ?_ hcore (.step h)
  intro n id child hself hchild
  rw [accepts, ask_of_standsFor hself]
  show everyAnswer (fun p : Part => a.accepts n p.node p.value) [⟨[], child, v⟩] = some b
  simp only [everyAnswer, hchild]
  cases b <;> rfl

/-- **Acceptance is the judgement of the unfolded type.** -/
theorem arrives_accepts {id : NodeId} {t : TypeTree} {v : Value} {b : Bool} (h : Judges t v b)
    (ht : t = a.unfolding id) : Arrives (fun n => a.accepts n id v) b := by
  induction h generalizing id with
  | misfit h =>
    obtain ⟨core, hcore, hask⟩ := exists_misfit (ht ▸ h)
    refine arrives_accepts_of_core hcore ?_
    simp only [accepts, hask]
    exact .const false
  | holds h _ ih =>
    obtain ⟨core, parts, hcore, hask, rfl⟩ := exists_parts (ht ▸ h)
    refine arrives_accepts_of_core hcore ?_
    simp only [accepts, hask]
    obtain ⟨n, hn⟩ := Arrives.forall_mem (fun (p : Part) n => a.accepts n p.node p.value)
      fun p hp => ih (p.demand a) (List.mem_map_of_mem hp) rfl
    exact ⟨n, fun m hm => everyAnswer_eq_true (hn m hm)⟩
  | fails h mem _ ih =>
    obtain ⟨core, parts, hcore, hask, rfl⟩ := exists_parts (ht ▸ h)
    refine arrives_accepts_of_core hcore ?_
    simp only [accepts, hask]
    obtain ⟨p, hp, rfl⟩ := List.mem_map.mp mem
    exact (ih rfl).imp fun n hn => everyAnswer_eq_false hp hn
  | member h mem _ ih =>
    obtain ⟨core, members, hcore, hask, rfl⟩ := exists_oneOf (ht ▸ h)
    refine arrives_accepts_of_core hcore ?_
    simp only [accepts, hask]
    obtain ⟨u, hu, rfl⟩ := List.mem_map.mp mem
    exact (ih rfl).imp fun n hn => someAnswer_eq_true hu hn
  | @noMember t v types h _ ih =>
    obtain ⟨core, members, hcore, hask, rfl⟩ := exists_oneOf (ht ▸ h)
    refine arrives_accepts_of_core hcore ?_
    simp only [accepts, hask]
    obtain ⟨n, hn⟩ := Arrives.forall_mem (fun member n => a.accepts n member v)
      fun u hu => ih (a.unfolding u) (List.mem_map_of_mem hu) rfl
    exact ⟨n, fun m hm => someAnswer_eq_false (hn m hm)⟩

theorem below_append (path step : List PathItem) (errors : List ValidationError) :
    errors.map (ValidationError.below (path ++ step)) =
      (errors.map (ValidationError.below step)).map (ValidationError.below path) := by
  rw [List.map_map]
  refine List.map_congr_left fun e _ => ?_
  simp only [Function.comp_apply, ValidationError.below, List.append_assoc]

/-- The question of errors may be put to the end of the chain of nodes. -/
theorem arrives_validate_of_core {id core : NodeId} {path : List PathItem} {v : Value}
    {errors : List ValidationError} (hcore : a.core id = some core)
    (h : Arrives (fun n => a.validate (n + 1) core path v) errors) :
    Arrives (fun n => a.validate n id path v) errors := by
  refine arrives_of_core (fun n id => a.validate n id path v) ?_ hcore (.step h)
  intro n id child hself hchild
  rw [validate, ask_of_standsFor hself]
  show gatherParts (fun p : Part => a.validate n p.node (path ++ p.step) p.value)
    [⟨[], child, v⟩] = some errors
  simp only [gatherParts, List.append_nil, hchild]
  show some (errors ++ []) = some errors
  rw [List.append_nil]

/-- A union has accepted a value if one of its members has. -/
theorem arrives_someAnswer {core : NodeId} {members : List NodeId} {v : Value} {b : Bool}
    (hask : a.ask core v = .oneOf members) (h : Judges (a.unfolding core) v b) :
    Arrives (fun n => someAnswer (fun member => a.accepts n member v) members) b := by
  obtain ⟨n, hn⟩ := arrives_accepts h rfl
  refine ⟨n, fun m hm => ?_⟩
  have hnext := hn (m + 1) (Nat.le_succ_of_le hm)
  simp only [accepts, hask] at hnext
  exact hnext

mutual

/-- **The errors of the validator are the faults of the unfolded type**, below the path it is
given. -/
theorem arrives_validate {id : NodeId} {t : TypeTree} {v : Value} {errors : List ValidationError}
    (ht : t = a.unfolding id) (path : List PathItem) :
    Faults t v errors → Arrives (fun n => a.validate n id path v) (errors.map (.below path))
  | .misfit h => by
    obtain ⟨core, hcore, hask⟩ := exists_misfit (ht ▸ h)
    refine arrives_validate_of_core hcore ?_
    simp only [validate, hask, List.map_cons, ValidationError.below, List.append_nil]
    exact .const _
  | .parts h all => by
    obtain ⟨core, parts, hcore, hask, hparts⟩ := exists_parts (ht ▸ h)
    refine arrives_validate_of_core hcore ?_
    simp only [validate, hask]
    exact arrives_gatherParts hparts path all
  | .member h holds => by
    obtain ⟨core, members, hcore, hask, -⟩ := exists_oneOf (ht ▸ h)
    refine arrives_validate_of_core hcore ?_
    simp only [validate, hask]
    rw [ht, unfolding_core hcore] at holds
    refine (arrives_someAnswer hask holds).imp fun n hn => ?_
    rw [hn]
    rfl
  | .noMember h fails => by
    obtain ⟨core, members, hcore, hask, -⟩ := exists_oneOf (ht ▸ h)
    refine arrives_validate_of_core hcore ?_
    simp only [validate, hask]
    rw [ht, unfolding_core hcore] at fails
    refine (arrives_someAnswer hask fails).imp fun n hn => ?_
    rw [hn]
    simp [ValidationError.below]

theorem arrives_gatherParts {parts : List Part} {demands : List Demand}
    {errors : List ValidationError} (hparts : demands = parts.map (Part.demand a))
    (path : List PathItem) : FaultsAll demands errors →
    Arrives (fun n => gatherParts (fun p => a.validate n p.node (path ++ p.step) p.value) parts)
      (errors.map (.below path))
  | .nil => by
    obtain rfl := List.map_eq_nil_iff.mp hparts.symm
    exact .const []
  | .cons first more => by
    -- the demand is not replaced by that of its part before the faults are followed: the recursion
    -- is on the faults of the demand
    obtain ⟨p, ps, rfl, hp, hps⟩ := List.map_eq_cons_iff.mp hparts.symm
    have hfirst := arrives_validate (congrArg Demand.tree hp).symm (path ++ p.step) first
    have hmore := arrives_gatherParts hps.symm path more
    subst hp
    obtain ⟨n, hn⟩ := hfirst
    obtain ⟨k, hk⟩ := hmore
    refine ⟨max n k, fun m hm => ?_⟩
    have hfirst := hn m (le_trans (le_max_left n k) hm)
    have hmore := hk m (le_trans (le_max_right n k) hm)
    dsimp only [Part.demand] at hfirst hmore ⊢
    simp only [gatherParts, hfirst, hmore, List.map_append, below_append]
    rfl

end

end Arena

end Typeforge
