/-
# `Typeforge.Proofs.Running.Filling` — code fills in the parts of a whole

What the code of an object or of a tuple makes of a value is known beforehand when
it is known for each part what its own code makes of it.  A whole is then filled
in, part by part: at each stage some parts are as they were before and the others
as they are after, and each piece of code goes on from one stage to the next.
-/
import Typeforge.Proofs.Types.Slots

namespace Typeforge

/-- A whole whose parts are to be filled in: the keys of the parts, and what they are before and
after. -/
structure Stages (κ μ : Type) where
  whole : Whole κ
  parts : List μ
  key : μ → κ
  before : μ → Value
  after : μ → Value

namespace Stages

variable {κ μ : Type} {s : Stages κ μ} {K K' : κ → Bool} {step step' : Value → Changed}

/-- The stage where the parts with certain keys are filled in. -/
def stage (s : Stages κ μ) (K : κ → Bool) : Value :=
  s.whole.make (s.parts.map fun m => (s.key m, if K (s.key m) then s.after m else s.before m))

/-- A step fills in the parts with certain keys, whichever others are filled in already. -/
def Fills (s : Stages κ μ) (K : κ → Bool) (step : Value → Changed) : Prop :=
  ∀ filled, (∀ k, K k = true → filled k = false) →
    step (s.stage filled) = .done (s.stage fun k => filled k || K k)

/-- The keys of the parts are those of a whole. -/
def Fits (s : Stages κ μ) : Prop := s.whole.fits (s.parts.map s.key)

namespace Fills

theorem of_settles {g : κ → Value → Changed} (settles : s.whole.Settles K g step) (fits : s.Fits)
    (h : ∀ m ∈ s.parts, K (s.key m) = true → g (s.key m) (s.before m) = .done (s.after m)) :
    s.Fills K step := by
  intro filled new
  have hfits : s.whole.fits ((s.parts.map fun m =>
      (s.key m, if filled (s.key m) then s.after m else s.before m)).map Prod.fst) := by
    rw [List.map_map]
    exact fits
  have hbefore {m : μ} (hm : m ∈ s.parts) (hk : K (s.key m) = true) :
      g (s.key m) (if filled (s.key m) then s.after m else s.before m) = .done (s.after m) := by
    rw [new _ hk, if_neg Bool.false_ne_true]
    exact h m hm hk
  rcases settles _ hfits with ⟨part, hpart, hk, halt, hg, -⟩ | ⟨-, heq⟩
  · obtain ⟨m, hm, rfl⟩ := List.mem_map.mp hpart
    dsimp only at hk hg
    rw [hbefore hm hk] at hg
    cases hg
  · rw [stage, heq, stage, List.map_map]
    congr 2
    refine List.map_congr_left fun m hm => ?_
    rw [Function.comp_apply, Whole.changed]
    cases hk : K (s.key m) with
    | true => rw [Bool.or_true, if_pos rfl, if_pos rfl, hbefore hm hk]; rfl
    | false => rw [Bool.or_false, if_neg Bool.false_ne_true]

/-- Where parts stay what they are, nothing is to be done. -/
theorem done (h : ∀ m ∈ s.parts, K (s.key m) = true → s.before m = s.after m) :
    s.Fills K Changed.done := by
  intro filled new
  rw [stage, stage]
  congr 2
  refine List.map_congr_left fun m hm => ?_
  cases hk : K (s.key m) with
  | true => rw [Bool.or_true, new _ hk, if_pos rfl, if_neg Bool.false_ne_true, h m hm hk]
  | false => rw [Bool.or_false]

theorem andThen (h : s.Fills K step) (h' : s.Fills K' step')
    (disjoint : ∀ k, K k = true → K' k = false) :
    s.Fills (fun k => K k || K' k) fun v => (step v).andThen step' := by
  intro filled new
  have hfirst := h filled fun k hk => new k (Bool.or_eq_true_iff.mpr (.inl hk))
  have hsecond := h' (fun k => filled k || K k) fun k hk => by
    rw [new k (Bool.or_eq_true_iff.mpr (.inr hk)), Bool.false_or]
    by_contra hk'
    rw [disjoint k (Bool.not_eq_false _ ▸ hk')] at hk
    cases hk
  dsimp only
  rw [hfirst]
  refine hsecond.trans ?_
  simp only [Bool.or_assoc]

/-- Code that fills in all parts that have to change does so in a whole that is as it was before. -/
theorem run (h : s.Fills K step) (rest : ∀ m ∈ s.parts, K (s.key m) = false → s.before m = s.after m) :
    step (s.whole.make (s.parts.map fun m => (s.key m, s.before m))) =
      .done (s.whole.make (s.parts.map fun m => (s.key m, s.after m))) := by
  have hrun := h (fun _ => false) fun _ _ => rfl
  simp only [stage, Bool.false_eq_true, if_false, Bool.false_or] at hrun
  rw [hrun]
  congr 2
  refine List.map_congr_left fun m hm => ?_
  cases hk : K (s.key m) with
  | true => rw [if_pos rfl]
  | false => rw [if_neg Bool.false_ne_true, rest m hm hk]

theorem congr (h : s.Fills K step) (hK : ∀ k, K k = K' k) : s.Fills K' step := by
  rwa [← funext hK]

end Fills

end Stages

/-- Whether an object type has something for members of a name. -/
def Arena.hasType (a : Arena) (props : List NodeId) (index : Option NodeId)
    (name : String) : Bool :=
  (Compile.declaredNames (a.properties props)).contains name ||
    match a.indexFilter index with
    | some (_, filter) => filter.covers (Compile.declaredNames (a.properties props)) name
    | none => false

/-! ## Code for one part -/

namespace Transform

variable {x : Context} {body : List Transform}

/-- Code for a part, left out if there is nothing to do in it. -/
theorem runAll_part (access : Access) (optional : Bool) :
    runAll x (Compile.unlessEmpty body (.part access optional)) =
      Value.changePresent access optional (runAll x body) := by
  funext v
  cases body with
  | nil => exact ((Value.lifts_changePresent access optional).done v).symm
  | cons t body => exact runAll_singleton x _ v

theorem runAll_each (start : Nat) :
    runAll x (Compile.unlessEmpty body (.each start)) = Value.changeFrom start (runAll x body) := by
  funext v
  cases body with
  | nil => exact ((Value.lifts_changeFrom start).done v).symm
  | cons t body => exact runAll_singleton x _ v

theorem runAll_eachKey (filter : KeyFilter) (skip : List String) :
    runAll x (Compile.unlessEmpty body (.eachKey filter skip)) =
      Value.changeCovered (filter.covers skip) (runAll x body) := by
  funext v
  cases body with
  | nil => exact ((Value.lifts_changeCovered _).done v).symm
  | cons t body => exact runAll_singleton x _ v

/-! ## Code for all parts -/

section Wholes

variable {κ μ ι : Type} {s : Stages κ μ}

/-- Pieces of code, each of which fills in the part with its key. -/
theorem fills_flatten [BEq κ] [LawfulBEq κ] {xs : List ι} {key : ι → κ} {R : ι → List Transform → Prop}
    {bodies : List (List Transform)} (hbodies : List.Forall₂ R xs bodies)
    (distinct : (xs.map key).Nodup)
    (h : ∀ i ∈ xs, ∀ body, R i body → s.Fills (· == key i) (runAll x body)) :
    s.Fills (fun k => xs.any fun i => k == key i) (runAll x bodies.flatten) := by
  induction hbodies with
  | nil => exact .done fun _ _ hk => nomatch hk
  | @cons i body xs bodies hbody _ ih =>
    obtain ⟨hi, hdistinct⟩ := List.nodup_cons.mp distinct
    obtain ⟨hfirst, hrest⟩ := List.forall_mem_cons.mp h
    rw [List.flatten_cons, funext (runAll_append x body bodies.flatten)]
    refine (hfirst body hbody).andThen (ih hdistinct hrest) fun k hk => ?_
    refine List.any_eq_false.mpr fun j hj hjk => hi ?_
    rw [← eq_of_beq hk, eq_of_beq hjk]
    exact List.mem_map_of_mem hj

variable {a : Arena} {child : NodeId → List Transform → Prop}

/-- The code of an object's members. -/
theorem fills_object {s : Stages String μ} (whole : s.whole = .members) (fits : s.Fits)
    {props : List NodeId} {index : Option NodeId}
    (distinct : (Compile.declaredNames (a.properties props)).Nodup)
    (h : Compile.ObjectTransform a child props index body)
    (property : ∀ p ∈ a.properties props, ∀ body, child p.id body →
      s.Fills (· == p.name) (runAll x body))
    (indexed : ∀ id filter body, a.indexFilter index = some (id, filter) → child id body →
      ∀ m ∈ s.parts, filter.covers (Compile.declaredNames (a.properties props)) (s.key m) = true →
      runAll x body (s.before m) = .done (s.after m)) :
    s.Fills (a.hasType props index) (runAll x body) := by
  cases h with
  | @mk declared others hdeclared hothers =>
    have hfirst := fills_flatten hdeclared distinct property
    rw [funext (runAll_append x declared.flatten others)]
    have hdeclaredKeys (k : String) : ((a.properties props).any fun p => k == p.name) =
        (Compile.declaredNames (a.properties props)).contains k := by
      rw [Compile.declaredNames, List.contains_eq_any_beq, List.any_map]
      rfl
    cases hothers with
    | absent hindex =>
      have hnothing : s.Fills (fun _ => false) Changed.done :=
        .done fun _ _ hk => absurd hk Bool.false_ne_true
      refine (hfirst.andThen hnothing fun _ _ => rfl).congr fun k => ?_
      rw [hdeclaredKeys, Arena.hasType, hindex]
    | present hindex hbody =>
      rename_i y body
      obtain ⟨id, filter⟩ := y
      rw [runAll_eachKey]
      have hcovered : s.Fills (filter.covers (Compile.declaredNames (a.properties props)))
          (Value.changeCovered (filter.covers (Compile.declaredNames (a.properties props)))
            (runAll x body)) := by
        refine .of_settles (g := fun _ => runAll x body) ?_ fits fun m hm hk =>
          indexed id filter body hindex hbody m hm hk
        rw [whole]
        exact .covered fun _ _ _ => rfl
      refine (hfirst.andThen hcovered fun k hk => ?_).congr fun k => ?_
      · rw [hdeclaredKeys] at hk
        rw [KeyFilter.covers, hk, Bool.not_true, Bool.and_false]
      · rw [hdeclaredKeys, Arena.hasType, hindex]

/-- The code of a tuple's elements. -/
theorem fills_tuple {s : Stages Nat μ} (whole : s.whole = .elements) (fits : s.Fits)
    {tuple fixed : List NodeId} {rest : Option NodeId} (split : a.splitTuple tuple = (fixed, rest))
    {before : NodeId → Nat → List Transform}
    (h : Compile.TupleTransform a before child tuple body)
    (position : ∀ pos i, fixed[i]? = some pos → ∀ body, child pos body → s.Fills (· == i)
      (runAll x (before pos i ++
        Compile.unlessEmpty body (.part (.element i) (a.node pos).optional))))
    (behind : ∀ last body, rest = some last → child last body →
      ∀ m ∈ s.parts, fixed.length ≤ s.key m → runAll x body (s.before m) = .done (s.after m)) :
    s.Fills (fun i => decide (i < fixed.length) || rest.isSome) (runAll x body) := by
  cases h with
  | @mk _ _ elements others hsplit helements hothers =>
    obtain ⟨rfl, rfl⟩ := Prod.mk.inj (split.symm.trans hsplit)
    have hnumbers : (fixed.zipIdx.map Prod.snd).Nodup := by
      rw [List.zipIdx_map_snd]
      exact List.nodup_range'
    have hfirst := fills_flatten (x := x) (s := s) helements hnumbers fun y hy out hout => by
      obtain ⟨body, hbody, rfl⟩ := hout
      exact position y.1 y.2 (List.mem_zipIdx_iff_getElem?.mp hy) body hbody
    have hkeys (i : Nat) : (fixed.zipIdx.any fun y => i == y.2) = decide (i < fixed.length) := by
      have hmap := List.any_map (l := fixed.zipIdx) (f := Prod.snd) (p := (i == ·))
      rw [List.zipIdx_map_snd] at hmap
      refine hmap.symm.trans (Bool.eq_iff_iff.mpr ?_)
      simp
    simp only [hkeys] at hfirst
    rw [funext (runAll_append x elements.flatten others)]
    cases hothers with
    | absent hrest =>
      have hnothing : s.Fills (fun _ => false) Changed.done := .done fun _ _ hk => nomatch hk
      refine (hfirst.andThen hnothing fun _ _ => rfl).congr fun i => ?_
      rw [hrest]
      rfl
    | present hrest hbody =>
      rename_i last body
      rw [runAll_each]
      have hbehind : s.Fills (decide <| fixed.length ≤ ·)
          (Value.changeFrom fixed.length (runAll x body)) := by
        refine .of_settles (g := fun _ => runAll x body) ?_ fits fun m hm hk =>
          behind last body hrest hbody m hm (of_decide_eq_true hk)
        rw [whole]
        exact .elementsFrom fun _ _ _ => rfl
      refine (hfirst.andThen hbehind fun i hi =>
        decide_eq_false (not_le.mpr (of_decide_eq_true hi))).congr fun i => ?_
      rw [hrest, Option.isSome_some, Bool.or_true, Bool.or_eq_true_iff, decide_eq_true_eq,
        decide_eq_true_eq]
      exact Nat.lt_or_ge i fixed.length

end Wholes

end Transform

end Typeforge
