/-
# `Typeforge.Proofs.Mocks.Drawing` — what draws come to

A draw is a function of the generator, and what is said of it is said for every
state that the generator may be in.  `Meets` says it once for both purposes: a
draw gives values of some kind, and where it gives none it fails in a way that
is allowed for.  With every failure allowed this is what drawn values are like;
with none it is that the draw never fails.

A draw of a node rests on draws of its children.  Which children it comes to,
with so much left out as there is in a minimal draw, says `Context.Draws`; how
its value is put together from theirs, `Context.Built`.
-/
import Typeforge.Mock.Sampler
import Typeforge.Proofs.Lowering.Heights
import Typeforge.Proofs.Members
import Typeforge.Proofs.Numbers.Ranges
import Typeforge.Proofs.Types.Tree

namespace Typeforge

/-! ## Draws from the generator -/

namespace Random

variable {α β : Type} {m : Random α} {f : α → Random β} {P : α → Prop} {Q : β → Prop}

/-- Whatever the state of the generator, what is drawn is of some kind. -/
def Gives (m : Random α) (P : α → Prop) : Prop := ∀ g, P (m.run g).1

theorem Gives.pure {a : α} (h : P a) : Gives (Pure.pure a) P := fun _ => h

theorem Gives.bind (hm : Gives m P) (hf : ∀ a, P a → Gives (f a) Q) : Gives (m >>= f) Q :=
  fun g => hf _ (hm g) (m.run g).2

theorem Gives.any : Gives m fun _ => True := fun _ => trivial

/-- Draws that are scaled down are below the bound. -/
theorem gives_scaled {bits : Nat} {draw : Random Nat} (hdraw : Gives draw (· < 2 ^ bits)) {n : Nat}
    (pos : 0 < n) (repetitions : Nat) : Gives (scaled bits draw n repetitions) (· < n) := by
  induction repetitions with
  | zero => exact .pure pos
  | succ repetitions ih =>
    refine hdraw.bind fun r hr => ?_
    split
    · refine .pure (Nat.div_lt_of_lt_mul ?_)
      exact Nat.mul_lt_mul_of_pos_right hr pos
    · exact ih

theorem gives_below32 {n : Nat} (pos : 0 < n) : Gives (below32 n) (· < n) :=
  gives_scaled (Gives.any.bind fun _ _ => .pure (Nat.mod_lt _ (by decide))) pos _

/-- Fractions are of a magnitude that no operation on them carries out of range. -/
theorem gives_fraction : Gives fraction fun f => Rounding.Limited 2 f.toModel.unpack := by
  have hzero : Rounding.Limited 2 (0.0 : Float).toModel.unpack := by
    rw [Binary.unpack_eq, show Binary.ofFloat 0.0 = .finite false 0 (-1074) by decide +kernel]
    trivial
  have hword : Binary.ofFloat 9223372036854775808.0 = .finite false (2 ^ 52) 11 := by
    decide +kernel
  suffices h : ∀ n, Gives (fractionWithin n) fun f => Rounding.Limited 2 f.toModel.unpack from h _
  intro n
  induction n with
  | zero => exact .pure hzero
  | succ n ih =>
    refine Gives.any.bind fun w _ => ?_
    dsimp only
    split
    · refine .pure ?_
      exact Rounding.Limited.div_float (c := 63) (Rounding.limited_toFloat _)
        (Rounding.unpack_of_ofFloat hword (by decide)) (by decide) (by decide) (by decide)
    · exact ih

end Random

namespace Mock

/-- Numbers are drawn from finite ones. -/
theorem gives_number : Random.Gives number fun x => x.isFinite = true := by
  refine Random.Gives.any.bind fun whole _ => ?_
  split
  · refine (Random.gives_below32 (by decide)).bind fun n hn => .pure ?_
    exact Rounding.isFinite_ofInt (by omega)
  · refine Random.gives_fraction.bind fun f hf => .pure ?_
    have hhalf : Binary.ofFloat 0.5 = .finite false (2 ^ 52) (-53) := by decide +kernel
    have hscale : Binary.ofFloat 2000.0 = .finite false 8796093022208000 (-42) := by decide +kernel
    have half : Rounding.Limited 2 (0.5 : Float).toModel.unpack :=
      Rounding.limited_of_ofFloat hhalf (by decide) (by decide)
    have scale : Rounding.Limited 11 (2000.0 : Float).toModel.unpack :=
      Rounding.limited_of_ofFloat hscale (by decide) (by decide)
    exact Rounding.isFinite_of_limited
      ((hf.sub_float half (by decide) (by decide)).mul_float scale (by decide) (by decide))

/-! ## Draws that may fail -/

variable {α β : Type} {fails : CompileError → Prop} {m : Draw α} {f : α → Draw β}
  {P P' : α → Prop} {Q : β → Prop}

/-- Values of some kind, or failures that are allowed for. -/
def Allows (fails : CompileError → Prop) (P : α → Prop) : Except CompileError α → Prop
  | .ok a => P a
  | .error e => fails e

/-- Whatever the state of the generator, a draw gives values of some kind, or fails in a way that
is allowed for. -/
def Meets (fails : CompileError → Prop) (m : Draw α) (P : α → Prop) : Prop :=
  ∀ g, Allows fails P (m.run.run g).1

theorem run_bind (m : Draw α) (f : α → Draw β) (g : Generator) :
    (m >>= f).run.run g = match m.run.run g with
      | (.ok a, g') => (f a).run.run g'
      | (.error e, g') => (.error e, g') := by
  change (ExceptT.bindCont f (m.run.run g).1) (m.run.run g).2 = _
  cases m.run.run g with
  | mk result g' => cases result <;> rfl

theorem Meets.pure {a : α} (h : P a) : Meets fails (Pure.pure a) P := fun _ => h

theorem Meets.throw {e : CompileError} (h : fails e) : Meets fails (throw e : Draw α) P :=
  fun _ => h

theorem Meets.bind (hm : Meets fails m P) (hf : ∀ a, P a → Meets fails (f a) Q) :
    Meets fails (m >>= f) Q := by
  intro g
  have h := hm g
  rw [run_bind]
  cases hrun : m.run.run g with
  | mk result g' =>
    rw [hrun] at h
    cases result with
    | ok a => exact hf a h g'
    | error e => exact h

theorem Meets.mono (hm : Meets fails m P) (h : ∀ a, P a → P' a) : Meets fails m P' := by
  intro g
  have hg := hm g
  cases hrun : (m.run.run g).1 with
  | ok a =>
    rw [hrun] at hg
    exact h a hg
  | error e =>
    rw [hrun] at hg
    exact hg

/-- What is drawn from the generator alone is drawn without failure. -/
theorem Meets.lift {r : Random α} (h : Random.Gives r P) : Meets fails (liftM r : Draw α) P :=
  fun g => h g

theorem Meets.any {r : Random α} : Meets fails (liftM r : Draw α) fun _ => True :=
  .lift .any

theorem Meets.mapM {xs : List β} {f : β → Draw α} (h : ∀ x ∈ xs, Meets fails (f x) P) :
    Meets fails (xs.mapM f) fun as => as.length = xs.length ∧ ∀ a ∈ as, P a := by
  induction xs with
  | nil => exact .pure ⟨rfl, fun _ ha => absurd ha List.not_mem_nil⟩
  | cons x xs ih =>
    obtain ⟨hx, hxs⟩ := List.forall_mem_cons.mp h
    rw [List.mapM_cons]
    refine hx.bind fun a ha => (ih hxs).bind fun as has => .pure ?_
    exact ⟨congrArg (· + 1) has.1, List.forall_mem_cons.mpr ⟨ha, has.2⟩⟩

/-! ## Atoms -/

end Mock

/-- Whether a literal is the number that is none, which no value is equal to. -/
def Literal.isNaN : Literal → Bool
  | number x => x.isNaN
  | _ => false

/-- Whether one of the literals of an atom is. -/
def Atom.namesNaN : Atom → Bool
  | literal l => l.isNaN
  | enumeration members => members.any fun m => m.2.isNaN
  | _ => false

theorem Binary.ofFloat_ne_nan {x : Float} (h : x.isNaN = false) : ofFloat x ≠ nan := by
  intro hx
  change x.toModel.unpack.isNaN = false at h
  rw [unpack_eq, hx] at h
  cases h

theorem Literal.accepts_toValue {l : Literal} (h : l.isNaN = false) : l.accepts l.toValue = true := by
  cases l with
  | number x => exact Binary.beq_self (Binary.ofFloat_ne_nan h)
  | regexp r => exact decide_eq_true rfl
  | _ => exact beq_self_eq_true _

namespace Mock

/-- What is drawn for an atom is an instance of it. -/
theorem meets_drawAtom (x : Context) (site : Site) {at' : Atom}
    (uninhabited : at' = .never ∨ at' = .enumeration [] → fails (.uninhabited site.text)) :
    Meets fails (drawAtom x site at') fun v => at'.namesNaN = false → at'.holds v = true := by
  cases at' with
  | never => exact .throw (uninhabited (.inl rfl))
  | any | unknown =>
    refine Meets.any.bind fun i _ => ?_
    split
    · exact .pure fun _ => rfl
    · exact Meets.any.bind fun _ _ => .pure fun _ => rfl
    · exact Meets.any.bind fun _ _ => .pure fun _ => rfl
    · exact Meets.any.bind fun _ _ => .pure fun _ => rfl
  | void | undefined | null => exact .pure fun _ => rfl
  | number => exact (Meets.lift gives_number).bind fun n hn => .pure fun _ => hn
  | literal l => exact .pure Literal.accepts_toValue
  | enumeration members =>
    cases members with
    | nil => exact .throw (uninhabited (.inr rfl))
    | cons first rest =>
      refine Meets.any.bind fun i _ => .pure fun h => ?_
      have hmem : (first :: rest).getD i first ∈ first :: rest := by
        rw [List.getD_eq_getElem?_getD]
        cases hi : (first :: rest)[i]? with
        | none => exact List.mem_cons_self
        | some m => exact List.mem_of_getElem? hi
      refine List.any_eq_true.mpr ⟨_, hmem, Literal.accepts_toValue ?_⟩
      exact Bool.eq_false_iff.mpr (List.any_eq_false.mp h _ hmem)
  | date => exact Meets.any.bind fun ms _ => .pure fun _ => decide_eq_true (Nat.mul_mod_left ..)
  | object | string | boolean | symbol | bigint | regexp =>
    exact Meets.any.bind fun _ _ => .pure fun _ => rfl

/-! ## Choices -/

namespace Context

/-- The member of a union that may be drawn: one that has instances, in a minimal draw a lowest. -/
def Picks (x : Context) (minimal : Bool) (members : List NodeId) (id : NodeId) : Prop :=
  id ∈ members ∧ ∃ h, (x.arena.node id).minHeight = some h ∧
    (minimal = true → ∀ m ∈ members, ∀ k, (x.arena.node m).minHeight = some k → h ≤ k)

variable {x : Context} {site : Site}

/-- What is optional is drawn in draws that are not minimal only. -/
theorem gives_includeOptional :
    Random.Gives (x.includeOptional site) fun included =>
      included = true → x.minimal site = false := by
  rw [includeOptional]
  split
  · exact .pure fun h => absurd h Bool.false_ne_true
  · rename_i hfree
    exact Random.Gives.any.bind fun f _ => .pure fun _ => Bool.eq_false_iff.mpr hfree

/-- A part that is drawn unless it is optional and left out. -/
theorem meets_included {optional : Bool} {f : Bool → Draw β}
    (hf : ∀ included, (included = true → optional = true → x.minimal site = false) →
      (included = false → optional = true) → Meets fails (f included) Q) :
    Meets fails (if optional = true then liftM (x.includeOptional site) >>= f else pure true >>= f)
      Q := by
  cases optional with
  | false =>
    exact hf true (fun _ h => absurd h Bool.false_ne_true) fun h => absurd h.symm Bool.false_ne_true
  | true =>
    exact (Meets.lift gives_includeOptional).bind fun included h =>
      hf included (fun hi _ => h hi) fun _ => rfl

theorem gives_count (most : Nat) :
    Random.Gives (x.count site most) fun n => n ≠ 0 → x.minimal site = false := by
  rw [count]
  split
  · exact .pure fun h => absurd rfl h
  · rename_i hfree
    exact fun g _ => Bool.eq_false_iff.mpr hfree

theorem mem_candidates {members : List NodeId} {c : NodeId × Nat} :
    c ∈ x.candidates members ↔ c.1 ∈ members ∧ (x.arena.node c.1).minHeight = some c.2 := by
  simp only [candidates, List.mem_filterMap, Option.map_eq_some_iff]
  constructor
  · rintro ⟨id, hid, h, hh, rfl⟩
    exact ⟨hid, hh⟩
  · rintro ⟨hid, hh⟩
    exact ⟨c.1, hid, c.2, hh, rfl⟩

/-- Of the candidates the one that is kept is no higher than any. -/
theorem foldl_lowest (first : NodeId × Nat) (rest : List (NodeId × Nat)) :
    let best := rest.foldl (fun (best : NodeId × Nat) c => if c.2 < best.2 then c else best) first
    best ∈ first :: rest ∧ ∀ c ∈ first :: rest, best.2 ≤ c.2 := by
  induction rest generalizing first with
  | nil => exact ⟨List.mem_cons_self, List.forall_mem_singleton.mpr (le_refl _)⟩
  | cons c rest ih =>
    rw [List.foldl_cons]
    by_cases hlt : c.2 < first.2
    · rw [if_pos hlt]
      obtain ⟨hmem, hle⟩ := ih c
      have hc := (List.forall_mem_cons.mp hle).1
      exact ⟨List.mem_cons_of_mem _ hmem, List.forall_mem_cons.mpr ⟨hc.trans hlt.le, hle⟩⟩
    · rw [if_neg hlt]
      obtain ⟨hmem, hle⟩ := ih first
      obtain ⟨hfirst, hrest⟩ := List.forall_mem_cons.mp hle
      refine ⟨?_, List.forall_mem_cons.mpr
        ⟨hfirst, List.forall_mem_cons.mpr ⟨hfirst.trans (not_lt.mp hlt), hrest⟩⟩⟩
      rcases List.mem_cons.mp hmem with hmem | hmem
      · exact List.mem_cons.mpr (.inl hmem)
      · exact List.mem_cons_of_mem _ (List.mem_cons_of_mem _ hmem)

theorem exists_of_lowest {cs : List (NodeId × Nat)} {best : NodeId} (h : lowest cs = some best) :
    ∃ k, (best, k) ∈ cs ∧ ∀ c ∈ cs, k ≤ c.2 := by
  cases cs with
  | nil => cases h
  | cons first rest =>
    obtain rfl := Option.some.inj h
    exact ⟨_, foldl_lowest first rest⟩

theorem meets_pickMember {members : List NodeId}
    (uninhabited : (∀ m ∈ members, (x.arena.node m).minHeight = none) →
      fails (.uninhabited site.text)) :
    Meets fails (x.pickMember site members) (x.Picks (x.minimal site) members) := by
  unfold pickMember
  dsimp only
  cases hlow : lowest (x.candidates members) with
  | none =>
    refine .throw (uninhabited fun m hm => ?_)
    by_contra hne
    obtain ⟨k, hk⟩ := Option.ne_none_iff_exists'.mp hne
    have hmem : (m, k) ∈ x.candidates members := mem_candidates.mpr ⟨hm, hk⟩
    cases hcs : x.candidates members with
    | nil => exact absurd (hcs ▸ hmem) List.not_mem_nil
    | cons c cs =>
      rw [hcs] at hlow
      cases hlow
  | some best =>
    obtain ⟨k, hbest, hle⟩ := exists_of_lowest hlow
    obtain ⟨hmem, hheight⟩ := mem_candidates.mp hbest
    dsimp only
    split
    · exact .pure ⟨hmem, k, hheight, fun _ m hm j hj => hle (m, j) (mem_candidates.mpr ⟨hm, hj⟩)⟩
    · rename_i hfree
      refine Meets.any.bind fun i _ => .pure ?_
      have hpicked : ∃ j, (((x.candidates members)[i]?.map (·.1)).getD best, j) ∈
          x.candidates members := by
        cases hi : (x.candidates members)[i]? with
        | none => exact ⟨k, hbest⟩
        | some c => exact ⟨c.2, List.mem_of_getElem? hi⟩
      obtain ⟨j, hj⟩ := hpicked
      obtain ⟨hmem, hheight⟩ := mem_candidates.mp hj
      exact ⟨hmem, j, hheight, fun h => absurd h hfree⟩

end Context

/-! ## Elements and members -/

variable {x : Context} {child : Site → NodeId → Draw Value} {site : Site}

theorem meets_drawElements {id : NodeId} {R : Value → Prop} {start count : Nat}
    (children : ∀ i, count ≠ 0 → Meets fails (child (site.part (.element i)) id) R) :
    Meets fails (drawElements child site id start count) fun items => ∀ v ∈ items, R v := by
  refine (Meets.mapM fun i hi => children i ?_).mono fun items h => h.2
  rintro rfl
  exact absurd hi List.not_mem_nil

/-- What is drawn for the properties of an object, on top of members that have other names. -/
theorem meets_drawProperties {P : NodeId → Value → Prop} {props : List Arena.Property}
    (children : ∀ p ∈ props, (p.optional = true → x.minimal site = false) →
      Meets fails (child (site.part (.member p.name)) p.id) (P p.id)) (out : Members Value) :
    Meets fails (drawProperties x child site props out) fun ms =>
      (∀ name ∉ props.map (·.name), Members.get? name ms = Members.get? name out) ∧
      (∀ m ∈ ms, m ∈ out ∨ m.1 ∈ props.map (·.name)) ∧
      ((props.map (·.name)).Nodup → ∀ p ∈ props, Members.get? p.name out = none →
        (p.optional = true ∧ Members.get? p.name ms = none) ∨
          ∃ v, Members.get? p.name ms = some v ∧ P p.id v) := by
  induction props generalizing out with
  | nil =>
    exact .pure ⟨fun _ _ => rfl, fun m hm => .inl hm, fun _ p hp => absurd hp List.not_mem_nil⟩
  | cons p rest ih =>
    obtain ⟨hp, hrest⟩ := List.forall_mem_cons.mp children
    unfold drawProperties
    dsimp only
    refine Context.meets_included fun included hfree hleft => ?_
    split
    · rename_i hin
      refine (hp (hfree hin)).bind fun v hv => (ih hrest _).mono fun ms hms => ?_
      obtain ⟨kept, keys, drawn⟩ := hms
      refine ⟨fun name hname => ?_, fun m hm => ?_, fun nodup => ?_⟩
      · obtain ⟨hne, hname⟩ := not_or.mp (mt List.mem_cons.mpr hname)
        rw [kept name hname, Members.get?_put, if_neg hne]
      · rcases keys m hm with hm | hm
        · rcases Members.mem_put hm with rfl | hm
          · exact .inr List.mem_cons_self
          · exact .inl hm
        · exact .inr (List.mem_cons_of_mem _ hm)
      · obtain ⟨hfirst, hnodup⟩ := List.nodup_cons.mp nodup
        refine List.forall_mem_cons.mpr ⟨fun _ => .inr ⟨v, ?_, hv⟩, fun q hq hout => ?_⟩
        · rw [kept p.name hfirst, Members.get?_put, if_pos rfl]
        · refine drawn hnodup q hq ?_
          have hne : q.name ≠ p.name := fun heq =>
            hfirst (List.mem_map.mpr ⟨q, hq, heq⟩)
          rw [Members.get?_put, if_neg hne, hout]
    · rename_i hout
      refine (ih hrest out).mono fun ms hms => ?_
      obtain ⟨kept, keys, drawn⟩ := hms
      refine ⟨fun name hname => kept name fun h => hname (List.mem_cons_of_mem _ h),
        fun m hm => (keys m hm).imp_right (List.mem_cons_of_mem _), fun nodup => ?_⟩
      obtain ⟨hfirst, hnodup⟩ := List.nodup_cons.mp nodup
      refine List.forall_mem_cons.mpr ⟨fun hnone => .inl ?_, drawn hnodup⟩
      exact ⟨hleft (Bool.eq_false_iff.mpr hout), by rw [kept p.name hfirst, hnone]⟩

/-- What is drawn for an index signature, on top of other members. -/
theorem meets_drawIndexed {id : NodeId} {R : Value → Prop} {filter : KeyFilter}
    {declared : List String} (count : Nat)
    (children : ∀ key, count ≠ 0 → Meets fails (child (site.part (.member key)) id) R)
    (out : Members Value) :
    Meets fails (drawIndexed x child site id filter declared count out) fun ms =>
      (∀ name ∈ declared, Members.get? name ms = Members.get? name out) ∧
      ∀ m ∈ ms, m ∈ out ∨ R m.2 := by
  induction count generalizing out with
  | zero => exact .pure ⟨fun _ _ => rfl, fun m hm => .inl hm⟩
  | succ count ih =>
    have more := ih fun key _ => children key (Nat.succ_ne_zero count)
    unfold drawIndexed
    refine Meets.any.bind fun key _ => ?_
    split
    · exact more out
    · rename_i hfree
      refine (children key (Nat.succ_ne_zero count)).bind fun v hv =>
        (more _).mono fun ms hms => ?_
      obtain ⟨kept, drawn⟩ := hms
      refine ⟨fun name hname => ?_, fun m hm => ?_⟩
      · have hne : name ≠ key := by
          rintro rfl
          exact hfree (Bool.or_eq_true_iff.mpr (.inr (List.contains_iff_mem.mpr hname)))
        rw [kept name hname, Members.get?_put, if_neg hne]
      · rcases drawn m hm with hm | hm
        · rcases Members.mem_put hm with rfl | hm
          · exact .inr hv
          · exact .inl hm
        · exact .inr hm

/-- What is drawn for the fixed positions of a tuple. -/
theorem meets_drawFixed {P : NodeId → Value → Prop} {fixed : List NodeId}
    (children : ∀ i, ∀ id ∈ fixed, ((x.arena.node id).optional = true → x.minimal site = false) →
      Meets fails (child (site.part (.element i)) id) (P id)) (i : Nat) :
    Meets fails (drawFixed x child site i fixed) fun drawn : List Value × Bool =>
      (∀ (k : Nat) v, drawn.1[k]? = some v → ∃ id, fixed[k]? = some id ∧ P id v) ∧
      (drawn.2 = true → drawn.1.length = fixed.length) ∧
      (drawn.2 = false → ∃ id, fixed[drawn.1.length]? = some id ∧
        (x.arena.node id).optional = true) := by
  induction fixed generalizing i with
  | nil =>
    exact .pure ⟨fun k v hv => absurd hv (Option.some_ne_none v).symm, fun _ => rfl,
      fun h => absurd h.symm Bool.false_ne_true⟩
  | cons id rest ih =>
    unfold drawFixed
    dsimp only
    refine Context.meets_included fun included hfree hleft => ?_
    split
    · rename_i hin
      refine (children i id List.mem_cons_self (hfree hin)).bind fun v hv =>
        (ih (fun j id' hid' => children j id' (List.mem_cons_of_mem _ hid')) (i + 1)).bind
          fun drawn hdrawn => .pure ?_
      obtain ⟨elements, complete, left⟩ := hdrawn
      refine ⟨fun k w hw => ?_, fun h => ?_, fun h => left h⟩
      · cases k with
        | zero =>
          obtain rfl := Option.some.inj hw
          exact ⟨id, rfl, hv⟩
        | succ k => exact elements k w hw
      · exact congrArg (· + 1) (complete h)
    · rename_i hout
      exact .pure ⟨fun k v hv => absurd hv (Option.some_ne_none v).symm,
        fun h => absurd h Bool.false_ne_true, fun _ => ⟨id, rfl, hleft (Bool.eq_false_iff.mpr hout)⟩⟩

end Mock

/-! ## Nodes -/

/-- The child of whose instances any number may stand side by side. -/
def Shape.repeated? : Shape → Option NodeId
  | array id | parameter _ id true => some id
  | _ => none

/-- The child that is drawn in place of a node. -/
def Shape.behind? : Shape → Option NodeId
  | property _ id | tupleMember id | indexSignature _ id | rest id | parameter _ id false => some id
  | _ => none

theorem Shape.eq_of_repeated? {s : Shape} {id : NodeId} (h : s.repeated? = some id) :
    s = .array id ∨ ∃ name, s = .parameter name id true := by
  unfold repeated? at h
  split at h <;> cases h
  · exact .inl rfl
  · exact .inr ⟨_, rfl⟩

theorem Shape.children_of_behind? {s : Shape} {id : NodeId} (h : s.behind? = some id) :
    s.children = [id] := by
  unfold behind? at h
  split at h <;> cases h <;> rfl

namespace Mock

/-- The children that a draw of a node may come to. A minimal draw leaves out all that may be. -/
inductive Context.Draws (x : Context) (minimal : Bool) (n : Node) : NodeId → Prop
  | repeated {id} (h : n.shape.repeated? = some id) (free : minimal = false) : Draws x minimal n id
  | behind {id} (h : n.shape.behind? = some id) : Draws x minimal n id
  | property {props index className p} (h : n.shape = .object props index className)
      (mem : p ∈ x.arena.properties props) (free : p.optional = true → minimal = false) :
      Draws x minimal n p.id
  | index {props index className id filter} (h : n.shape = .object props index className)
      (found : x.arena.indexFilter index = some (id, filter)) (free : minimal = false) :
      Draws x minimal n id
  | position {members id} (h : n.shape = .tuple members) (mem : id ∈ (x.arena.splitTuple members).1)
      (free : (x.arena.node id).optional = true → minimal = false) : Draws x minimal n id
  | rest {members id} (h : n.shape = .tuple members)
      (last : (x.arena.splitTuple members).2 = some id) (free : minimal = false) :
      Draws x minimal n id
  | member {members id} (h : n.shape = .union members) (picked : x.Picks minimal members id) :
      Draws x minimal n id

/-- How a value that is drawn for a node is put together from values drawn for its children. -/
inductive Context.Built (x : Context) (P : NodeId → Value → Prop) (n : Node) : Value → Prop
  | atom {at' v} (h : n.shape = .atom at') (holds : at'.namesNaN = false → at'.holds v = true) :
      Built x P n v
  | array {id items} (h : n.shape.repeated? = some id) (all : ∀ v ∈ items, P id v) :
      Built x P n (.array items)
  | behind {id v} (h : n.shape.behind? = some id) (drawn : P id v) : Built x P n v
  | object {props index className members} (h : n.shape = .object props index className)
      (declared : ((x.arena.properties props).map (·.name)).Nodup →
        ∀ p ∈ x.arena.properties props,
          (p.optional = true ∧ Members.get? p.name members = none) ∨
            ∃ v, Members.get? p.name members = some v ∧ P p.id v)
      (others : ∀ m ∈ members, m.1 ∈ (x.arena.properties props).map (·.name) ∨
        ∃ id filter, x.arena.indexFilter index = some (id, filter) ∧ P id m.2) :
      Built x P n (.object members)
  | tuple {members items} (h : n.shape = .tuple members)
      (fixed : ∀ (i : Nat) v, items[i]? = some v →
        (∃ id, (x.arena.splitTuple members).1[i]? = some id ∧ P id v) ∨
          (x.arena.splitTuple members).1.length ≤ i ∧
            ∃ id, (x.arena.splitTuple members).2 = some id ∧ P id v)
      (left : items.length < (x.arena.splitTuple members).1.length →
        ∃ id, (x.arena.splitTuple members).1[items.length]? = some id ∧
          (x.arena.node id).optional = true) :
      Built x P n (.array items)
  | union {members id v} (h : n.shape = .union members) (mem : id ∈ members) (drawn : P id v) :
      Built x P n v

section Nodes

variable {x : Context} {child : Site → NodeId → Draw Value} {site : Site} {n : Node}
  {fails : CompileError → Prop} {P : NodeId → Value → Prop}

theorem meets_drawArray {id : NodeId} {R : Value → Prop}
    (children : ∀ i, x.minimal site = false → Meets fails (child (site.part (.element i)) id) R) :
    Meets fails (drawArray x child site id) fun v => ∃ items, v = .array items ∧ ∀ w ∈ items, R w := by
  refine (Meets.lift (Context.gives_count _)).bind fun count hcount => ?_
  refine (meets_drawElements fun i h => children i (hcount h)).bind fun items hitems => ?_
  exact .pure ⟨items, rfl, hitems⟩

theorem meets_drawObject {props : List NodeId} {index : Option NodeId} {className : Option String}
    (h : n.shape = .object props index className)
    (children : ∀ access id, x.Draws (x.minimal site) n id →
      Meets fails (child (site.part access) id) (P id)) :
    Meets fails (drawObject x child site props index) (x.Built P n) := by
  unfold drawObject
  refine (meets_drawProperties (fun p hp hfree => children _ _ (.property h hp hfree)) []).bind
    fun out hout => ?_
  obtain ⟨-, keys, drawn⟩ := hout
  have keys (m) (hm : m ∈ out) : m.1 ∈ (x.arena.properties props).map (·.name) :=
    (keys m hm).resolve_left List.not_mem_nil
  cases hindex : x.arena.indexFilter index with
  | none =>
    exact .pure (.object h (fun nodup p hp => drawn nodup p hp rfl) fun m hm => .inl (keys m hm))
  | some found =>
    obtain ⟨id, filter⟩ := found
    refine (Meets.lift (Context.gives_count _)).bind fun count hcount => ?_
    refine (meets_drawIndexed (R := P id) count
      (fun key hne => children _ _ (.index h hindex (hcount hne))) out).bind fun ms hms => .pure ?_
    obtain ⟨kept, indexed⟩ := hms
    refine .object h (fun nodup p hp => ?_) fun m hm => ?_
    · rw [kept p.name (List.mem_map_of_mem hp)]
      exact drawn nodup p hp rfl
    · rcases indexed m hm with hm | hm
      · exact .inl (keys m hm)
      · exact .inr ⟨id, filter, hindex, hm⟩

theorem meets_drawTuple {members : List NodeId} (h : n.shape = .tuple members)
    (children : ∀ access id, x.Draws (x.minimal site) n id →
      Meets fails (child (site.part access) id) (P id)) :
    Meets fails (drawTuple x child site members) (x.Built P n) := by
  unfold drawTuple
  dsimp only
  refine (meets_drawFixed (fun i id hid hfree => children _ _ (.position h hid hfree)) 0).bind
    fun drawn hdrawn => ?_
  obtain ⟨items, complete⟩ := drawn
  obtain ⟨elements, hcomplete, left⟩ := hdrawn
  dsimp only at elements hcomplete left ⊢
  have short : Meets fails (pure (.array items) : Draw Value) (x.Built P n) := by
    refine .pure (.tuple h (fun i v hv => .inl (elements i v hv)) fun hlt => left ?_)
    refine Bool.eq_false_iff.mpr fun hc => ?_
    exact absurd (hcomplete hc) hlt.ne
  split
  · rename_i id hrest
    have hlength := hcomplete rfl
    refine (Meets.lift (Context.gives_count _)).bind fun count hcount => ?_
    refine (meets_drawElements (R := P id) fun i hne =>
      children _ _ (.rest h hrest (hcount hne))).bind fun others hothers => .pure ?_
    refine .tuple h (fun i v hv => ?_) fun hlt => ?_
    · by_cases hi : i < items.length
      · rw [List.getElem?_append_left hi] at hv
        exact .inl (elements i v hv)
      · rw [List.getElem?_append_right (not_lt.mp hi)] at hv
        exact .inr ⟨hlength ▸ not_lt.mp hi, id, hrest, hothers v (List.mem_of_getElem? hv)⟩
    · rw [List.length_append, hlength] at hlt
      exact absurd hlt (by omega)
  · exact short

/-- **A draw of a node is put together from draws of children that it may come to.** -/
theorem meets_drawNode
    (uninhabited : x.arena.height n = none → fails (.uninhabited site.text))
    (functions : ∀ f, n.shape = .function f → fails (.functionNotData "mock" site.text))
    (promises : ∀ id, n.shape = .promise id → fails (.promiseNotData "mock" site.text))
    (children : ∀ site' id, site'.depth = site.depth → x.Draws (x.minimal site) n id →
      Meets fails (child site' id) (P id)) :
    Meets fails (drawNode x child site n) (x.Built P n) := by
  have parts (access id) (h : x.Draws (x.minimal site) n id) :
      Meets fails (child (site.part access) id) (P id) := children _ _ rfl h
  have behind {id} (h : n.shape.behind? = some id) : Meets fails (child site id) (x.Built P n) :=
    (children site id rfl (.behind h)).mono fun v hv => .behind h hv
  have repeated {id} (h : n.shape.repeated? = some id) :
      Meets fails (drawArray x child site id) (x.Built P n) := by
    refine (meets_drawArray fun i hfree => parts _ _ (.repeated h hfree)).mono fun v hv => ?_
    obtain ⟨items, rfl, hitems⟩ := hv
    exact .array h hitems
  unfold drawNode
  split <;> rename_i hshape
  · refine (meets_drawAtom x site fun hnone => uninhabited ?_).mono fun v hv => .atom hshape hv
    rcases hnone with rfl | rfl <;> simp only [Arena.height, hshape]
  · exact repeated (by rw [hshape]; rfl)
  · exact repeated (by rw [hshape]; rfl)
  · exact behind (by rw [hshape]; rfl)
  · exact behind (by rw [hshape]; rfl)
  · exact behind (by rw [hshape]; rfl)
  · exact behind (by rw [hshape]; rfl)
  · exact behind (by rw [hshape]; rfl)
  · exact .throw (promises _ hshape)
  · exact meets_drawObject hshape parts
  · exact meets_drawTuple hshape parts
  · refine (Context.meets_pickMember fun hnone => uninhabited ?_).bind fun id hid => ?_
    · have hleast : leastHeight (_ : List (Option Nat)) = none :=
        leastHeight_eq_none (List.forall_mem_map.mpr hnone)
      simp only [Arena.height, hshape, hleast, Option.map_none]
    · exact (children site id rfl (.member hshape hid)).mono fun v hv => .union hshape hid.1 hv
  · exact .throw (functions _ hshape)

end Nodes

end Mock

end Typeforge
