/-
# `Typeforge.Proofs.Running.Ending` — the bound on calls is never in the way

A run may make only so many calls inside one another.  The bound is no part of
what a function does: it is there because a run may not end at all.  So it has to
be shown that no run meets the bound that would have ended without it.

A run on a value comes to calls on that value and on parts of it, which have fewer
levels.  While the value stays the same, no function is called twice: had it
called itself on the same value, the inner call would need as many calls as the
outer one, and there would be no least number of calls that is enough.  So between
one level and the next there are no more calls than functions.
-/
import Typeforge.Proofs.Running.Emits
import Typeforge.Proofs.Types.Deciding
import Typeforge.Proofs.Types.Parts

namespace Typeforge

/-! ## Room for calls -/

section Room

variable {m n : Nat} {names : List String} {P Q : String → Prop}

open Classical in
/-- How many calls inside one another a run may need on what is of a size, when every size takes as
many calls as there are names, and the last one the names with a property. -/
noncomputable def callRoom (n : Nat) (names : List String) (P : String → Prop) : Nat :=
  n * (names.length + 1) + names.countP (P ·)

theorem callRoom_lt_of_lt (h : m < n) : callRoom m names P < callRoom n names Q := by
  classical
  have hcount : names.countP (P ·) ≤ names.length := List.countP_le_length
  have hsizes := Nat.mul_le_mul_right (names.length + 1) (Nat.succ_le_of_lt h)
  rw [Nat.succ_mul] at hsizes
  rw [callRoom, callRoom]
  omega

theorem callRoom_le (h : ∀ name, P name → Q name) : callRoom n names P ≤ callRoom n names Q := by
  classical
  refine Nat.add_le_add_left (List.countP_mono_left fun name _ hname => ?_) _
  exact decide_eq_true (h name (of_decide_eq_true hname))

/-- One more name needs one more call. -/
theorem callRoom_lt (h : ∀ name, P name → Q name) {name : String} (hname : name ∈ names)
    (hQ : Q name) (hP : ¬ P name) : callRoom n names P < callRoom n names Q := by
  classical
  refine Nat.add_lt_add_left ?_ _
  obtain ⟨front, back, rfl⟩ := List.append_of_mem hname
  have hle (names : List String) : names.countP (P ·) ≤ names.countP (Q ·) :=
    List.countP_mono_left fun name _ hname => decide_eq_true (h name (of_decide_eq_true hname))
  have hfront := hle front
  have hback := hle back
  simp only [List.countP_append, List.countP_cons, decide_eq_true hQ, decide_eq_false hP]
  simp only [Bool.false_eq_true, if_false, if_true]
  omega

theorem callRoom_lt_mul : callRoom n names P < (n + 1) * (names.length + 1) := by
  classical
  have hcount : names.countP (P ·) ≤ names.length := List.countP_le_length
  rw [callRoom, Nat.succ_mul]
  omega

end Room

/-! ## Levels -/

namespace Value

/-- The levels of a value, itself included. What is not there has none. -/
def levels : Value → Nat
  | undefined => 0
  | v => v.depth + 1

/-- What a run on a value may come to: the value itself, or what has fewer levels. -/
def Under (w v : Value) : Prop := w = v ∨ w.levels < v.levels

theorem Under.refl (v : Value) : v.Under v := .inl rfl

theorem Under.trans {u w v : Value} (h : u.Under w) (h' : w.Under v) : u.Under v := by
  rcases h' with rfl | h'
  · exact h
  · rcases h with rfl | h
    · exact .inr h'
    · exact .inr (h.trans h')

theorem levels_le (v : Value) : v.levels ≤ v.depth + 1 := by
  cases v <;> simp [levels]

theorem levels_undefined_lt {v : Value} (h : v ≠ undefined) : undefined.levels < v.levels := by
  cases v <;> simp_all [levels]

theorem levels_item_lt {items : List Value} {w : Value} (hw : w ∈ items) :
    w.levels < (array items).levels := by
  have hdepth := depth_le_of_mem_items hw
  have hlevels := w.levels_le
  change w.levels < itemsDepth items + 1 + 1
  omega

theorem levels_member_lt {members : List (String × Value)} {m : String × Value}
    (hm : m ∈ members) : m.2.levels < (object members).levels := by
  have hdepth := depth_le_of_mem_members (k := m.1) (v := m.2) hm
  have hlevels := m.2.levels_le
  change m.2.levels < membersDepth members + 1 + 1
  omega

/-- What an access reads of anything is smaller: a part, or nothing. -/
theorem levels_read_lt (access : Access) {v : Value} (hv : v ≠ undefined) :
    (access.read v).levels < v.levels := by
  have absent := levels_undefined_lt hv
  cases access with
  | member name =>
    cases v with
    | object members =>
      simp only [Access.read, Value.member]
      cases hget : Members.get? name members with
      | none => exact absent
      | some w => exact levels_member_lt (m := (name, w)) (Members.mem_of_get? hget)
    | _ => exact absent
  | element i =>
    cases v with
    | array items =>
      simp only [Access.read, Value.element]
      cases hget : items[i]? with
      | none => exact absent
      | some w => exact levels_item_lt (List.mem_of_getElem? hget)
    | _ => exact absent

/-- What an access reads is a part, or nothing. -/
theorem under_read (access : Access) (v : Value) : (access.read v).Under v := by
  by_cases hv : v = undefined
  · subst hv
    cases access <;> exact .inl rfl
  · exact .inr (levels_read_lt access hv)

/-- How many calls inside one another a run on a value may need, when the functions that it may call
on the value itself are those with a property. -/
noncomputable def room (v : Value) (names : List String) (P : String → Prop) : Nat :=
  callRoom v.levels names P

variable {v w : Value} {names : List String} {P Q : String → Prop}

theorem room_lt_of_levels (h : w.levels < v.levels) : w.room names P < v.room names Q :=
  callRoom_lt_of_lt h

theorem room_le (h : ∀ name, P name → Q name) : v.room names P ≤ v.room names Q := callRoom_le h

/-- One more function that may be called needs one more call. -/
theorem room_lt (h : ∀ name, P name → Q name) {name : String} (hname : name ∈ names) (hQ : Q name)
    (hP : ¬ P name) : v.room names P < v.room names Q := callRoom_lt h hname hQ hP

theorem succ_room_lt_steps {p : Program} (h : names.length ≤ p.functions.length) :
    v.room names P + 1 < p.steps v := by
  have hroom : v.room names P < (v.levels + 1) * (names.length + 1) := callRoom_lt_mul
  have hlevels := Nat.mul_le_mul (Nat.succ_le_succ v.levels_le) (Nat.add_le_add_right h 1)
  have hlt : v.room names P < (v.depth + 2) * (p.functions.length + 1) := hroom.trans_le hlevels
  rw [Program.steps, Program.growth]
  omega

theorem room_lt_steps {p : Program} (h : names.length ≤ p.functions.length) :
    v.room names P < p.steps v := Nat.lt_of_succ_lt (succ_room_lt_steps h)

end Value

/-! ## Tests -/

namespace Check

variable {call call' : String → Value → Option Bool}

mutual

/-- A test that comes to an answer comes to the same one where calls on the value and below it do. -/
theorem run_known : ∀ (c : Check) (v : Value),
    (∀ name w, w.Under v → Known (call name w) (call' name w)) →
    Known (c.run call v) (c.run call' v)
  | always, _, _ | is _, _, _ | finiteNumber, _, _ | equals _, _, _ | anyOf _, _, _
  | maxLength _, _, _ => .rfl
  | all checks, v, h => runAll_known checks v h
  | any checks, v, h => runAny_known checks v h
  | part access optional c, v, h => by
    rw [run, run]
    split
    · exact .rfl
    · exact run_known c _ fun name w hw => h name w (hw.trans (Value.under_read access v))
  | each start c, v, h => by
    cases v with
    | array items =>
      refine .allM fun w hw => run_known c w fun name x hx => h name x (hx.trans (.inr ?_))
      exact Value.levels_item_lt (List.mem_of_mem_drop hw)
    | _ => exact .rfl
  | eachKey filter skip c, v, h => by
    cases v with
    | object members =>
      refine .allM fun m hm => run_known c m.2 fun name x hx => h name x (hx.trans (.inr ?_))
      exact Value.levels_member_lt (List.mem_filter.mp hm).1
    | _ => exact .rfl
  | .call name, v, h => h name v (.refl v)

theorem runAll_known : ∀ (checks : List Check) (v : Value),
    (∀ name w, w.Under v → Known (call name w) (call' name w)) →
    Known (runAll call checks v) (runAll call' checks v)
  | [], _, _ => .rfl
  | c :: rest, v, h => by
    intro b hb
    rw [runAll] at hb ⊢
    cases hc : c.run call v with
    | none =>
      rw [hc] at hb
      cases hb
    | some answer =>
      rw [hc] at hb
      rw [run_known c v h answer hc]
      cases answer with
      | false => exact hb
      | true => exact runAll_known rest v h b hb

theorem runAny_known : ∀ (checks : List Check) (v : Value),
    (∀ name w, w.Under v → Known (call name w) (call' name w)) →
    Known (runAny call checks v) (runAny call' checks v)
  | [], _, _ => .rfl
  | c :: rest, v, h => by
    intro b hb
    rw [runAny] at hb ⊢
    cases hc : c.run call v with
    | none =>
      rw [hc] at hb
      cases hb
    | some answer =>
      rw [hc] at hb
      rw [run_known c v h answer hc]
      cases answer with
      | true => exact hb
      | false => exact runAny_known rest v h b hb

end

end Check

namespace Program

variable {p : Program}

/-- The identities of the functions of a program. -/
def names (p : Program) : List String := p.functions.map (·.key.identity)

theorem length_names (p : Program) : p.names.length = p.functions.length := List.length_map ..

theorem mem_names {key : FunctionKey} {body : Body} (h : p.body? key = some body) :
    key.identity ∈ p.names := by
  obtain ⟨f, hf, -⟩ := Option.map_eq_some_iff.mp h
  have hkey : f.key = key := by simpa using List.find?_some hf
  exact hkey ▸ List.mem_map_of_mem (List.mem_of_find?_eq_some hf)

theorem checkCall_succ (steps : Nat) (name : String) (v : Value) :
    Known (p.checkCall steps name v) (p.checkCall (steps + 1) name v) := by
  induction steps generalizing name v with
  | zero => exact .none
  | succ steps ih =>
    rw [checkCall, checkCall]
    split
    · exact Check.run_known _ v fun name w _ => ih name w
    · exact .rfl

/-- A call that ends with some number of calls ends with as many as there is room for. -/
theorem checkCall_room (steps : Nat) : ∀ name v {bound : Nat},
    v.room p.names (fun name => (p.checkCall steps name v).isSome) < bound →
    Known (p.checkCall steps name v) (p.checkCall bound name v) := by
  induction steps with
  | zero => exact fun _ _ _ _ => .none
  | succ steps ih =>
    intro name v bound hroom
    have more (name : String) (h : (p.checkCall steps name v).isSome) :
        (p.checkCall (steps + 1) name v).isSome := by
      obtain ⟨b, hb⟩ := Option.isSome_iff_exists.mp h
      rw [checkCall_succ steps name v b hb]
      rfl
    cases hcall : p.checkCall steps name v with
    | some b =>
      -- one call less was enough already
      rw [checkCall_succ steps name v b hcall]
      intro b' hb'
      rw [ih name v (lt_of_le_of_lt (Value.room_le more) hroom) b hcall]
      exact hb'
    | none =>
      obtain ⟨bound, rfl⟩ : ∃ k, bound = k + 1 := ⟨bound - 1, by omega⟩
      rw [checkCall, checkCall]
      cases hbody : p.body? ⟨name, .isType⟩ with
      | none => exact .rfl
      | some body =>
        cases body with
        | isType c =>
          intro b hb
          have hsome : (p.checkCall (steps + 1) name v).isSome := by
            rw [checkCall, hbody]
            exact Option.isSome_iff_exists.mpr ⟨b, hb⟩
          have hnone : ¬ (p.checkCall steps name v).isSome := by
            rw [hcall]
            exact Bool.false_ne_true
          have hless := Value.room_lt (v := v) more (mem_names hbody) hsome hnone
          refine Check.run_known c v (fun name w hw => ih name w ?_) b hb
          rcases hw with rfl | hw
          · omega
          · have hbelow : w.room p.names (fun name => (p.checkCall steps name w).isSome) <
                v.room p.names (fun name => (p.checkCall steps name v).isSome) :=
              Value.room_lt_of_levels hw
            omega
        | _ => exact .rfl

/-- **No test meets the bound on calls** that ends with any number of calls. -/
theorem check_ends {c : Check} {v : Value} (steps : Nat) :
    Known (c.run (p.checkCall steps) v) (p.check c v) := by
  refine Check.run_known c v fun name w hw => checkCall_room steps name w ?_
  rcases hw with rfl | hw
  · exact Value.room_lt_steps p.length_names.le
  · exact (Value.room_lt_of_levels (Q := fun _ => True) hw).trans
      (Value.room_lt_steps p.length_names.le)

end Program

end Typeforge
