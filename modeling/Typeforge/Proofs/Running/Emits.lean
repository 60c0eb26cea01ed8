/-
# `Typeforge.Proofs.Running.Emits` — emitters write what their types say

Whatever text an emitter comes to without being cut off is the text of the
value by the unfolded type, at every depth from some depth on that is the same
for all values.  Whether a value is left out is decided first, by a run of its
own, and the same holds of that.
-/
import Typeforge.Proofs.Running.Transforms
import Typeforge.Proofs.Types.Written

namespace Typeforge

/-! ## Answers that may be cut off -/

/-- Whether a run has the same answer as another, names of unions apart, or is cut off. -/
def Settles {α : Type} (r s : Except Halt α) : Prop :=
  r = .error .cutOff ∨ r.mapError Halt.unnamed = s

namespace Settles

variable {α β : Type} {r s : Except Halt α}

theorem ok (x : α) : Settles (.ok x) (.ok x) := .inr rfl

theorem bind {f g : α → Except Halt β} (h : Settles r s) (hf : ∀ x, Settles (f x) (g x)) :
    Settles (r >>= f) (s >>= g) := by
  rcases h with rfl | rfl
  · exact .inl rfl
  · cases r with
    | error halt => exact .inr rfl
    | ok x => exact hf x

theorem map (h : Settles r s) (f : α → β) : Settles (r.map f) (s.map f) := by
  rcases h with rfl | rfl
  · exact .inl rfl
  · cases r with
    | error halt => exact .inr rfl
    | ok x => exact .inr rfl

end Settles

/-! ## Plain text -/

namespace Written

/-- Writing that stops only at big integers. -/
def Plain (w : Written) : Prop := ∀ e, w.stop = some e → ∃ n, e = .bigIntNotSerializable n

theorem Plain.ok (text : String) : (Written.ok text).Plain := fun _ h => nomatch h

theorem Plain.append {w w' : Written} (h : w.Plain) (h' : w'.Plain) : (w ++ w').Plain := by
  intro e he
  change (w.andThen w').stop = some e at he
  unfold andThen at he
  split at he
  · exact h e he
  · exact h' e he

theorem Plain.settles {w : Written} (h : w.Plain) : Settles w.finish w.finish := by
  refine .inr ?_
  unfold finish toExcept
  cases hstop : w.stop with
  | none => rfl
  | some e =>
    obtain ⟨n, rfl⟩ := h e hstop
    rfl

end Written

namespace Value

open Written

mutual

theorem plain_jsonText : ∀ v : Value, v.jsonText.Plain
  | undefined | function _ | symbol _ | null | bool _ | number _ | string _ | regexp _ | date _ =>
    Plain.ok _
  | bigint n => fun _ h => ⟨n, (Option.some.inj h).symm⟩
  | array items => ((Plain.ok _).append (plain_jsonItems "" items)).append (Plain.ok _)
  | object members => ((Plain.ok _).append (plain_jsonMembers "" members)).append (Plain.ok _)

theorem plain_jsonItems (comma : String) : ∀ items, (jsonItems comma items).Plain
  | [] => Plain.ok _
  | v :: rest =>
    ((Plain.ok _).append (plain_jsonText v)).append (plain_jsonItems "," rest)

theorem plain_jsonMembers (comma : String) : ∀ members, (jsonMembers comma members).Plain
  | [] => Plain.ok _
  | (k, v) :: rest => by
    rw [jsonMembers]
    split
    · exact plain_jsonMembers comma rest
    · exact ((Plain.ok _).append (plain_jsonText v)).append (plain_jsonMembers "," rest)

end

theorem settles_finish (v : Value) : Settles v.jsonText.finish v.jsonText.finish :=
  (plain_jsonText v).settles

end Value

theorem Value.depth_le_of_mem_items {items : List Value} {v : Value} (h : v ∈ items) :
    v.depth ≤ itemsDepth items := by
  induction items with
  | nil => cases h
  | cons w rest ih =>
    rw [itemsDepth]
    rcases List.mem_cons.mp h with rfl | h
    · exact Nat.le_max_left _ _
    · exact (ih h).trans (Nat.le_max_right _ _)

theorem Value.depth_le_of_mem_members {members : List (String × Value)} {k : String} {v : Value}
    (h : (k, v) ∈ members) : v.depth ≤ membersDepth members := by
  induction members with
  | nil => cases h
  | cons m rest ih =>
    obtain ⟨l, w⟩ := m
    rw [membersDepth]
    rcases List.mem_cons.mp h with h | h
    · cases h
      exact Nat.le_max_left _ _
    · exact (ih h).trans (Nat.le_max_right _ _)

namespace Emit

variable {x : Context} {v : Value}

theorem settles_placed {emit : Emit} {skips : TypeTree → Value → Bool}
    {f : TypeTree → Value → Except Halt String} {u : TypeTree}
    (homits : emit.omits x.omits v = none ∨ emit.omits x.omits v = some (skips u v))
    (hrun : Settles (emit.run x v) (f u v)) :
    Settles (placed x emit v (emit.run x v)) (TypeTree.placed skips f u v) := by
  unfold placed TypeTree.placed
  rcases homits with h | h
  · rw [h]
    exact .inl rfl
  · rw [h]
    cases skips u v with
    | true => exact .ok none
    | false => exact hrun.map some

theorem settles_plain (x : Context) (v : Value) : Settles (plain x v) v.plainText := by
  have homits : omits x.omits json v = some v.isOmitted := by
    unfold omits
    cases v.isOmitted <;> rfl
  unfold plain placed Value.plainText
  rw [homits]
  cases v.isOmitted with
  | true => exact .ok none
  | false => exact v.settles_finish.map some

theorem settles_writeMembers {write write' : String → Value → Except Halt (Option String)}
    {members : List (String × Value)}
    (h : ∀ k v, (k, v) ∈ members → Settles (write k v) (write' k v)) :
    Settles (writeMembers write members) (writeMembers write' members) := by
  induction members with
  | nil => exact .ok []
  | cons m rest ih =>
    obtain ⟨k, v⟩ := m
    refine (h k v List.mem_cons_self).bind fun text => ?_
    refine (ih fun k v hmem => h k v (List.mem_cons_of_mem _ hmem)).bind fun others => ?_
    cases text <;> exact .ok _

theorem settles_writeItems {write write' : Nat → Value → Except Halt (Option String)}
    {items : List Value} (h : ∀ i, ∀ v ∈ items, Settles (write i v) (write' i v)) (i : Nat) :
    Settles (writeItems write i items) (writeItems write' i items) := by
  induction items generalizing i with
  | nil => exact .ok []
  | cons v rest ih =>
    refine (h i v List.mem_cons_self).bind fun text => ?_
    exact (ih (fun i v hmem => h i v (List.mem_cons_of_mem _ hmem)) (i + 1)).bind
      fun others => .ok _

/-! ## The code of nodes -/

section Nodes

variable {a : Arena} {skips : TypeTree → Value → Bool} {f : TypeTree → Value → Except Halt String}
  {child : NodeId → Emit → Prop} {id : NodeId} {emit : Emit} {depth : Nat}

/-- The code of children writes what their types say, and leaves out what they leave out, on values
up to a depth. -/
structure ChildrenWrite (x : Context) (a : Arena) (depth : Nat) (child : NodeId → Emit → Prop)
    (skips : TypeTree → Value → Bool) (f : TypeTree → Value → Except Halt String) : Prop where
  omits : ∀ id emit, child id emit → ∀ v, v.depth ≤ depth → emit.omits x.omits v = none ∨
    emit.omits x.omits v = some (skips (a.unfolding id) v)
  run : ∀ id emit, child id emit → ∀ v, v.depth ≤ depth →
    Settles (emit.run x v) (f (a.unfolding id) v)

theorem ChildrenWrite.placed (h : ChildrenWrite x a depth child skips f) {id : NodeId}
    {emit : Emit} (hemit : child id emit) (hv : v.depth ≤ depth) :
    Settles (Emit.placed x emit v (emit.run x v))
      (TypeTree.placed skips f (a.unfolding id) v) :=
  settles_placed (h.omits id emit hemit v hv) (h.run id emit hemit v hv)

theorem settles_declared (hchild : ChildrenWrite x a depth child skips f) {props : List Arena.Property}
    {members : List (MemberEmit Emit)}
    (hmembers : List.Forall₂ (fun p m => ∃ emit, child p.id emit ∧
      m = ⟨p.name, p.optional, emit⟩) props members)
    {index : Option (NodeId × KeyFilter)} {others : Option (KeyFilter × Emit)}
    (hothers : Compile.Others index (fun y emit => child y.1 emit)
      (fun y emit => some (y.2, emit)) none others) (k : String) (hv : v.depth ≤ depth) :
    Settles
      (match declared x k v members with
        | some text => text
        | none => (indexed x k v others).getD (plain x v))
      (TypeTree.memberText skips f (props.map fun p => ⟨p.name, p.optional, a.unfolding p.id⟩)
        (index.map fun y => (y.2, a.unfolding y.1)) k v) := by
  induction hmembers with
  | nil =>
    simp only [declared, TypeTree.memberText, List.map_nil, List.find?_nil]
    cases hothers with
    | absent h =>
      subst h
      exact settles_plain x v
    | @present y emit h hemit =>
      subst h
      simp only [indexed, Option.map_some]
      cases y.2.accepts k with
      | true => exact hchild.placed hemit hv
      | false => exact settles_plain x v
  | @cons p m props members hm _ ih =>
    obtain ⟨emit, hemit, rfl⟩ := hm
    unfold TypeTree.memberText at ih ⊢
    simp only [declared, List.map_cons, List.find?_cons]
    by_cases hname : p.name = k
    · simp only [hname, if_true, decide_true]
      cases p.optional && v.isUndefined with
      | true => exact .ok none
      | false => exact hchild.placed hemit hv
    · simp only [hname, if_false, decide_false]
      exact ih

theorem settles_element (hchild : ChildrenWrite x a depth child skips f) {fixed : List NodeId}
    {elements : List Emit} (helements : List.Forall₂ child fixed elements) {rest : Option NodeId}
    {others : Option Emit}
    (hothers : Compile.Others rest child (fun _ emit => some emit) none others) (i : Nat)
    (hv : v.depth ≤ depth) :
    Settles
      (match Emit.fixed x i v elements with
        | some text => text
        | none => (Emit.others x v others).getD (plain x v))
      (TypeTree.elementText skips f (fixed.map a.unfolding) (rest.map a.unfolding) i v) := by
  induction helements generalizing i with
  | nil =>
    simp only [Emit.fixed, TypeTree.elementText, List.map_nil, List.getElem?_nil]
    cases hothers with
    | absent h =>
      subst h
      exact settles_plain x v
    | present h hemit =>
      subst h
      exact hchild.placed hemit hv
  | cons hemit _ ih =>
    unfold TypeTree.elementText at ih ⊢
    cases i with
    | zero => exact hchild.placed hemit hv
    | succ i =>
      simp only [Emit.fixed, List.map_cons, List.getElem?_cons_succ]
      exact ih i

theorem settles_tagged (hchild : ChildrenWrite x a depth child skips f) {check : NodeId → Check → Prop}
    (hcheck : ∀ id c, check id c → ∀ v b, x.check c v = some b → Judges (a.unfolding id) v b)
    {members : List NodeId} {arms : List (Check × Emit)}
    (harms : List.Forall₂ (fun id arm => check id arm.1 ∧ child id arm.2) members arms)
    (union : String) (i : Nat) (hv : v.depth ≤ depth) :
    Settles (tagged x union i v arms)
      (TypeTree.firstText skips f v i (members.map a.unfolding)) := by
  induction harms generalizing i with
  | nil =>
    simp only [tagged, List.map_nil, TypeTree.firstText]
    exact .inr rfl
  | @cons id arm members arms harm _ ih =>
    obtain ⟨check, emit⟩ := arm
    obtain ⟨hcheckArm, hemit⟩ := harm
    simp only [tagged, List.map_cons, TypeTree.firstText]
    cases hc : x.check check v with
    | none => exact .inl rfl
    | some b =>
      have hjudges := hcheck _ _ hcheckArm v b hc
      cases b with
      | true =>
        rw [if_pos hjudges]
        exact (hchild.placed hemit hv).map _
      | false =>
        rw [if_neg fun h => h.not_both hjudges]
        exact ih (i + 1)

/-- The emitter of a node writes what its type says, if those of its children do. -/
theorem settles_emitNode (hchild : ChildrenWrite x a depth child skips f)
    {check : NodeId → Check → Prop}
    (hcheck : ∀ id c, check id c → ∀ v b, x.check c v = some b → Judges (a.unfolding id) v b)
    (hself : (a.node id).standsFor? = none)
    (h : Compile.EmitNode a check child (a.node id) emit) (hv : v.depth ≤ depth) :
    Settles (emit.run x v) (TypeTree.content skips f (a.unfolding id) v) := by
  cases h with
  | @atom y h never =>
    rw [Arena.content_atom h never, Compile.atomEmit]
    cases y.codec? with
    | none => exact v.settles_finish
    | some codec => exact (codec.encode v).settles_finish
  | array h hemit =>
    rw [Arena.content_array h]
    cases v with
    | array items =>
      refine (settles_writeItems (fun i w hw => ?_) 0).map bracketed
      exact hchild.placed hemit (Value.depth_le_of_mem_items hw |>.trans (Nat.le_of_succ_le hv))
    | _ =>
      simp only [run, TypeTree.arrayText]
      exact Value.settles_finish _
  | property h hemit =>
    rw [Arena.content_property h]
    exact hchild.run _ _ hemit v hv
  | standsFor h hemit =>
    rw [hself] at h
    cases h
  | object h hmembers hothers =>
    rw [Arena.content_object h]
    cases v with
    | object entries =>
      refine (settles_writeMembers fun k w hw => ?_).map braced
      exact settles_declared hchild hmembers hothers k
        (Value.depth_le_of_mem_members hw |>.trans (Nat.le_of_succ_le hv))
    | _ =>
      simp only [run, TypeTree.objectText]
      exact Value.settles_finish _
  | @tuple _ fixed _ elements _ h hsplit helements hothers =>
    rw [Arena.content_tuple h, hsplit]
    have helements : List.Forall₂ child fixed elements := by
      rw [← List.zipIdx_map_fst 0 fixed, List.forall₂_map_left_iff]
      exact helements
    cases v with
    | array items =>
      refine (settles_writeItems (fun i w hw => ?_) 0).map bracketed
      exact settles_element hchild helements hothers i
        (Value.depth_le_of_mem_items hw |>.trans (Nat.le_of_succ_le hv))
    | _ =>
      simp only [run, TypeTree.arrayText]
      exact Value.settles_finish _
  | union h harms =>
    rw [Arena.content_union h]
    exact settles_tagged hchild hcheck harms _ 0 hv

/-- The emitter of a node leaves out what its type does, if those of its children do. -/
theorem omits_emitNode (call : String → Value → Option Bool)
    (hchild : ∀ id emit, child id emit → emit.omits call v = none ∨
      emit.omits call v = some (skips (a.unfolding id) v))
    {check : NodeId → Check → Prop} (hself : (a.node id).standsFor? = none)
    (h : Compile.EmitNode a check child (a.node id) emit) :
    emit.omits call v = none ∨
      emit.omits call v = some (v.isOmitted && TypeTree.drops skips (a.unfolding id) v) := by
  cases homitted : v.isOmitted with
  | false =>
    refine .inr ?_
    unfold omits
    rw [homitted]
    rfl
  | true =>
    rw [Bool.true_and, Arena.drops_eq hself]
    cases h with
    | standsFor h hemit =>
      rw [hself] at h
      cases h
    | property h hemit =>
      rw [h]
      exact hchild _ _ hemit
    | @atom y h never =>
      refine .inr ?_
      unfold omits Compile.atomEmit
      rw [h, homitted]
      dsimp only
      cases y.codec? with
      | none => rfl
      | some codec => cases codec <;> cases v <;> rfl
    | array h | object h | tuple h | union h =>
      refine .inr ?_
      unfold omits
      rw [h, homitted]
      rfl

end Nodes

end Emit

/-! ## Calls -/

namespace Compile

variable {a : Arena} {known : Keys} {n : Node} {emit : Emit}

theorem EmitNode.of_standsFor {check : NodeId → Check → Prop} {child : NodeId → Emit → Prop}
    {id : NodeId} (h : n.standsFor? = some id) (hemit : EmitNode a check child n emit) :
    child id emit := by
  cases hemit with
  | standsFor h' hemit =>
    rw [h] at h'
    cases h'
    exact hemit
  | atom h' | array h' | property h' | object h' | tuple h' | union h' =>
    simp only [Node.standsFor?, h', reduceCtorEq] at h

theorem needs_of_emitters_plain? (h : emitters.plain? n = none) : n.needs .encode = true := by
  by_contra hneeds
  change (if n.needs .encode = true then none else some Emit.json) = none at h
  rw [if_neg hneeds] at h
  cases h

theorem eq_json_of_emitters_plain? (h : emitters.plain? n = some emit) :
    n.needs .encode ≠ true ∧ emit = .json := by
  change (if n.needs .encode = true then none else some Emit.json) = some emit at h
  split at h
  · cases h
  · rename_i hneeds
    cases h
    exact ⟨hneeds, rfl⟩

theorem EmitAt.visited {depth : Nat} {id : NodeId} (h : EmitAt a known depth id emit) :
    emitters.Visited known
      (fun n emit => ∃ below, depth = below + 1 ∧
        EmitNode a (CheckAt a known below) (EmitAt a known below) n emit) []
      (a.node id) emit := by
  cases depth with
  | zero => exact Language.Visited.imp le_rfl (fun _ h => h.elim) h
  | succ below => exact Language.Visited.imp le_rfl (fun _ h => ⟨below, rfl, h⟩) h

end Compile

namespace Emit

open Compile

variable {a : Arena} {known : Keys} {id : NodeId} {emit : Emit} {v : Value} {depth n m : Nat}

section Omits

variable {call : String → Value → Option Bool}

theorem omits_plain (marked : a.Marked) (h : emitters.plain? (a.node id) = some emit)
    (hm : 0 < m) : emit.omits call v = some (TypeTree.leavesOut m (a.unfolding id) v) := by
  obtain ⟨hneeds, rfl⟩ := eq_json_of_emitters_plain? h
  obtain ⟨m, rfl⟩ : ∃ k, m = k + 1 := ⟨m - 1, by omega⟩
  rw [TypeTree.leavesOut_of_not_needs (mt (marked id .encode).mpr hneeds)]
  unfold omits
  cases v.isOmitted <;> rfl

theorem omits_node (marked : a.Marked) (hplain : emitters.plain? (a.node id) = none)
    (hat : ∀ id emit, EmitAt a known depth id emit → ∀ m, n ≤ m →
      emit.omits call v = none ∨
        emit.omits call v = some (TypeTree.leavesOut m (a.unfolding id) v))
    (h : EmitNode a (CheckAt a known depth) (EmitAt a known depth) (a.node id) emit)
    (hm : n < m) :
    emit.omits call v = none ∨
      emit.omits call v = some (TypeTree.leavesOut m (a.unfolding id) v) := by
  cases hself : (a.node id).standsFor? with
  | some child =>
    rw [Arena.unfolding_of_standsFor hself]
    exact hat child emit (h.of_standsFor hself) m hm.le
  | none =>
    obtain ⟨m, rfl⟩ : ∃ k, m = k + 1 := ⟨m - 1, by omega⟩
    rw [TypeTree.leavesOut_of_needs ((marked id .encode).mp (needs_of_emitters_plain? hplain))]
    exact omits_emitNode call
      (fun id emit hemit => hat id emit hemit m (Nat.le_of_lt_succ hm)) hself h

/-- Whether a visit's code leaves out a value is what the type says, if this holds of calls. -/
theorem omits_at (marked : a.Marked)
    (hcall : ∀ id, known ⟨(a.node id).identity, .jsonStringify⟩ → ∀ m, n ≤ m →
      call (a.node id).identity v = none ∨
        call (a.node id).identity v = some (TypeTree.leavesOut m (a.unfolding id) v))
    (h : EmitAt a known depth id emit) (hm : n + depth < m) :
    emit.omits call v = none ∨
      emit.omits call v = some (TypeTree.leavesOut m (a.unfolding id) v) := by
  induction depth using Nat.strong_induction_on generalizing id emit m with
  | _ depth ih =>
    cases h.visited with
    | plain hplain => exact .inr (omits_plain marked hplain (by omega))
    | called _ hknown =>
      cases homitted : v.isOmitted with
      | true =>
        have homits : (emitters.call (a.node id).identity []).omits call v =
            call (a.node id).identity v := by
          change omits call (.call (a.node id).identity) v = _
          unfold omits
          rw [homitted]
          rfl
        rw [homits]
        exact hcall id hknown m (by omega)
      | false =>
        refine .inr ?_
        rw [TypeTree.leavesOut_of_not_omitted homitted]
        unfold omits
        rw [homitted]
        rfl
    | inPlace hplain hbody =>
      obtain ⟨below, rfl, hnode⟩ := hbody
      refine omits_node (n := n + below + 1) marked hplain ?_ hnode (by omega)
      exact fun id emit hemit k hk => ih below (by omega) hemit (by omega)

end Omits

section Run

variable {x : Context} {limit : Nat}

theorem settles_json (marked : a.Marked) (h : emitters.plain? (a.node id) = some emit)
    (hm : 0 < m) (v : Value) :
    Settles (emit.run x v) (TypeTree.written m (a.unfolding id) v) := by
  obtain ⟨hneeds, rfl⟩ := eq_json_of_emitters_plain? h
  obtain ⟨m, rfl⟩ : ∃ k, m = k + 1 := ⟨m - 1, by omega⟩
  rw [TypeTree.written_of_not_needs (mt (marked id .encode).mpr hneeds)]
  exact v.settles_finish

/-- The emitters that are known to be registered leave out what their types do, on values up to a
depth. -/
abbrev CallsOmit (x : Context) (a : Arena) (known : Keys) (limit n : Nat) : Prop :=
  ∀ id, known ⟨(a.node id).identity, .jsonStringify⟩ → ∀ m, n ≤ m → ∀ v, v.depth ≤ limit →
    x.omits (a.node id).identity v = none ∨
      x.omits (a.node id).identity v = some (TypeTree.leavesOut m (a.unfolding id) v)

/-- The emitters that are known to be registered write what their types say. -/
abbrev CallsWrite (x : Context) (a : Arena) (known : Keys) (limit n : Nat) : Prop :=
  ∀ id, known ⟨(a.node id).identity, .jsonStringify⟩ → ∀ m, n ≤ m → ∀ v, v.depth ≤ limit →
    Settles (x.call (a.node id).identity v) (TypeTree.written m (a.unfolding id) v)

abbrev ChecksJudge (x : Context) (a : Arena) (known : Keys) : Prop :=
  ∀ depth id c, CheckAt a known depth id c → ∀ v b, x.check c v = some b →
    Judges (a.unfolding id) v b

/-- What a node is compiled to writes what its type says, one level deeper than its children. -/
theorem settles_node (marked : a.Marked) (hcheck : ChecksJudge x a known)
    (hplain : emitters.plain? (a.node id) = none) (homits : CallsOmit x a known limit n)
    (hat : ∀ id emit, EmitAt a known depth id emit → ∀ m, n + depth < m → ∀ v, v.depth ≤ limit →
      Settles (emit.run x v) (TypeTree.written m (a.unfolding id) v))
    (h : EmitNode a (CheckAt a known depth) (EmitAt a known depth) (a.node id) emit)
    (hm : n + depth + 1 < m) (hv : v.depth ≤ limit) :
    Settles (emit.run x v) (TypeTree.written m (a.unfolding id) v) := by
  cases hself : (a.node id).standsFor? with
  | some child =>
    rw [Arena.unfolding_of_standsFor hself]
    exact hat child emit (h.of_standsFor hself) m (by omega) v hv
  | none =>
    obtain ⟨m, rfl⟩ : ∃ k, m = k + 1 := ⟨m - 1, by omega⟩
    rw [TypeTree.written_of_needs ((marked id .encode).mp (needs_of_emitters_plain? hplain))]
    have hchild : ChildrenWrite x a limit (EmitAt a known depth) (TypeTree.leavesOut m)
        (TypeTree.written m) :=
      { omits := fun id emit hemit v hv =>
          omits_at marked (fun id hknown m hm => homits id hknown m hm v hv) hemit (by omega)
        run := fun id emit hemit v hv => hat id emit hemit m (by omega) v hv }
    exact settles_emitNode hchild (hcheck depth) hself h hv

theorem settles_at (marked : a.Marked) (hcheck : ChecksJudge x a known)
    (homits : CallsOmit x a known limit n) (hcall : CallsWrite x a known limit n)
    (h : EmitAt a known depth id emit) (hm : n + depth < m) (hv : v.depth ≤ limit) :
    Settles (emit.run x v) (TypeTree.written m (a.unfolding id) v) := by
  induction depth using Nat.strong_induction_on generalizing id emit m v with
  | _ depth ih =>
    cases h.visited with
    | plain hplain => exact settles_json marked hplain (by omega) v
    | called _ hknown => exact hcall id hknown m (by omega) v hv
    | inPlace hplain hbody =>
      obtain ⟨below, rfl, hnode⟩ := hbody
      refine settles_node marked hcheck hplain homits ?_ hnode (by omega) hv
      exact fun id emit hemit k hk v hv => ih below (by omega) hemit hk hv

end Run

end Emit

namespace Program

open Compile

variable {arenas : Set Arena} {a : Arena} {r : Registry} {limit : Nat} (revivers : Revivers)

/-- The emitter registered under an identity is compiled from a node of that identity. -/
theorem emit_of_registered (filled : r.FilledFrom arenas limit) (ha : a ∈ arenas) {id : NodeId}
    (hkey : ⟨(a.node id).identity, .jsonStringify⟩ ∈ r.keys) :
    ∃ emit, ∃ b ∈ arenas, ∃ node depth, depth ≤ limit ∧ b.unfolding node = a.unfolding id ∧
      emitters.Entered (EmitNode b (CheckAt b (r.contains · = true) depth)
        (EmitAt b (r.contains · = true) depth)) (b.node node) emit ∧
      (Program.mk r.functions revivers).body? ⟨(a.node id).identity, .jsonStringify⟩ =
        some (.jsonStringify emit) := by
  obtain ⟨f, hf, hbody, b, hb, _, hof⟩ := body?_of_mem revivers filled hkey
  cases hof with
  | jsonStringify hdepth h =>
    have htree := filled.faithful b hb a ha _ _ (congrArg FunctionKey.identity hf)
    exact ⟨_, b, hb, _, _, hdepth, htree, h, hbody⟩
  | isType | typeErrors | jsonEncode | jsonDecode =>
    exact nomatch congrArg FunctionKey.target hf

/-- Calls of registered emitters leave out what the types of their nodes do. -/
theorem omits_omitsCall (filled : r.FilledFrom arenas limit) (marked : ∀ a ∈ arenas, a.Marked)
    (ha : a ∈ arenas) (steps : Nat) {id : NodeId}
    (hkey : ⟨(a.node id).identity, .jsonStringify⟩ ∈ r.keys)
    {m : Nat} (hm : steps * (limit + 2) ≤ m) (v : Value) :
    (Program.mk r.functions revivers).omitsCall steps (a.node id).identity v = none ∨
      (Program.mk r.functions revivers).omitsCall steps (a.node id).identity v =
        some (TypeTree.leavesOut m (a.unfolding id) v) := by
  induction steps generalizing a id m with
  | zero => exact .inl rfl
  | succ steps ih =>
    obtain ⟨emit, other, hother, node, depth, hdepth, htree, hentered, hbody⟩ :=
      emit_of_registered revivers filled ha hkey
    have hmarked := marked other hother
    rw [omitsCall, hbody, ← htree]
    rw [Nat.succ_mul] at hm
    cases hentered with
    | plain hplain => exact .inr (Emit.omits_plain hmarked hplain (by omega))
    | inPlace hplain hnode =>
      refine Emit.omits_node (n := steps * (limit + 2) + depth + 1) hmarked hplain ?_ hnode
        (by omega)
      intro id emit hemit k hk
      refine Emit.omits_at (n := steps * (limit + 2)) hmarked ?_ hemit (by omega)
      exact fun id hknown m hm => ih hother (Registry.contains_iff.mp hknown) hm

/-- How deep the types of functions are followed by runs on values up to a depth. -/
def reach (p : Program) (limit depth : Nat) : Nat :=
  ((depth + 2) * (p.functions.length + 1) + growth) * (limit + 2)

theorem callsOmit (filled : r.FilledFrom arenas limit) (marked : ∀ a ∈ arenas, a.Marked)
    (ha : a ∈ arenas) (depth : Nat) (call : String → Value → Except Halt String) :
    Emit.CallsOmit ⟨(Program.mk r.functions revivers).check, (Program.mk r.functions revivers).omits,
      call⟩ a (r.contains · = true) depth
      ((Program.mk r.functions revivers).reach limit depth) := by
  intro id hknown m hm v hv
  refine omits_omitsCall revivers filled marked ha _ (Registry.contains_iff.mp hknown)
    (le_trans ?_ hm) v
  have hsteps := Nat.mul_le_mul_right (r.functions.length + 1) (Nat.add_le_add_right hv 2)
  exact Nat.mul_le_mul_right _ (Nat.add_le_add_right hsteps growth)

/-- Calls of registered emitters write what the types of their nodes say. -/
theorem settles_emitCall (filled : r.FilledFrom arenas limit) (marked : ∀ a ∈ arenas, a.Marked)
    (ha : a ∈ arenas) {depth : Nat} (steps : Nat) {id : NodeId}
    (hkey : ⟨(a.node id).identity, .jsonStringify⟩ ∈ r.keys) {m : Nat}
    (hm : (Program.mk r.functions revivers).reach limit depth + steps * (limit + 2) ≤ m)
    {v : Value} (hv : v.depth ≤ depth) :
    Settles ((Program.mk r.functions revivers).emitCall steps (a.node id).identity v)
      (TypeTree.written m (a.unfolding id) v) := by
  induction steps generalizing a id m v with
  | zero => exact .inl rfl
  | succ steps ih =>
    obtain ⟨emit, other, hother, node, below, hbelow, htree, hentered, hbody⟩ :=
      emit_of_registered revivers filled ha hkey
    have hmarked := marked other hother
    rw [emitCall, hbody, ← htree]
    rw [Nat.succ_mul] at hm
    cases hentered with
    | plain hplain => exact Emit.settles_json hmarked hplain (by omega) v
    | inPlace hplain hnode =>
      have hcheck : Emit.ChecksJudge ⟨(Program.mk r.functions revivers).check,
          (Program.mk r.functions revivers).omits,
          (Program.mk r.functions revivers).emitCall steps⟩ other (r.contains · = true) :=
        fun _ _ _ hc v b => judges_of_check revivers filled hother hc v b
      have homits : Emit.CallsOmit ⟨(Program.mk r.functions revivers).check,
          (Program.mk r.functions revivers).omits,
          (Program.mk r.functions revivers).emitCall steps⟩ other (r.contains · = true) depth
          ((Program.mk r.functions revivers).reach limit depth + steps * (limit + 2)) :=
        fun id hknown m hm =>
          callsOmit revivers filled marked hother depth _ id hknown m (by omega)
      refine Emit.settles_node hmarked hcheck hplain homits ?_ hnode (by omega) hv
      intro id emit hemit k hk v hv
      refine Emit.settles_at hmarked hcheck homits ?_ hemit hk hv
      exact fun id hknown m hm v hv => ih hother (Registry.contains_iff.mp hknown) hm hv

/-- **A registered emitter writes what its type says**, at every depth from some depth on, on all
values on which it is not cut off. -/
theorem settles_stringify (filled : r.FilledFrom arenas limit) (marked : ∀ a ∈ arenas, a.Marked)
    (ha : a ∈ arenas) {id : NodeId} (hkey : ⟨(a.node id).identity, .jsonStringify⟩ ∈ r.keys)
    (v : Value) :
    ∃ n, ∀ m, n ≤ m →
      Settles ((Program.mk r.functions revivers).stringify (a.node id).identity v)
        ((TypeTree.placed (TypeTree.leavesOut m) (TypeTree.written m) (a.unfolding id) v).map
          (·.getD "null")) := by
  obtain ⟨emit, other, hother, node, depth, hdepth, htree, hentered, hbody⟩ :=
    emit_of_registered revivers filled ha hkey
  have hmarked := marked other hother
  let p := Program.mk r.functions revivers
  refine ⟨p.reach limit v.depth + (p.steps v + 1) * (limit + 2), fun m hm => ?_⟩
  have hrun : Settles (emit.run ⟨p.check, p.omits, p.emitCall (p.steps v)⟩ v)
      (TypeTree.written m (a.unfolding id) v) := by
    have hcall := settles_emitCall revivers filled marked ha (p.steps v + 1) hkey hm le_rfl
    rwa [emitCall, hbody] at hcall
  have homits : emit.omits p.omits v = none ∨
      emit.omits p.omits v = some (TypeTree.leavesOut m (a.unfolding id) v) := by
    rw [← htree]
    rw [Nat.succ_mul] at hm
    cases hentered with
    | plain hplain => exact .inr (Emit.omits_plain hmarked hplain (by omega))
    | inPlace hplain hnode =>
      refine Emit.omits_node (n := p.reach limit v.depth + depth + 1) hmarked hplain ?_ hnode
        (by omega)
      intro id emit hemit k hk
      refine Emit.omits_at (n := p.reach limit v.depth) hmarked ?_ hemit (by omega)
      exact fun id hknown m hm =>
        callsOmit revivers filled marked hother v.depth (p.emitCall 0) id hknown m hm v le_rfl
  rw [stringify, hbody]
  dsimp only
  unfold TypeTree.placed
  rcases homits with homits | homits
  · rw [homits]
    exact .inl rfl
  · rw [homits]
    cases TypeTree.leavesOut m (a.unfolding id) v with
    | true => exact .ok "null"
    | false =>
      have hmap : ((TypeTree.written m (a.unfolding id) v).map some).map (·.getD "null") =
          TypeTree.written m (a.unfolding id) v := by
        cases TypeTree.written m (a.unfolding id) v <;> rfl
      rw [if_neg Bool.false_ne_true, hmap]
      exact hrun

end Program

end Typeforge
