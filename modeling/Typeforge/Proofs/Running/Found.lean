/-
# `Typeforge.Proofs.Running.Found` — closed programs miss no function

A run fails with a missing function where code calls what is not there.  In a
program whose functions call only one another that never happens: whatever a run
of one of its functions comes to, it is no missing function.  Nothing is asked of
the types the functions were compiled from; that calls are answered is a matter of
keys alone.
-/
import Typeforge.Proofs.Compiling.Calls
import Typeforge.Proofs.Running.Emits
import Typeforge.Proofs.Running.Stops

namespace Typeforge

/-! ## Runs that miss nothing -/

/-- Whether a run was stopped by anything but a missing function. -/
def Halt.Found (h : Halt) : Prop := ∀ key, h ≠ .failed (.missingFunction key)

theorem Halt.found_cutOff : Halt.cutOff.Found := nofun

/-- A run that has an answer, or is stopped by anything but a missing function. -/
def MissesNone {α : Type} (run : Except Halt α) : Prop := ∀ h, run = .error h → h.Found

namespace MissesNone

variable {α β : Type} {run : Except Halt α}

theorem ok (x : α) : MissesNone (.ok x : Except Halt α) := nofun

theorem cutOff : MissesNone (.error .cutOff : Except Halt α) := by
  rintro _ ⟨⟩
  exact Halt.found_cutOff

theorem bind {next : α → Except Halt β} (h : MissesNone run) (hnext : ∀ x, MissesNone (next x)) :
    MissesNone (run >>= next) := by
  cases run with
  | error halt =>
    rintro _ ⟨⟩
    exact h halt rfl
  | ok x => exact hnext x

theorem answered (answer : Option α) : MissesNone (answered answer) := by
  cases answer with
  | none => exact cutOff
  | some x => exact ok x

theorem gather {xs : List α} {errors : α → Except Halt (List ValidationError)}
    (h : ∀ x, MissesNone (errors x)) : MissesNone (gather errors xs) := by
  induction xs with
  | nil => exact ok []
  | cons x xs ih => exact (h x).bind fun first => ih.bind fun others => ok (first ++ others)

end MissesNone

namespace Changed

/-- Changes made to the end, or stopped by anything but a missing function. -/
def MissesNone (c : Changed) : Prop := ∀ h, c.stop = some h → h.Found

theorem MissesNone.done (v : Value) : (done v).MissesNone := nofun

theorem MissesNone.cutOff (v : Value) : (⟨v, some .cutOff⟩ : Changed).MissesNone :=
  StopsAs.stopped Halt.found_cutOff

theorem MissesNone.failed {v : Value} {e : RunError} (h : ∀ key, e ≠ .missingFunction key) :
    (failed v e).MissesNone :=
  StopsAs.failed fun key hkey => h key (Halt.failed.inj hkey)

theorem MissesNone.andThen {c : Changed} {f : Value → Changed} (h : c.MissesNone)
    (hf : ∀ v, (f v).MissesNone) : (c.andThen f).MissesNone :=
  StopsAs.andThen h hf

end Changed

/-! ## Code whose calls are answered -/

section Code

variable {known : Keys}

namespace Report

variable {x : Context}

mutual

/-- A statement misses nothing if its calls miss nothing. -/
theorem missesNone_run
    (hcall : ∀ i, known ⟨i, .typeErrors⟩ → ∀ base v, MissesNone (x.call i base v)) :
    ∀ (r : Report) (trail : Trail) (v : Value), known.Cover r.calls → MissesNone (r.run x trail v)
  | expect check _ _ after, trail, v, h => by
    rw [run]
    cases x.check check v with
    | none => exact .cutOff
    | some passed =>
      cases passed with
      | true => exact missesNone_runAll hcall after trail v (Keys.cover_append.mp h).2
      | false => exact .ok _
  | part access optional body, trail, v, h => by
    rw [run]
    split
    · exact .ok _
    · exact missesNone_runAll hcall body trail _ h
  | each start body, trail, v, h => by
    rw [run]
    exact .gather fun y => missesNone_runAll hcall body _ y.2 h
  | eachKey filter skip body, trail, v, h => by
    rw [run]
    exact .gather fun y => missesNone_runAll hcall body _ y.2 h
  | call identity path, trail, v, h => by
    rw [run]
    exact hcall identity (h _ List.mem_cons_self) _ v

theorem missesNone_runAll
    (hcall : ∀ i, known ⟨i, .typeErrors⟩ → ∀ base v, MissesNone (x.call i base v)) :
    ∀ (body : List Report) (trail : Trail) (v : Value), known.Cover (callsAll body) →
      MissesNone (runAll x body trail v)
  | [], _, _, _ => .ok []
  | r :: rest, trail, v, h => by
    obtain ⟨hr, hrest⟩ := Keys.cover_append.mp h
    rw [runAll]
    refine (missesNone_run hcall r trail v hr).bind fun first => ?_
    exact (missesNone_runAll hcall rest trail v hrest).bind fun others => .ok _

end

end Report

namespace Transform

variable {x : Context} {target : Target}

theorem missesNone_decode (codec : Codec) (v : Value) : ((decode codec).run x v).MissesNone := by
  rw [run]
  cases h : codec.decode v with
  | ok w => exact .done w
  | error e =>
    obtain ⟨expected, found, rfl⟩ := codec.exists_decode_of_error h
    exact .failed (by rintro _ ⟨⟩)

mutual

/-- A change misses nothing if its calls miss nothing. -/
theorem missesNone_run (hcall : ∀ i, known ⟨i, target⟩ → ∀ v, (x.call i v).MissesNone) :
    ∀ (t : Transform) (v : Value), known.Cover (t.calls target) → (t.run x v).MissesNone
  | encode codec, v, _ => .done _
  | decode codec, v, _ => missesNone_decode codec v
  | part access optional body, v, h => by
    rw [run]
    refine Value.stopsAs_changePart access (fun w => ?_) v
    split
    · exact .done w
    · exact missesNone_runAll hcall body w h
  | absent access, v, _ => by
    rw [run]
    exact Value.stopsAs_changePart access (fun w => .done _) v
  | each start body, v, h => by
    rw [run]
    exact Value.stopsAs_changeFrom start (fun w => missesNone_runAll hcall body w h) v
  | eachKey filter skip body, v, h => by
    rw [run]
    exact Value.stopsAs_changeCovered _ (fun w => missesNone_runAll hcall body w h) v
  | tag union arms, v, h => by
    rw [run]
    exact missesNone_runTagged hcall union 0 arms v h
  | untag arms, v, h => by
    unfold run
    split
    · split
      · exact .failed nofun
      · split
        · exact .failed nofun
        · exact .done _
        · rename_i w halt harm
          intro halt' hstop
          cases hstop
          exact missesNone_runArm hcall _ arms _ h ⟨w, some halt⟩ harm halt rfl
    · exact .failed nofun
  | revive className, v, _ => by
    rw [run]
    split
    · exact .done _
    · exact .failed nofun
  | call identity, v, h => by
    rw [run]
    exact hcall identity (h _ List.mem_cons_self) v

theorem missesNone_runAll (hcall : ∀ i, known ⟨i, target⟩ → ∀ v, (x.call i v).MissesNone) :
    ∀ (body : List Transform) (v : Value), known.Cover (callsAll target body) →
      (runAll x body v).MissesNone
  | [], v, _ => .done v
  | t :: rest, v, h => by
    obtain ⟨ht, hrest⟩ := Keys.cover_append.mp h
    rw [runAll]
    exact (missesNone_run hcall t v ht).andThen fun w => missesNone_runAll hcall rest w hrest

theorem missesNone_runTagged (hcall : ∀ i, known ⟨i, target⟩ → ∀ v, (x.call i v).MissesNone)
    (union : String) (i : Nat) :
    ∀ (arms : List (Check × List Transform)) (v : Value), known.Cover (callsTagged target arms) →
      (runTagged x union i arms v).MissesNone
  | [], v, _ => .failed nofun
  | (check, body) :: rest, v, h => by
    obtain ⟨hfirst, hrest⟩ := Keys.cover_append.mp h
    obtain ⟨-, hbody⟩ := Keys.cover_append.mp hfirst
    rw [runTagged]
    cases x.check check v with
    | none => exact .cutOff v
    | some passed =>
      cases passed with
      | true => exact (missesNone_runAll hcall body v hbody).andThen fun w => .done _
      | false => exact missesNone_runTagged hcall union (i + 1) rest v hrest

theorem missesNone_runArm (hcall : ∀ i, known ⟨i, target⟩ → ∀ v, (x.call i v).MissesNone) :
    ∀ (i : Nat) (arms : List (List Transform)) (v : Value), known.Cover (callsArms target arms) →
      ∀ c, runArm x i arms v = some c → c.MissesNone
  | _, [], _, _, _, h => nomatch h
  | 0, body :: _, v, h, c, hrun => by
    rw [runArm] at hrun
    cases hrun
    exact missesNone_runAll hcall body v (Keys.cover_append.mp h).1
  | i + 1, _ :: rest, v, h, c, hrun => by
    rw [runArm] at hrun
    exact missesNone_runArm hcall i rest v (Keys.cover_append.mp h).2 c hrun

end

end Transform

namespace Emit

variable {x : Context}

theorem missesNone_finish (v : Value) : MissesNone v.jsonText.finish := by
  intro halt h key hkey
  have hplain := Value.plain_jsonText v
  unfold Written.finish Written.toExcept at h
  cases hstop : v.jsonText.stop with
  | none =>
    rw [hstop] at h
    cases h
  | some e =>
    obtain ⟨n, rfl⟩ := hplain e hstop
    rw [hstop] at h
    cases h
    cases hkey

theorem missesNone_placed {emit : Emit} {v : Value} {write : Except Halt String}
    (h : MissesNone write) : MissesNone (placed x emit v write) := by
  refine (MissesNone.answered (emit.omits x.omits v)).bind fun omitted => ?_
  split
  · exact .ok none
  · exact h.bind fun text => .ok (some text)

theorem missesNone_writeMembers {write : String → Value → Except Halt (Option String)}
    (h : ∀ k v, MissesNone (write k v)) (members : List (String × Value)) :
    MissesNone (writeMembers write members) := by
  induction members with
  | nil => exact .ok []
  | cons m rest ih =>
    obtain ⟨k, v⟩ := m
    refine (h k v).bind fun text => ih.bind fun others => ?_
    cases text <;> exact .ok _

theorem missesNone_writeItems {write : Nat → Value → Except Halt (Option String)}
    (h : ∀ i v, MissesNone (write i v)) (items : List Value) (i : Nat) :
    MissesNone (writeItems write i items) := by
  induction items generalizing i with
  | nil => exact .ok []
  | cons v rest ih => exact (h i v).bind fun text => (ih (i + 1)).bind fun others => .ok _

theorem missesNone_plain (v : Value) : MissesNone (plain x v) :=
  missesNone_placed (missesNone_finish v)

mutual

/-- An emitter misses nothing if its calls miss nothing. -/
theorem missesNone_run (hcall : ∀ i, known ⟨i, .jsonStringify⟩ → ∀ v, MissesNone (x.call i v)) :
    ∀ (e : Emit) (v : Value), known.Cover e.calls → MissesNone (e.run x v)
  | json, v, _ => missesNone_finish v
  | encoded codec, v, _ => missesNone_finish (codec.encode v)
  | object members index, v, h => by
    obtain ⟨hmembers, hindex⟩ := Keys.cover_append.mp h
    unfold run
    split
    · refine (missesNone_writeMembers (fun k w => ?_) _).bind fun texts => .ok _
      split
      · exact missesNone_declared hcall k w members hmembers _ ‹_›
      · cases hindexed : indexed x k w index with
        | none => exact missesNone_plain w
        | some text => exact missesNone_indexed hcall k w index hindex text hindexed
    · exact missesNone_finish v
  | array item, v, h => by
    unfold run
    split
    · refine (missesNone_writeItems (fun _ w => ?_) _ 0).bind fun texts => .ok _
      exact missesNone_placed (missesNone_run hcall item w h)
    · exact missesNone_finish v
  | tuple elements rest, v, h => by
    obtain ⟨helements, hrest⟩ := Keys.cover_append.mp h
    unfold run
    split
    · refine (missesNone_writeItems (fun i w => ?_) _ 0).bind fun texts => .ok _
      split
      · exact missesNone_fixed hcall i w elements helements _ ‹_›
      · cases hothers : others x w rest with
        | none => exact missesNone_plain w
        | some text => exact missesNone_others hcall w rest hrest text hothers
    · exact missesNone_finish v
  | union name arms, v, h => by
    rw [run]
    exact missesNone_tagged hcall name 0 v arms h
  | call identity, v, h => by
    rw [run]
    exact hcall identity (h _ List.mem_cons_self) v

theorem missesNone_declared
    (hcall : ∀ i, known ⟨i, .jsonStringify⟩ → ∀ v, MissesNone (x.call i v)) (k : String)
    (v : Value) : ∀ (members : List (MemberEmit Emit)), known.Cover (callsMembers members) →
      ∀ text, declared x k v members = some text → MissesNone text
  | [], _, _, htext => nomatch htext
  | ⟨name, optional, emit⟩ :: rest, h, text, htext => by
    obtain ⟨hemit, hrest⟩ := Keys.cover_append.mp h
    rw [declared] at htext
    split at htext
    · cases htext
      split
      · exact .ok none
      · exact missesNone_placed (missesNone_run hcall emit v hemit)
    · exact missesNone_declared hcall k v rest hrest text htext

theorem missesNone_indexed
    (hcall : ∀ i, known ⟨i, .jsonStringify⟩ → ∀ v, MissesNone (x.call i v)) (k : String)
    (v : Value) : ∀ (index : Option (KeyFilter × Emit)), known.Cover (callsIndex index) →
      ∀ text, indexed x k v index = some text → MissesNone text
  | none, _, _, htext => nomatch htext
  | some (filter, emit), h, text, htext => by
    rw [indexed] at htext
    split at htext
    · cases htext
      exact missesNone_placed (missesNone_run hcall emit v h)
    · cases htext

theorem missesNone_fixed
    (hcall : ∀ i, known ⟨i, .jsonStringify⟩ → ∀ v, MissesNone (x.call i v)) (i : Nat)
    (v : Value) : ∀ (elements : List Emit), known.Cover (callsAll elements) →
      ∀ text, fixed x i v elements = some text → MissesNone text
  | [], _, _, htext => nomatch htext
  | emit :: rest, h, text, htext => by
    obtain ⟨hemit, hrest⟩ := Keys.cover_append.mp h
    unfold fixed at htext
    split at htext
    · cases htext
      exact missesNone_placed (missesNone_run hcall emit v hemit)
    · exact missesNone_fixed hcall _ v rest hrest text htext

theorem missesNone_others
    (hcall : ∀ i, known ⟨i, .jsonStringify⟩ → ∀ v, MissesNone (x.call i v)) (v : Value) :
    ∀ (rest : Option Emit), known.Cover (callsRest rest) →
      ∀ text, others x v rest = some text → MissesNone text
  | none, _, _, htext => nomatch htext
  | some emit, h, text, htext => by
    rw [others] at htext
    cases htext
    exact missesNone_placed (missesNone_run hcall emit v h)

theorem missesNone_tagged
    (hcall : ∀ i, known ⟨i, .jsonStringify⟩ → ∀ v, MissesNone (x.call i v)) (name : String)
    (i : Nat) (v : Value) : ∀ (arms : List (Check × Emit)), known.Cover (callsArms arms) →
      MissesNone (tagged x name i v arms)
  | [], _ => by
    rw [tagged]
    rintro _ ⟨⟩
    exact nofun
  | (check, emit) :: rest, h => by
    obtain ⟨hfirst, hrest⟩ := Keys.cover_append.mp h
    obtain ⟨-, hemit⟩ := Keys.cover_append.mp hfirst
    rw [tagged]
    cases x.check check v with
    | none => exact .cutOff
    | some passed =>
      cases passed with
      | true =>
        exact (missesNone_placed (missesNone_run hcall emit v hemit)).bind fun text => .ok _
      | false => exact missesNone_tagged hcall name (i + 1) v rest hrest

end

end Emit

end Code

/-! ## Closed lists of functions -/

/-- Functions that call only one another, each with a body for the target of its key. -/
structure ClosedFunctions (fs : List Function) : Prop where
  calls : ∀ f ∈ fs, Keys.Cover (· ∈ fs.map (·.key)) f.calls
  targets : ∀ f ∈ fs, f.body.target = f.key.target

namespace Program

variable {p : Program} (closed : ClosedFunctions p.functions)

include closed

/-- A key among closed functions has a body for its target, which calls what is there. -/
theorem exists_body {key : FunctionKey} (hkey : key ∈ p.functions.map (·.key)) :
    ∃ body, p.body? key = some body ∧ body.target = key.target ∧
      Keys.Cover (· ∈ p.functions.map (·.key)) body.calls := by
  obtain ⟨g, hg, hgkey⟩ := List.mem_map.mp hkey
  have hsome : (p.functions.find? (·.key == key)).isSome := by
    rw [List.find?_isSome]
    exact ⟨g, hg, beq_iff_eq.mpr hgkey⟩
  obtain ⟨f, hf⟩ := Option.isSome_iff_exists.mp hsome
  have hfkey : f.key = key := by simpa using List.find?_some hf
  have hmem := List.mem_of_find?_eq_some hf
  refine ⟨f.body, ?_, hfkey ▸ closed.targets f hmem, closed.calls f hmem⟩
  simp only [body?, hf, Option.map_some]

theorem missesNone_isType {i : String} (hkey : ⟨i, .isType⟩ ∈ p.functions.map (·.key)) (v : Value) :
    MissesNone (p.isType i v) := by
  obtain ⟨body, hbody, htarget, -⟩ := exists_body closed hkey
  cases body <;> cases htarget
  rw [isType, hbody]
  dsimp only
  split
  · exact .ok _
  · exact .cutOff

theorem missesNone_reportCall (steps : Nat) {i : String}
    (hkey : ⟨i, .typeErrors⟩ ∈ p.functions.map (·.key)) (base : List PathItem) (v : Value) :
    MissesNone (p.reportCall steps i base v) := by
  induction steps generalizing i base v with
  | zero => exact .cutOff
  | succ steps ih =>
    obtain ⟨body, hbody, htarget, hcalls⟩ := exists_body closed hkey
    cases body <;> cases htarget
    rw [reportCall, hbody]
    exact Report.missesNone_runAll (fun _ hknown base v => ih hknown base v) _ _ v hcalls

theorem missesNone_transformCall {target : Target} (htarget : target = .jsonEncode ∨ target = .jsonDecode)
    (steps : Nat) {i : String} (hkey : ⟨i, target⟩ ∈ p.functions.map (·.key)) (v : Value) :
    (p.transformCall target steps i v).MissesNone := by
  induction steps generalizing i v with
  | zero => exact .cutOff v
  | succ steps ih =>
    obtain ⟨body, hbody, hbodyTarget, hcalls⟩ := exists_body closed hkey
    rw [transformCall, hbody]
    dsimp only at hbodyTarget
    subst hbodyTarget
    cases body with
    | jsonEncode body =>
      exact Transform.missesNone_runAll (fun _ hknown v => ih hknown v) body v hcalls
    | jsonDecode body =>
      exact Transform.missesNone_runAll (fun _ hknown v => ih hknown v) body v hcalls
    | isType | typeErrors | jsonStringify => rcases htarget with h | h <;> cases h

theorem missesNone_emitCall (steps : Nat) {i : String}
    (hkey : ⟨i, .jsonStringify⟩ ∈ p.functions.map (·.key)) (v : Value) :
    MissesNone (p.emitCall steps i v) := by
  induction steps generalizing i v with
  | zero => exact .cutOff
  | succ steps ih =>
    obtain ⟨body, hbody, htarget, hcalls⟩ := exists_body closed hkey
    cases body <;> cases htarget
    rw [emitCall, hbody]
    exact Emit.missesNone_run (fun _ hknown v => ih hknown v) _ v hcalls

theorem missesNone_stringify {i : String} (hkey : ⟨i, .jsonStringify⟩ ∈ p.functions.map (·.key))
    (v : Value) : MissesNone (p.stringify i v) := by
  obtain ⟨body, hbody, htarget, hcalls⟩ := exists_body closed hkey
  cases body <;> cases htarget
  rw [stringify, hbody]
  refine (MissesNone.answered _).bind fun omitted => ?_
  split
  · exact .ok _
  · exact Emit.missesNone_run (fun _ hknown v => missesNone_emitCall closed _ hknown v) _ v hcalls

end Program

end Typeforge
