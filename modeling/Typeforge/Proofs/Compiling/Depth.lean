/-
# `Typeforge.Proofs.Compiling.Depth` — how deep a compiling walk goes

A walk is cut where it meets a function that is under construction, and only there:
nodes that are compiled in place are walked through as often as they are met.  Call
a path on which only the first node may have a function of its own a strand.  If
strands are of bounded length, a walk is a sequence of strands, each of which begins
with a function that is not under construction yet; there are two functions at most
for an identity, as tests are compiled along with the rest.  That bounds the walk,
and an engine that may go that deep never finds a type too deep.
-/
import Mathlib.Data.Finset.Card
import Mathlib.Data.Finset.Prod
import Typeforge.Proofs.Compiling.Failing
import Typeforge.Proofs.Lowering.Sweeps

namespace Typeforge

/-! ## Builds that do not go too deep -/

/-- Whether the error says that a walk went too deep. -/
def CompileError.TooDeep : CompileError → Prop
  | .maxDepth .. => True
  | _ => False

/-- However the build ends, it is not for having gone too deep. -/
abbrev Build.Shallow {α : Type} (m : Build α) : Prop := m.FailsAs (¬·.TooDeep)

open Build

/-- A refusal is no reason to take a walk for too deep. -/
theorem Compile.refusable_shallow (n : Node) : Compile.Refusable (¬·.TooDeep) n := by
  rintro - (_ | _ | _) h
  all_goals first | exact id | cases h

/-! ## Strands -/

namespace Setting

/-- A node is the last of so many on a path on which only the first may have a function of its
own. -/
inductive Strand (s : Setting) : Nat → NodeId → Prop where
  | start (id : NodeId) : Strand s 1 id
  | next {k : Nat} {id child : NodeId} (strand : Strand s k id)
      (mem : child ∈ (s.arena.node id).children)
      (inPlace : s.ownFunction (s.arena.node child) = false) : Strand s (k + 1) child

/-- The identities that have functions of their own. -/
def ownIdentities (s : Setting) : Finset String :=
  ((s.arena.ids.filter fun id => s.ownFunction (s.arena.node id)).map
    fun id => (s.arena.node id).identity).toFinset

theorem mem_ownIdentities {s : Setting} {id : NodeId}
    (h : s.ownFunction (s.arena.node id) = true) : (s.arena.node id).identity ∈ s.ownIdentities := by
  have hid : id ∈ s.arena.ids := by
    by_contra hid
    rw [Arena.node_eq_default hid] at h
    cases h
  rw [ownIdentities, List.mem_toFinset]
  exact List.mem_map_of_mem (List.mem_filter.mpr ⟨hid, h⟩)

end Setting

/-! ## Walks -/

namespace Compile

section Walks

-- The strands have at most `height` nodes, and `keys` are those of functions met on the walk.
variable {s : Setting} {height : Nat} {keys : Finset FunctionKey}

/-- The number of functions that are not under construction. -/
def functionsLeft (keys : Finset FunctionKey) (defining : List FunctionKey) : Nat :=
  (keys \ defining.toFinset).card

theorem functionsLeft_cons {key : FunctionKey} {defining : List FunctionKey} (hkey : key ∈ keys)
    (hnew : key ∉ defining) :
    functionsLeft keys (key :: defining) + 1 = functionsLeft keys defining := by
  have hmem : key ∈ keys \ defining.toFinset :=
    Finset.mem_sdiff.mpr ⟨hkey, fun h => hnew (List.mem_toFinset.mp h)⟩
  rw [functionsLeft, List.toFinset_cons, Finset.sdiff_insert, Finset.card_erase_of_mem hmem]
  exact Nat.sub_add_cancel (Finset.card_pos.mpr ⟨key, hmem⟩)

/-- A walk may go on for the functions that are left, a strand for each, and for what remains of
the strand it is on. -/
def Room (s : Setting) (height : Nat) (keys : Finset FunctionKey) (depth : Nat)
    (defining : List FunctionKey) (id : NodeId) : Prop :=
  if s.ownFunction (s.arena.node id) then functionsLeft keys defining * height + 1 ≤ depth
  else ∃ k, s.Strand k id ∧ functionsLeft keys defining * height + (height - k) + 2 ≤ depth

theorem Room.ne_zero {defining : List FunctionKey} {id : NodeId} :
    ¬Room s height keys 0 defining id := by
  unfold Room
  split
  · omega
  · rintro ⟨k, -, h⟩
    omega

/-- There is room for the children of a node that is compiled in place. -/
theorem Room.inPlace (strands : ∀ k id, s.Strand k id → k ≤ height) {depth : Nat}
    {defining : List FunctionKey} {id child : NodeId} (room : Room s height keys (depth + 1) defining id)
    (hid : s.ownFunction (s.arena.node id) = false) (mem : child ∈ (s.arena.node id).children) :
    Room s height keys depth defining child := by
  rw [Room, hid] at room
  obtain ⟨k, strand, h⟩ := room
  unfold Room
  split
  · omega
  · rename_i hchild
    have next := strand.next mem (Bool.eq_false_iff.mpr hchild)
    have := strands _ _ next
    exact ⟨k + 1, next, by omega⟩

/-- There is room for the children of a node whose function comes under construction. -/
theorem room_of_left (strands : ∀ k id, s.Strand k id → k ≤ height) {depth : Nat}
    {defining : List FunctionKey} {id child : NodeId}
    (h : functionsLeft keys defining * height + height ≤ depth)
    (mem : child ∈ (s.arena.node id).children) : Room s height keys depth defining child := by
  have start := strands _ _ (.start id)
  unfold Room
  split
  · omega
  · rename_i hchild
    have next := (Setting.Strand.start id).next mem (Bool.eq_false_iff.mpr hchild)
    have := strands _ _ next
    exact ⟨2, next, by omega⟩

/-- Children for which there is room are visited without going too deep. -/
def Visits {Code : Type} (s : Setting) (height : Nat) (keys : Finset FunctionKey) (depth : Nat)
    (child : Site → NodeId → Build Code) : Prop :=
  ∀ site id, Room s height keys depth site.defining id → (child site id).Shallow

theorem Visits.passable {Code : Type} {depth : Nat} {child : Site → NodeId → Build Code}
    (h : Visits s height keys depth child) {defining : List FunctionKey} {ids : List NodeId}
    (room : ∀ id ∈ ids, Room s height keys depth defining id) : Passable (¬·.TooDeep) child defining ids :=
  fun id hid site hsite => h site id (hsite ▸ room id hid)

theorem visits_zero {Code : Type} {child : Site → NodeId → Build Code} :
    Visits s height keys 0 child := fun _ _ room => absurd room Room.ne_zero

/-- A level deeper: what compiles nodes with passable children visits wherever there is room. -/
theorem visits_succ {Code : Type} {L : Language Code} {compile : Compiler Code} {depth : Nat}
    (strands : ∀ k id, s.Strand k id → k ≤ height)
    (hkeys : ∀ id, s.ownFunction (s.arena.node id) = true → L.key (s.arena.node id) ∈ keys)
    (hcompile : ∀ site n, (∀ id ∈ n.children, Room s height keys depth site.defining id) →
      (compile site n).Shallow) :
    Visits s height keys (depth + 1) (L.visit s (some compile)) := by
  intro site id room
  refine Language.failsAs_visit (fun hid => ?_) fun hown hnew => ?_
  · exact hcompile site _ fun child mem => room.inPlace strands hid mem
  · have left := functionsLeft_cons (hkeys id hown) hnew
    rw [Room, if_pos hown, ← left, Nat.add_mul, Nat.one_mul] at room
    have enough : functionsLeft keys (L.key (s.arena.node id) :: site.defining) * height + height ≤
        depth := by omega
    exact hcompile _ _ fun child mem => room_of_left strands enough mem

section Languages

variable (strands : ∀ k id, s.Strand k id → k ≤ height)
  (hchecks : ∀ id, s.ownFunction (s.arena.node id) = true → checks.key (s.arena.node id) ∈ keys)

include strands

include hchecks in
theorem visits_checkAt (depth : Nat) : Visits s height keys depth (checkAt s depth) := by
  induction depth with
  | zero => exact visits_zero
  | succ depth ih =>
    exact visits_succ strands hchecks fun _ _ room =>
      failsAs_checkNode (refusable_shallow _) (ih.passable room)

include hchecks in
theorem visits_reportAt
    (hkeys : ∀ id, s.ownFunction (s.arena.node id) = true → reports.key (s.arena.node id) ∈ keys)
    (depth : Nat) : Visits s height keys depth (reportAt s depth) := by
  induction depth with
  | zero => exact visits_zero
  | succ depth ih =>
    exact visits_succ strands hkeys fun _ _ room =>
      failsAs_reportNode (refusable_shallow _)
        ((visits_checkAt strands hchecks depth).passable room) (ih.passable room)

include hchecks in
theorem visits_encodeAt
    (hkeys : ∀ id, s.ownFunction (s.arena.node id) = true → encoders.key (s.arena.node id) ∈ keys)
    (depth : Nat) : Visits s height keys depth (encodeAt s depth) := by
  induction depth with
  | zero => exact visits_zero
  | succ depth ih =>
    exact visits_succ strands hkeys fun _ _ room =>
      failsAs_encodeNode (refusable_shallow _)
        ((visits_checkAt strands hchecks depth).passable room) (ih.passable room)

theorem visits_decodeAt
    (hkeys : ∀ id, s.ownFunction (s.arena.node id) = true → decoders.key (s.arena.node id) ∈ keys)
    (depth : Nat) : Visits s height keys depth (decodeAt s depth) := by
  induction depth with
  | zero => exact visits_zero
  | succ depth ih =>
    exact visits_succ strands hkeys fun _ _ room =>
      failsAs_decodeNode (refusable_shallow _) (fun _ => id) (ih.passable room)

include hchecks in
theorem visits_emitAt
    (hkeys : ∀ id, s.ownFunction (s.arena.node id) = true → emitters.key (s.arena.node id) ∈ keys)
    (depth : Nat) : Visits s height keys depth (emitAt s depth) := by
  induction depth with
  | zero => exact visits_zero
  | succ depth ih =>
    exact visits_succ strands hkeys fun _ _ room =>
      failsAs_emitNode (refusable_shallow _)
        ((visits_checkAt strands hchecks depth).passable room) (ih.passable room)

end Languages

/-- The keys of the functions that a build for a target may define. -/
def walkKeys (s : Setting) (target : Target) : Finset FunctionKey :=
  s.ownIdentities.image (⟨·, .isType⟩) ∪ s.ownIdentities.image (⟨·, target⟩)

theorem card_walkKeys_le (target : Target) :
    (walkKeys s target).card ≤ 2 * s.ownIdentities.card := by
  have := Finset.card_union_le (s.ownIdentities.image (FunctionKey.mk · .isType))
    (s.ownIdentities.image (FunctionKey.mk · target))
  have := Finset.card_image_le (s := s.ownIdentities) (f := (FunctionKey.mk · .isType))
  have := Finset.card_image_le (s := s.ownIdentities) (f := (FunctionKey.mk · target))
  unfold walkKeys
  omega

theorem isType_mem_walkKeys (target : Target) (id : NodeId)
    (hown : s.ownFunction (s.arena.node id) = true) :
    ⟨(s.arena.node id).identity, .isType⟩ ∈ walkKeys s target :=
  Finset.mem_union_left _ (Finset.mem_image_of_mem _ (Setting.mem_ownIdentities hown))

theorem mem_walkKeys (target : Target) (id : NodeId)
    (hown : s.ownFunction (s.arena.node id) = true) :
    ⟨(s.arena.node id).identity, target⟩ ∈ walkKeys s target :=
  Finset.mem_union_right _ (Finset.mem_image_of_mem _ (Setting.mem_ownIdentities hown))

/-- The walk from an entry has room for all functions, and for a strand before the first of them. -/
theorem room_of_entry (strands : ∀ k id, s.Strand k id → k ≤ height)
    (depth : (2 * s.ownIdentities.card + 1) * height < s.maxDepth) {target : Target}
    {defining : List FunctionKey} {id child : NodeId} (mem : child ∈ (s.arena.node id).children) :
    Room s height (walkKeys s target) (defineEntry.depth s) defining child := by
  refine room_of_left strands ?_ mem
  have hleft : functionsLeft (walkKeys s target) defining ≤ 2 * s.ownIdentities.card :=
    (Finset.card_le_card Finset.sdiff_subset).trans (card_walkKeys_le target)
  have := Nat.mul_le_mul_right height hleft
  rw [Nat.add_mul, Nat.one_mul] at depth
  unfold defineEntry.depth
  omega

theorem shallow_defineEntry (strands : ∀ k id, s.Strand k id → k ≤ height)
    (depth : (2 * s.ownIdentities.card + 1) * height < s.maxDepth) (id : NodeId)
    (target : Target) : (defineEntry s (s.arena.node id) target).Shallow := by
  have tests := visits_checkAt strands (isType_mem_walkKeys target) (defineEntry.depth s)
  have checked : Passable (¬·.TooDeep) (checkAt s (defineEntry.depth s)) [⟨(s.arena.node id).identity, target⟩]
      (s.arena.node id).children := tests.passable fun child mem => room_of_entry strands depth mem
  cases target with
  | isType => exact Language.failsAs_define fun _ => failsAs_checkNode (refusable_shallow _) checked
  | typeErrors =>
    have walk := visits_reportAt strands (isType_mem_walkKeys _) (mem_walkKeys .typeErrors)
      (defineEntry.depth s)
    exact Language.failsAs_define fun _ => failsAs_reportNode (refusable_shallow _) checked
      (walk.passable fun _ mem => room_of_entry strands depth mem)
  | jsonEncode =>
    have walk := visits_encodeAt strands (isType_mem_walkKeys _) (mem_walkKeys .jsonEncode)
      (defineEntry.depth s)
    exact Language.failsAs_define fun _ => failsAs_encodeNode (refusable_shallow _) checked
      (walk.passable fun _ mem => room_of_entry strands depth mem)
  | jsonDecode =>
    have walk := visits_decodeAt strands (mem_walkKeys .jsonDecode) (defineEntry.depth s)
    exact Language.failsAs_define fun _ => failsAs_decodeNode (refusable_shallow _) (fun _ h => h)
      (walk.passable fun _ mem => room_of_entry strands depth mem)
  | jsonStringify =>
    have walk := visits_emitAt strands (isType_mem_walkKeys _) (mem_walkKeys .jsonStringify)
      (defineEntry.depth s)
    exact Language.failsAs_define fun _ => failsAs_emitNode (refusable_shallow _) checked
      (walk.passable fun _ mem => room_of_entry strands depth mem)

/-- **A type whose strands are bounded is never too deep** for an engine that may go as deep as a
strand for each function and one more. -/
theorem functions_not_tooDeep (strands : ∀ k id, s.Strand k id → k ≤ height)
    (depth : (2 * s.ownIdentities.card + 1) * height < s.maxDepth) {id : NodeId} {target : Target}
    {e : CompileError} (h : functions s id target = .error e) : ¬e.TooDeep :=
  failsAs_functions (shallow_defineEntry strands depth id target) (fun _ _ h => h) h

end Walks

end Compile

end Typeforge
