/-
# `Typeforge.Proofs.Lowering.Isomorphic` — naming is the same on a copy

Let a map carry all that a node reaches over to another arena, one to one, so that
every node says there what it says here and has the same children in the same order.
Then naming runs there as it runs here, step by step, as long as the same texts are
kept on both sides: the same names come out, and the same texts are kept afterwards.

The kept texts are what it depends on.  They are the same for the roots of two lowered
arenas, since a root is the first node of its arena and is named before all others.
-/
import Typeforge.Proofs.Lowering.Places
import Typeforge.Proofs.Lowering.Spelling

namespace Typeforge

namespace Arena

variable {a b : Arena} {f : NodeId → NodeId} {x id : NodeId} {stack : List NodeId}

/-- A map that carries what a node reaches over to another arena, each node to one that says the
same and has the same children. -/
structure Isomorphism (a b : Arena) (f : NodeId → NodeId) (x : NodeId) : Prop where
  injective : ∀ y z, a.Reaches x y → a.Reaches x z → f y = f z → y = z
  head : ∀ z, a.Reaches x z → (b.node (f z)).head = (a.node z).head
  children : ∀ z, a.Reaches x z → (b.node (f z)).children = (a.node z).children.map f

theorem Isomorphism.reaches (iso : a.Isomorphism b f x) {z : NodeId} (hz : a.Reaches x z) :
    b.Reaches (f x) (f z) := by
  induction hz with
  | refl => exact .refl
  | @tail y z hy hz ih =>
    refine ih.tail ?_
    rw [iso.children y hy]
    exact List.mem_map_of_mem hz

theorem mem_ids_of_reaches (closed : ∀ id, ∀ child ∈ (a.node id).children, child ∈ a.ids)
    (hx : x ∈ a.ids) {z : NodeId} (hz : a.Reaches x z) : z ∈ a.ids := by
  induction hz with
  | refl => exact hx
  | @tail y z _ hz _ => exact closed y z hz

theorem Isomorphism.mem_ids (iso : a.Isomorphism b f x)
    (closed : ∀ id, ∀ child ∈ (b.node id).children, child ∈ b.ids) (hx : f x ∈ b.ids) {z : NodeId}
    (hz : a.Reaches x z) : f z ∈ b.ids :=
  mem_ids_of_reaches closed hx (iso.reaches hz)

/-- Nodes stand in the same places of a stack and its copy. -/
theorem Isomorphism.findIdx?_map (iso : a.Isomorphism b f x) (hid : a.Reaches x id)
    (hstack : ∀ s ∈ stack, a.Reaches x s) :
    (stack.map f).findIdx? (· == f id) = stack.findIdx? (· == id) := by
  induction stack with
  | nil => rfl
  | cons s stack ih =>
    obtain ⟨hs, hstack⟩ := List.forall_mem_cons.mp hstack
    have heq : (f s == f id) = (s == id) := by
      rw [Bool.eq_iff_iff, beq_iff_eq, beq_iff_eq]
      exact ⟨iso.injective s id hs hid, congrArg f⟩
    rw [List.map_cons, List.findIdx?_cons, List.findIdx?_cons, heq, ih hstack]

/-! ## Names side by side -/

/-- The same texts are kept for nodes and for those that they are carried to. -/
def KeptAlike (a : Arena) (f : NodeId → NodeId) (x : NodeId) (kept copy : Array (Option String)) :
    Prop :=
  ∀ z, a.Reaches x z → keptText copy (f z) = keptText kept z

theorem KeptAlike.set {kept copy : Array (Option String)} (alike : a.KeptAlike f x kept copy)
    (iso : a.Isomorphism b f x) (hid : a.Reaches x id) (hbounds : id.index < kept.size)
    (hcopy : (f id).index < copy.size) (text : String) :
    a.KeptAlike f x (kept.setIfInBounds id.index (some text))
      (copy.setIfInBounds (f id).index (some text)) := by
  intro z hz
  by_cases heq : z = id
  · subst heq
    rw [keptText_set_self hbounds, keptText_set_self hcopy]
  · rw [keptText_set_ne heq, keptText_set_ne fun h => heq (iso.injective z id hz hid h)]
    exact alike z hz

/-- Naming comes to the same on the other side. -/
def SameNames (a b : Arena) (f : NodeId → NodeId) (x : NodeId) {α : Type} (naming : Naming α)
    (copy : Array (Option String)) (named : α) (kept : Array (Option String)) : Prop :=
  ∃ copy', naming.run copy = (named, copy') ∧ copy'.size = b.size ∧ a.KeptAlike f x kept copy'

/-- A node's name is the same on the other side, with the same kept there. -/
def NamesAlike (a b : Arena) (f : NodeId → NodeId) (x : NodeId) (stack : List NodeId) : Outcome :=
  fun kept id named kept' => (∀ s ∈ id :: stack, a.Reaches x s) →
    ∀ (fuel : Nat) (copy : Array (Option String)), stack.Nodup →
      stack.length + fuel = b.size + 1 → copy.size = b.size → a.KeptAlike f x kept copy →
      a.SameNames b f x (b.nameNode fuel (stack.map f) (f id)) copy named kept'

/-- Nodes that are named one after the other. -/
theorem sameNames_nameAll {kept kept' : Array (Option String)} {ids : List NodeId}
    {texts : List String} {lowest : Option Nat} {fuel : Nat}
    (h : NamesEach (a.NamesAlike b f x stack) kept ids texts lowest kept')
    (hids : ∀ id ∈ ids, a.Reaches x id) (hstack : ∀ s ∈ stack, a.Reaches x s)
    (nodup : stack.Nodup) (room : stack.length + fuel = b.size + 1)
    {copy : Array (Option String)} (hsize : copy.size = b.size)
    (alike : a.KeptAlike f x kept copy) :
    a.SameNames b f x (nameAll (b.nameNode fuel (stack.map f)) (ids.map f)) copy (texts, lowest)
      kept' := by
  induction h generalizing copy with
  | nil => exact ⟨copy, rfl, hsize, alike⟩
  | cons hfirst _ ih =>
    obtain ⟨hid, hids⟩ := List.forall_mem_cons.mp hids
    obtain ⟨copy₁, hrun, hsize₁, alike₁⟩ :=
      hfirst (List.forall_mem_cons.mpr ⟨hid, hstack⟩) fuel copy nodup room hsize alike
    obtain ⟨copy₂, hrun', hsize₂, alike₂⟩ := ih hids hsize₁ alike₁
    refine ⟨copy₂, ?_, hsize₂, alike₂⟩
    rw [List.map_cons, nameAll, StateT.run_bind, hrun]
    refine (StateT.run_bind _ _ _).trans ?_
    rw [hrun']
    rfl

section

variable (iso : a.Isomorphism b f x) (hx : f x ∈ b.ids)
  (closed : ∀ id, ∀ child ∈ (b.node id).children, child ∈ b.ids)

include iso hx closed

/-- On the copy of a stack there is room for another node as well. -/
theorem exists_room {fuel : Nat} (hstack : ∀ s ∈ stack, a.Reaches x s) (nodup : stack.Nodup)
    (room : stack.length + fuel = b.size + 1) : ∃ more, fuel = more + 1 := by
  have hnodup : (stack.map f).Nodup := nodup.map_on fun y hy z hz =>
    iso.injective y z (hstack y hy) (hstack z hz)
  have hinside : stack.map f ⊆ b.ids := by
    intro y hy
    obtain ⟨s, hs, rfl⟩ := List.mem_map.mp hy
    exact iso.mem_ids closed hx (hstack s hs)
  have hle := (List.subperm_of_subset hnodup hinside).length_le
  rw [List.length_map, ids, List.length_map, List.length_range] at hle
  exact ⟨fuel - 1, by omega⟩

/-- A node that is met for the first time. -/
theorem namesAlike_new {kept kept' : Array (Option String)} {texts : List String}
    {lowest : Option Nat} (hkept : keptText kept id = none) (hnew : id ∉ stack)
    (hbounds : id.index < kept'.size)
    (each : NamesEach (a.NamesAlike b f x (id :: stack)) kept (a.node id).children texts lowest
      kept') :
    a.NamesAlike b f x stack kept id ⟨(a.node id).describe texts, lowest⟩
      (if levelsTo stack lowest = 0
        then kept'.setIfInBounds id.index (some ((a.node id).describe texts)) else kept') := by
  intro reach fuel copy nodup hroom hsize alike
  obtain ⟨hid, hstack⟩ := List.forall_mem_cons.mp reach
  obtain ⟨more, rfl⟩ := exists_room iso hx closed hstack nodup hroom
  have hnew' : f id ∉ stack.map f := by
    rw [← findIdx?_eq_none, iso.findIdx?_map hid hstack]
    exact findIdx?_eq_none.mpr hnew
  have hroom' : (id :: stack).length + more = b.size + 1 := by
    rw [List.length_cons]
    omega
  obtain ⟨copy', hrun, hsize', alike'⟩ := sameNames_nameAll each
    (fun child hchild => hid.tail hchild) reach (List.nodup_cons.mpr ⟨hnew, nodup⟩) hroom' hsize
    alike
  rw [← iso.children id hid, List.map_cons] at hrun
  have hlevels : levelsTo (stack.map f) lowest = levelsTo stack lowest := by
    cases lowest <;> simp only [levelsTo, List.length_map]
  have hdescribe : (b.node (f id)).describe texts = (a.node id).describe texts := by
    rw [Node.describe_eq, Node.describe_eq, iso.head id hid]
  have hall := run_nameNode_of_new (a := b) more ((alike id hid).trans hkept) hnew'
  rw [hrun] at hall
  dsimp only at hall
  rw [hlevels, hdescribe] at hall
  refine ⟨_, hall, ?_, ?_⟩
  · split
    · exact Array.size_setIfInBounds.trans hsize'
    · exact hsize'
  · split
    · exact alike'.set iso hid hbounds (hsize' ▸ Arena.mem_ids.mp (iso.mem_ids closed hx hid)) _
    · exact alike'

/-- **Naming runs on a copy as it runs here**, if the same texts are kept. -/
theorem sameNames_nameNode {kept copy : Array (Option String)}
    (closed' : ∀ id, ∀ child ∈ (a.node id).children, child ∈ a.ids) (hx' : x ∈ a.ids)
    (hsize : kept.size = a.size) (hcopy : copy.size = b.size)
    (alike : a.KeptAlike f x kept copy) :
    a.SameNames b f x (b.nameNode (b.size + 1) [] (f x)) copy
      ((a.nameNode (a.size + 1) [] x).run kept).1
      ((a.nameNode (a.size + 1) [] x).run kept).2 := by
  have names : a.NamesAlike b f x [] kept x ((a.nameNode (a.size + 1) [] x).run kept).1
      ((a.nameNode (a.size + 1) [] x).run kept).2 := by
    refine (nameNode_rule closed' (a.NamesAlike b f x) ?_ ?_ ?_ hx' List.nodup_nil (List.nil_subset _)
      (Nat.zero_add _) hsize).1
    · intro stack kept id text hkept reach fuel copy nodup room hsize alike
      obtain ⟨hid, hstack⟩ := List.forall_mem_cons.mp reach
      obtain ⟨more, rfl⟩ := exists_room iso hx closed hstack nodup room
      exact ⟨copy, run_nameNode_of_kept more _ ((alike id hid).trans hkept), hsize, alike⟩
    · intro stack kept id up hkept hfind reach fuel copy nodup room hsize alike
      obtain ⟨hid, hstack⟩ := List.forall_mem_cons.mp reach
      obtain ⟨more, rfl⟩ := exists_room iso hx closed hstack nodup room
      refine ⟨copy, ?_, hsize, alike⟩
      have hlength : (stack.map f).length = stack.length := List.length_map _
      rw [← hlength]
      exact run_nameNode_of_mem more ((alike id hid).trans hkept)
        ((iso.findIdx?_map hid hstack).trans hfind)
    · intro stack kept id texts lowest kept' hkept hnew hbounds each
      exact namesAlike_new iso hx closed hkept hnew hbounds each
  exact names (List.forall_mem_singleton.mpr .refl) (b.size + 1) copy List.nodup_nil
    (Nat.zero_add _) hcopy alike

end

end Arena

end Typeforge
