/-
# `Typeforge.Proofs.Lowering.Identical` — identical structures and their identities

A copy of a structure has the same name as the structure if nothing is kept when it is
named, or if only plain trees can be.  So two copies that are the roots of what was
lowered share their identity, and so do copies that are gated in their arenas, or that
reach no cycle: whatever else the arenas hold, and wherever the copies stand.

Elsewhere they need not.  A cycle that is entered at two nodes is named as it is seen
from the first of them, and from there the second has another name than a copy has
that is entered at its own place.  Both names spell both copies, but the texts differ
(`Ring.identities_differ`).

`Arena.identity_of_isomorphism` states both.  A copy is an `Arena.Isomorphism` of what
can be reached from a node; `Arena.SelfNamed` says that a node is gated or reaches no
cycle.
-/
import Typeforge.Proofs.Lowering.Gates
import Typeforge.Proofs.Samples

namespace Typeforge

namespace Arena

variable {a b c d : Arena} {f : NodeId → NodeId} {x id : NodeId}

/-! ## Arenas that differ in facts only -/

theorem Alike.closed (alike : a.Alike b)
    (closed : ∀ id, ∀ child ∈ (a.node id).children, child ∈ a.ids) :
    ∀ id, ∀ child ∈ (b.node id).children, child ∈ b.ids := by
  intro id child hchild
  rw [← alike.children] at hchild
  rw [mem_ids, ← alike.size, ← mem_ids]
  exact closed id child hchild

theorem Alike.mem_ids (alike : a.Alike b) (hid : id ∈ a.ids) : id ∈ b.ids := by
  rw [Arena.mem_ids, ← alike.size]
  exact Arena.mem_ids.mp hid

theorem Alike.head (alike : a.Alike b) (id : NodeId) : (a.node id).head = (b.node id).head :=
  Option.some.inj (alike.headAt id [])

theorem Spells.of_alike {stack : List NodeId} {t : Spelling} (h : a.Spells stack t id)
    (alike : a.Alike b) : b.Spells stack t id := by
  induction h with
  | @node stack id kids length _ ih =>
    rw [alike.head]
    refine .node (by rw [length, alike.children]) fun i kid child hkid hchild => ?_
    rw [← alike.children] at hchild
    exact ih i kid child hkid hchild
  | back h => exact .back h

theorem Isomorphism.of_alike (iso : a.Isomorphism b f x) (left : a.Alike c) (right : b.Alike d) :
    c.Isomorphism d f x where
  injective y z hy hz := iso.injective y z (left.symm.reaches hy) (left.symm.reaches hz)
  head z hz := by
    rw [← right.head, ← left.head]
    exact iso.head z (left.symm.reaches hz)
  children z hz := by
    rw [← right.children, ← left.children]
    exact iso.children z (left.symm.reaches hz)

theorem Gate.of_alike {r e : NodeId} (gate : a.Gate r e) (alike : a.Alike b) : b.Gate r e where
  reached := alike.reaches gate.reached
  root h := gate.root (alike.symm.reaches h)
  only z child hz hchild hout hback hnot := by
    rw [← alike.children] at hchild
    exact gate.only z child (alike.symm.reaches hz) hchild (alike.symm.reaches hout)
      (alike.symm.reaches hback) fun h => hnot (alike.reaches h)

/-- A node whose identity depends on nothing but what it reaches. -/
def SelfNamed (a : Arena) (r x : NodeId) : Prop :=
  a.Gated r x ∨ a.Acyclic x

theorem SelfNamed.of_alike {r : NodeId} (h : a.SelfNamed r x) (alike : a.Alike b) :
    b.SelfNamed r x := by
  rcases h with gated | acyclic
  · refine .inl ⟨gated.gate.of_alike alike, ?_⟩
    intro z hz
    obtain ⟨e, gate, hout, hback⟩ := gated.below z (alike.symm.reaches hz)
    exact ⟨e, gate.of_alike alike, alike.reaches hout, alike.reaches hback⟩
  · refine .inr ?_
    intro z hz child hchild hback
    rw [← alike.children] at hchild
    exact acyclic z (alike.symm.reaches hz) child hchild (alike.symm.reaches hback)

/-! ## Identities and plain trees -/

section

variable (closed : ∀ id, ∀ child ∈ (a.node id).children, child ∈ a.ids)

theorem ids_eq_cons (hroot : ⟨0⟩ ∈ a.ids) : ∃ rest, a.ids = ⟨0⟩ :: rest := by
  obtain ⟨more, hmore⟩ := Nat.exists_eq_add_one.mpr (mem_ids.mp hroot)
  refine ⟨((List.range more).map (· + 1)).map NodeId.mk, ?_⟩
  rw [ids, hmore, List.range_succ_eq_map]
  rfl

/-- The first node is named when nothing is kept. -/
theorem identity_first (hroot : ⟨0⟩ ∈ a.ids) : (a.assignIdentities.node ⟨0⟩).identity =
    ((a.nameNode (a.size + 1) [] ⟨0⟩).run (Array.replicate a.size none)).1.text := by
  obtain ⟨rest, hids⟩ := ids_eq_cons hroot
  have hidentity := getElem?_identities ⟨0⟩ hroot
  change ((a.nameRoots a.ids).run _).1[0]? = _ at hidentity
  rw [hids, nameRoots, List.mapM_cons] at hidentity
  exact (Option.some.inj hidentity).symm

include closed

/-- A node for which a text was kept before the second node was named is called by it. -/
theorem identity_of_kept (hroot : ⟨0⟩ ∈ a.ids) (hx : x ∈ a.ids) (hne : x ≠ ⟨0⟩) {text : String}
    (hkept : keptText
      ((a.nameNode (a.size + 1) [] ⟨0⟩).run (Array.replicate a.size none)).2 x = some text) :
    (a.assignIdentities.node x).identity = text := by
  obtain ⟨rest, hids⟩ := ids_eq_cons hroot
  have hget := getElem?_ids hx
  have hidentity := getElem?_identities x hx
  change ((a.nameRoots a.ids).run _).1[x.index]? = _ at hidentity
  rw [hids] at hget
  rw [hids, nameRoots, List.mapM_cons] at hidentity
  cases hindex : x.index with
  | zero => exact absurd (congrArg NodeId.mk hindex) hne
  | succ i =>
    rw [hindex] at hget hidentity
    have inside : ∀ id ∈ rest, id ∈ a.ids := fun id hid => hids ▸ List.mem_cons_of_mem _ hid
    have hnothing : (Array.replicate a.size (none : Option String)).size = a.size :=
      Array.size_replicate
    have hsize := (persists_nameNode closed hroot hnothing).2
    exact Option.some.inj
      (hidentity.symm.trans (nameRoots_of_kept closed inside hsize hkept hget))

/-- **What names itself is called by its plain tree.** -/
theorem exists_plain_identity (hroot : ⟨0⟩ ∈ a.ids) (hx : x ∈ a.ids) (h : a.SelfNamed ⟨0⟩ x) :
    ∃ t : Spelling, a.Plain [] t x ∧ (a.assignIdentities.node x).identity = t.text := by
  rcases h with gated | acyclic
  · by_cases hne : x = ⟨0⟩
    · subst hne
      obtain ⟨t, plain, htext⟩ := text_of_gated closed hroot gated
      exact ⟨t, plain, (identity_first hroot).trans htext⟩
    · obtain ⟨t, plain, hkept⟩ := keptText_of_gated closed hroot gated
      exact ⟨t, plain, identity_of_kept closed hroot hx hne hkept⟩
  · obtain ⟨t, htext, -, spells⟩ := spelledOut_assignIdentities closed hx
    exact ⟨t, spells.plain acyclic (List.forall_mem_nil _), htext.symm⟩

end

/-! ## Copies -/

/-- A visit gives the first node if there is none yet. -/
def GivesFirst (_ : List TypeId) : Walk.Visit := fun s _ id _ => s.nodes.size = 0 → id = ⟨0⟩

/-- The first node of a lowered arena is its root. -/
theorem root_of_lower {g : TypeGraph} {root : TypeId} {maxDepth : Nat}
    (h : lower g root maxDepth = .ok a) : a.root = ⟨0⟩ ∧ a.root ∈ a.ids := by
  obtain ⟨s, hwalk, completes⟩ := exists_completes_of_lower h
  refine ⟨?_, ?_⟩
  · have first : GivesFirst [] {} root a.root s := by
      refine Walk.lowerType_rule ?_ ?_ hwalk
      · intro above s type id hid hsize
        exact absurd hid.1 (hsize ▸ Nat.not_lt_zero id.index)
      · intro above s type declared visited lowered s₁ _ _ _ _ hsize
        exact congrArg NodeId.mk hsize
    exact first rfl
  · rw [Arena.mem_ids, ← completes.size]
    exact (Walk.filled_of_lowerType hwalk).1.1

/-- A copy unfolds as its original does. -/
theorem Isomorphism.headAt (iso : a.Isomorphism b f x) (hid : a.Reaches x id) (place : List Nat) :
    b.headAt (f id) place = a.headAt id place := by
  induction place generalizing id with
  | nil => exact congrArg some (iso.head id hid)
  | cons i place ih =>
    rw [Arena.headAt, Arena.headAt, iso.children id hid, List.getElem?_map]
    cases hchild : (a.node id).children[i]? with
    | none => rfl
    | some child => exact ih (hid.tail (List.mem_of_getElem? hchild))

/-- **The identity of a copy spells the original as well**, and it is the identity of the original
if both are the roots of their arenas, or both name themselves. -/
theorem identity_of_isomorphism {g g' : TypeGraph} {root root' : TypeId} {maxDepth maxDepth' : Nat}
    (ha : lower g root maxDepth = .ok a) (hb : lower g' root' maxDepth' = .ok b)
    (hx : x ∈ a.ids) (hfx : f x ∈ b.ids) (iso : a.Isomorphism b f x) :
    a.Spelled x (b.node (f x)).identity ∧
      (x = a.root ∧ f x = b.root ∨ a.SelfNamed a.root x ∧ b.SelfNamed b.root (f x) →
        (a.node x).identity = (b.node (f x)).identity) := by
  refine ⟨?_, ?_⟩
  · obtain ⟨t, htext, closed, heads⟩ := (spelled_of_lower hb).1 (f x) hfx
    exact ⟨t, htext, closed, fun place => (heads place).trans (iso.headAt .refl place)⟩
  · obtain ⟨hroot, hmem⟩ := root_of_lower ha
    obtain ⟨hroot', hmem'⟩ := root_of_lower hb
    obtain ⟨c, left, identity⟩ := exists_named_of_lower ha
    obtain ⟨d, right, identity'⟩ := exists_named_of_lower hb
    have hcopy := iso.of_alike left right
    have closed := left.closed (mem_ids_of_lower ha)
    have closed' := right.closed (mem_ids_of_lower hb)
    have hx := left.mem_ids hx
    have hfx := right.mem_ids hfx
    rw [identity, identity', hroot, hroot']
    rw [hroot] at hmem
    rw [hroot'] at hmem'
    rintro (⟨rfl, heq⟩ | ⟨named, named'⟩)
    · -- nothing is kept on either side
      have hsize : (Array.replicate c.size (none : Option String)).size = c.size :=
        Array.size_replicate
      have hsize' : (Array.replicate d.size (none : Option String)).size = d.size :=
        Array.size_replicate
      obtain ⟨kept, hrun, -⟩ := sameNames_nameNode hcopy hfx closed' closed hx hsize hsize'
        fun z _ => (keptText_nothing d.size (f z)).trans (keptText_nothing c.size z).symm
      rw [heq] at hrun ⊢
      rw [identity_first (left.mem_ids hmem), identity_first (right.mem_ids hmem'), hrun]
    · obtain ⟨t, plain, htext⟩ := exists_plain_identity closed (left.mem_ids hmem) hx
        (named.of_alike left)
      obtain ⟨u, plain', hutext⟩ := exists_plain_identity closed' (right.mem_ids hmem') hfx
        (named'.of_alike right)
      have hmap := plain.map hcopy (List.forall_mem_singleton.mpr .refl)
      rw [htext, hutext, hmap.unique plain']

end Arena

/-! ## Rings that are entered at different nodes -/

namespace Ring

/-- Two rings of a union and an array, the first entered at its union and the second at its
array. -/
def graph : TypeGraph where
  nodes := #[
    ⟨.tuple [⟨1⟩, ⟨2⟩], none⟩,
    ⟨.tupleMember ⟨3⟩ false none, none⟩,
    ⟨.tupleMember ⟨6⟩ false none, none⟩,
    ⟨.union [⟨4⟩, ⟨5⟩], none⟩,
    ⟨.array ⟨3⟩, none⟩,
    ⟨.string, none⟩,
    ⟨.array ⟨7⟩, none⟩,
    ⟨.union [⟨6⟩, ⟨8⟩], none⟩,
    ⟨.string, none⟩]
  roots := [("Both", ⟨0⟩), ("First", ⟨3⟩)]

def tuple : Sample := { graph }

def ring : Sample := { graph, root := ⟨3⟩ }

def both : Arena := tuple.arena

def first : Arena := ring.arena

/-- From the first ring in the tuple to the ring alone. -/
def alone (id : NodeId) : NodeId := ⟨id.index - 2⟩

/-- From the first ring to the second. -/
def across : NodeId → NodeId
  | ⟨2⟩ => ⟨7⟩
  | ⟨3⟩ => ⟨6⟩
  | _ => ⟨8⟩

/-- Whether two nodes of the rings say the same. -/
def same : Head → Head → Bool
  | .union, .union | .array, .array | .atom .string, .atom .string => true
  | _, _ => false

theorem eq_of_same {h h' : Head} (hsame : same h h' = true) : h = h' := by
  unfold same at hsame
  split at hsame <;> first | rfl | cases hsame

/-- What there is to look at for a map to carry over what a node reaches. -/
def Copied (a b : Arena) (f : NodeId → NodeId) (x : NodeId) : Prop :=
  (∀ y ∈ a.reachable x, ∀ z ∈ a.reachable x, f y = f z → y = z) ∧
    ∀ z ∈ a.reachable x, same (b.node (f z)).head (a.node z).head = true ∧
      (b.node (f z)).children = (a.node z).children.map f

/-- What there is to look at for a node to be a gate. -/
def Entered (a : Arena) (r e : NodeId) : Prop :=
  e ∈ a.reachable r ∧ (r ∈ a.reachable e → e = r) ∧
    ∀ z ∈ a.reachable r, ∀ child ∈ (a.node z).children, child ∈ a.reachable e →
      e ∈ a.reachable child → z ∉ a.reachable e → child = e

instance (a b : Arena) (f : NodeId → NodeId) (x : NodeId) : Decidable (Copied a b f x) :=
  inferInstanceAs (Decidable (_ ∧ _))

instance (a : Arena) (r e : NodeId) : Decidable (Entered a r e) :=
  inferInstanceAs (Decidable (_ ∧ _))

section

variable {a b : Arena} (closed : ∀ id, ∀ child ∈ (a.node id).children, child ∈ a.ids)

include closed

theorem isomorphism_of_copied {f : NodeId → NodeId} {x : NodeId} (h : Copied a b f x) :
    a.Isomorphism b f x where
  injective y z hy hz := h.1 y (Arena.mem_reachable closed hy) z (Arena.mem_reachable closed hz)
  head z hz := eq_of_same (h.2 z (Arena.mem_reachable closed hz)).1
  children z hz := (h.2 z (Arena.mem_reachable closed hz)).2

theorem gate_of_entered {r e : NodeId} (h : Entered a r e) : a.Gate r e where
  reached := (Arena.reaches_iff closed).mpr h.1
  root hback := h.2.1 (Arena.mem_reachable closed hback)
  only z child hz hchild hout hback hnot := by
    refine h.2.2 z (Arena.mem_reachable closed hz) child hchild (Arena.mem_reachable closed hout)
      (Arena.mem_reachable closed hback) fun hmem => hnot ?_
    exact (Arena.reaches_iff closed).mpr hmem

theorem gated_of_entered {r x : NodeId} (h : Entered a r x)
    (hbelow : ∀ z ∈ a.reachable x, ∃ e ∈ a.reachable z, Entered a r e ∧ z ∈ a.reachable e) :
    a.Gated r x := by
  refine ⟨gate_of_entered closed h, fun z hz => ?_⟩
  obtain ⟨e, he, entered, hback⟩ := hbelow z (Arena.mem_reachable closed hz)
  exact ⟨e, gate_of_entered closed entered, (Arena.reaches_iff closed).mpr hback,
    (Arena.reaches_iff closed).mpr he⟩

end

/-- What is computed here: the rings are lowered, and the first of them is a copy of the ring alone
and of the second. -/
theorem computed : tuple.loads = true ∧ ring.loads = true ∧ both.root = ⟨0⟩ ∧ first.root = ⟨0⟩ ∧
    (∀ id ∈ [⟨2⟩, ⟨7⟩], id ∈ both.ids) ∧ ⟨0⟩ ∈ first.ids ∧
    Copied both first alone ⟨2⟩ ∧ Copied both both across ⟨2⟩ := by
  decide +kernel

/-- The first ring is entered at its union. -/
theorem computed_entered : Entered both ⟨0⟩ ⟨2⟩ ∧ Entered first ⟨0⟩ ⟨0⟩ ∧
    (∀ z ∈ both.reachable ⟨2⟩, ∃ e ∈ both.reachable z,
      Entered both ⟨0⟩ e ∧ z ∈ both.reachable e) ∧
    ∀ z ∈ first.reachable ⟨0⟩, ∃ e ∈ first.reachable z,
      Entered first ⟨0⟩ e ∧ z ∈ first.reachable e := by
  decide +kernel

/-- The ring has the same identity in the tuple and alone. -/
theorem identity_alone : Arena.lower graph ⟨0⟩ 64 = .ok both ∧
    Arena.lower graph ⟨3⟩ 64 = .ok first ∧ ⟨2⟩ ∈ both.ids ∧ ⟨0⟩ ∈ first.ids ∧
    both.Isomorphism first alone ⟨2⟩ ∧ both.SelfNamed both.root ⟨2⟩ ∧
    first.SelfNamed first.root ⟨0⟩ ∧ both.Spelled ⟨2⟩ (first.node ⟨0⟩).identity ∧
    (both.node ⟨2⟩).identity = (first.node ⟨0⟩).identity := by
  obtain ⟨loads, loads', hroot, hroot', hids, hid', copied, -⟩ := computed
  obtain ⟨entered, entered', below, below'⟩ := computed_entered
  have lowers := Sample.lowered loads
  have lowers' := Sample.lowered loads'
  have closed := Arena.mem_ids_of_lower lowers
  have iso := isomorphism_of_copied closed copied
  have named : both.SelfNamed both.root ⟨2⟩ := by
    rw [hroot]
    exact .inl (gated_of_entered closed entered below)
  have named' : first.SelfNamed first.root ⟨0⟩ := by
    rw [hroot']
    exact .inl (gated_of_entered (Arena.mem_ids_of_lower lowers') entered' below')
  have hid := hids ⟨2⟩ List.mem_cons_self
  obtain ⟨spelled, identity⟩ := Arena.identity_of_isomorphism lowers lowers' hid hid' iso
  exact ⟨lowers, lowers', hid, hid', iso, named, named', spelled, identity (.inr ⟨named, named'⟩)⟩

/-- What is computed here: the unions of the two rings are called differently, and nodes of the rings
differ in no flag or name. -/
theorem computed_identities :
    (both.node ⟨2⟩).identity = "union<array<$2>|string>" ∧
    (both.node ⟨7⟩).identity = "union<array<union<$2|string>>|string>" ∧
    ∀ z ∈ both.reachable ⟨2⟩, (both.node (across z)).optional = (both.node z).optional ∧
      (both.node (across z)).readonly = (both.node z).readonly ∧
      (both.node (across z)).typeName = (both.node z).typeName := by
  decide +kernel

/-- Copies in lowered arenas need not have the same identity. -/
theorem identities_differ : ¬∀ (g g' : TypeGraph) (root root' : TypeId) (maxDepth maxDepth' : Nat)
    (a b : Arena) (f : NodeId → NodeId) (x : NodeId), Arena.lower g root maxDepth = .ok a →
      Arena.lower g' root' maxDepth' = .ok b → x ∈ a.ids → f x ∈ b.ids → a.Isomorphism b f x →
      (∀ z, a.Reaches x z → (b.node (f z)).optional = (a.node z).optional ∧
        (b.node (f z)).readonly = (a.node z).readonly ∧
        (b.node (f z)).typeName = (a.node z).typeName) →
      (a.node x).identity = (b.node (f x)).identity := by
  intro h
  obtain ⟨loads, -, -, -, hids, -, -, copied⟩ := computed
  obtain ⟨hfirst, hsecond, hflags⟩ := computed_identities
  have lowers := Sample.lowered loads
  have closed := Arena.mem_ids_of_lower lowers
  have hsame := h graph graph ⟨0⟩ ⟨0⟩ 64 64 both both across ⟨2⟩ lowers lowers
    (hids ⟨2⟩ List.mem_cons_self) (hids ⟨7⟩ (List.mem_cons_of_mem _ List.mem_cons_self))
    (isomorphism_of_copied closed copied) fun z hz => hflags z (Arena.mem_reachable closed hz)
  change _ = (both.node ⟨7⟩).identity at hsame
  rw [hfirst, hsecond] at hsame
  exact absurd hsame (by decide)

end Ring

end Typeforge
