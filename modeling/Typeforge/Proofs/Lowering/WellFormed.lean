/-
# `Typeforge.Proofs.Lowering.WellFormed` — lowered arenas are well formed

What consumers of an arena rely on: references lead to nodes, each declaration has
one node, members stand where they belong, and whoever follows references for
ever comes by a circular node.

One place is left open.  Whether a member of a tuple is a rest element is asked of
its node when the tuple is filled in.  The node of a member that is still being
lowered, because the tuple stands somewhere below it, has no shape to tell; so a
rest element may have other members behind it after all, when it is circular
(`Folded.rest_before_others`).

Where every reference of a graph leads to a node, lowering looks at no other.
`Arena.wellFormed_of_lower` is both, for every graph and every root.
-/
import Typeforge.Proofs.Lowering.Errors
import Typeforge.Proofs.Lowering.Places
import Typeforge.Proofs.Samples

namespace Typeforge

/-! ## References that lead nowhere -/

namespace TypeGraph

variable {g : TypeGraph} {id : TypeId}

def Resolves (g : TypeGraph) (id : TypeId) : Prop := ∃ node, g.node id = .ok node

/-- Every reference of a declaration leads to one. -/
def Closed (g : TypeGraph) : Prop :=
  ∀ id node, g.node id = .ok node → ∀ child ∈ node.kind.children, g.Resolves child

/-- Looking up a declaration that is there goes well. -/
theorem Resolves.reads (h : g.Resolves id) (bad : CompileError → Prop) : g.Reads bad id := by
  intro e hnode
  obtain ⟨node, hok⟩ := h
  rw [hok] at hnode
  cases hnode

/-- A loop of checks that goes through has gone through each of them. -/
theorem exists_of_forIn {α β : Type} {f : α → Except CompileError β} {xs : List α} {u : Unit}
    (h : (forIn xs () fun x _ => do
      let _ ← f x
      pure (ForInStep.yield ())) = .ok u) : ∀ x ∈ xs, ∃ y, f x = .ok y := by
  induction xs with
  | nil => exact List.forall_mem_nil _
  | cons x rest ih =>
    rw [List.forIn_cons] at h
    obtain ⟨step, hstep, h⟩ := Except.bind_eq_ok.mp h
    obtain ⟨y, hx, hstep⟩ := Except.bind_eq_ok.mp hstep
    cases hstep
    exact List.forall_mem_cons.mpr ⟨⟨y, hx⟩, ih h⟩

/-- A graph that passes validation is closed. -/
theorem closed_of_validate (h : g.validate = .ok ()) : g.Closed := by
  unfold validate at h
  obtain ⟨_, hnodes, -⟩ := Except.bind_eq_ok.mp h
  intro id node hnode child hchild
  have hmem : node ∈ g.nodes.toList := by
    unfold TypeGraph.node at hnode
    split at hnode
    · rename_i n hn
      cases hnode
      exact Array.mem_toList_iff.mpr (Array.mem_of_getElem? hn)
    · cases hnode
  obtain ⟨_, hchildren⟩ := exists_of_forIn hnodes node hmem
  exact exists_of_forIn hchildren child hchild

end TypeGraph

/-! ## The whole -/

namespace Arena

variable {a : Arena}

/-- Nodes each of which refers to the next, and the last to the first. -/
def Cycle (a : Arena) (first : NodeId) (rest : List NodeId) : Prop :=
  List.IsChain (fun id child => child ∈ (a.node id).children) (first :: rest ++ [first])

/-- What consumers of an arena rely on. -/
structure WellFormed (a : Arena) : Prop extends a.MembersInPlace, a.ElementsInPlace where
  root : a.root ∈ a.ids
  children : ∀ id, ∀ child ∈ (a.node id).children, child ∈ a.ids
  sources : ∀ id ∈ a.ids, ∀ id' ∈ a.ids, (a.node id).source = (a.node id').source → id = id'
  circular : ∀ first rest, a.Cycle first rest →
    ∃ id ∈ first :: rest, (a.node id).isCircular = true

/-- Where ranks fall along references, but those to circular nodes, every cycle has one. -/
theorem RankedBy.exists_circular {rank : NodeId → Nat} (ranked : a.RankedBy rank) {first : NodeId}
    {rest : List NodeId} (cycle : a.Cycle first rest) :
    ∃ id ∈ first :: rest, (a.node id).isCircular = true := by
  by_contra hnone
  have plain : ∀ id ∈ first :: rest ++ [first], (a.node id).isCircular = false := by
    intro id hid
    refine Bool.eq_false_iff.mpr fun hcircular => hnone ⟨id, ?_, hcircular⟩
    rcases List.mem_append.mp hid with hid | hid
    · exact hid
    · exact List.mem_singleton.mp hid ▸ List.mem_cons_self
  have falls : List.IsChain (fun id child => rank child < rank id) (first :: rest ++ [first]) := by
    refine List.IsChain.imp_of_mem_imp (fun id child _ hchild refers => ?_) cycle
    exact ranked id child refers (plain child hchild)
  have trans : IsTrans NodeId fun id child => rank child < rank id :=
    ⟨fun _ _ _ h h' => h'.trans h⟩
  have hpairwise := List.pairwise_cons.mp falls.pairwise
  exact Nat.lt_irrefl _ (hpairwise.1 first (List.mem_append_right rest (List.mem_singleton_self _)))

/-- All that merging refuses is a conflict. -/
theorem conflict_of_mergeIndexes {aside : List (NodeId × NodeId)} {changed : Bool} {e : CompileError}
    (h : a.mergeIndexes changed aside = .error e) : ∃ name, e = .conflictingIndexSignatures name := by
  induction aside generalizing a changed with
  | nil => cases h
  | cons x rest ih =>
    rw [mergeIndexes] at h
    cases hfirst : a.mergeIndex x.1 x.2 with
    | ok s =>
      rw [hfirst] at h
      exact ih h
    | error e' =>
      rw [hfirst] at h
      cases h
      unfold mergeIndex at hfirst
      dsimp only at hfirst
      split at hfirst
      · split at hfirst
        · split at hfirst
          · cases hfirst
            exact ⟨_, rfl⟩
          · split at hfirst <;> cases hfirst
        · cases hfirst
      · cases hfirst

/-- **Lowering builds a well-formed arena**, and from a root of a valid graph it follows no
reference that leads nowhere. -/
theorem wellFormed_of_lower (g : TypeGraph) (root : TypeId) (maxDepth : Nat) :
    (∀ a, lower g root maxDepth = .ok a → a.WellFormed) ∧
    (g.validate = .ok () → g.Resolves root →
      ∀ id, lower g root maxDepth ≠ .error (.danglingType id)) := by
  refine ⟨fun a h => ?_, fun valid resolves id h => ?_⟩
  · obtain ⟨s, hwalk, completes⟩ := exists_completes_of_lower h
    obtain ⟨hroot, filled, -⟩ := Walk.filled_of_lowerType hwalk
    obtain ⟨finished, stage, -, -⟩ := Walk.advances_lowerType hwalk [] [] WalkState.stage_empty
    obtain ⟨rank, ranked⟩ := exists_rankedBy_of_lower h
    have hin {id : NodeId} (hid : id ∈ a.ids) : id.index < s.nodes.size := by
      rw [completes.size]
      exact mem_ids.mp hid
    exact {
      completes.membersInPlace filled, completes.elementsInPlace filled with
      root := by
        rw [mem_ids, ← completes.size]
        exact hroot.1
      children := mem_ids_of_lower h
      sources := fun id hid id' hid' hsource => by
        rw [← completes.source, ← completes.source] at hsource
        exact stage.sources id id' (hin hid) (hin hid') hsource
      circular := fun _ _ => ranked.exists_circular }
  · have closed := TypeGraph.closed_of_validate valid
    unfold lower at h
    cases hwalk : (Walk.lowerType g maxDepth (maxDepth + 1) [] root).run {} with
    | error e =>
      rw [hwalk] at h
      cases h
      exact Walk.avoids_lowerType (· = .danglingType id) (fun _ h => .inl ⟨id, h⟩)
        (fun other node hnode child hchild => (closed other node hnode child hchild).reads _)
        (resolves.reads _) {} _ hwalk rfl
    | ok r =>
      rw [hwalk] at h
      change (mergeIndexes _ false r.2.aside >>= _) = _ at h
      cases hmerge : mergeIndexes (Arena.mk r.2.nodes r.1).markJsonNeeds.assignIdentities false
          r.2.aside with
      | error e =>
        rw [hmerge] at h
        cases h
        obtain ⟨name, hname⟩ := conflict_of_mergeIndexes hmerge
        cases hname
      | ok b =>
        rw [hmerge] at h
        cases h

end Arena

/-! ## A rest element with others behind it -/

namespace Folded

/-- A tuple of rest elements, each a tuple of such elements and a string. -/
def sample : Sample where
  graph := {
    nodes := #[
      ⟨.tuple [⟨1⟩], none⟩,
      ⟨.rest ⟨2⟩, none⟩,
      ⟨.tuple [⟨1⟩, ⟨3⟩], none⟩,
      ⟨.tupleMember ⟨4⟩ false none, none⟩,
      ⟨.string, none⟩]
    roots := [("Folded", ⟨0⟩)] }

def elements : Shape → List NodeId
  | .tuple members => members
  | _ => []

/-- What is computed here: the sample.graph is valid and is lowered, and the inner tuple has a rest element
first, which is circular. -/
theorem computed : sample.graph.validate.isOk = true ∧ (sample.graph.node ⟨0⟩).isOk = true ∧
    sample.loads = true ∧
    elements (sample.arena.node ⟨2⟩).shape = [⟨1⟩, ⟨3⟩] ∧
    (sample.arena.node ⟨1⟩).shape.isRest = true := by
  decide +kernel

theorem wellFormed : sample.graph.validate = .ok () ∧ sample.graph.Resolves ⟨0⟩ ∧
    Arena.lower sample.graph ⟨0⟩ 64 = .ok sample.arena ∧ sample.arena.WellFormed ∧
    ∀ id, Arena.lower sample.graph ⟨0⟩ 64 ≠ .error (.danglingType id) := by
  obtain ⟨valid, resolves, loads, -⟩ := computed
  have valid : sample.graph.validate = .ok () := Except.eq_ok_getD valid ()
  have resolves : sample.graph.Resolves ⟨0⟩ := ⟨_, Except.eq_ok_getD resolves default⟩
  have lowers := Sample.lowered loads
  obtain ⟨wellFormed, neverDangles⟩ := Arena.wellFormed_of_lower sample.graph ⟨0⟩ 64
  exact ⟨valid, resolves, lowers, wellFormed sample.arena lowers, neverDangles valid resolves⟩

/-- Not every rest element of a lowered tuple is its last member. -/
theorem rest_before_others : ¬∀ (g : TypeGraph) (root : TypeId) (maxDepth : Nat) (a : Arena),
    Arena.lower g root maxDepth = .ok a → ∀ id members, (a.node id).shape = .tuple members →
      ∀ m ∈ members.dropLast, (a.node m).shape.isRest = false := by
  intro h
  obtain ⟨-, -, loads, hmembers, hrest⟩ := computed
  have hshape : (sample.arena.node ⟨2⟩).shape = .tuple [⟨1⟩, ⟨3⟩] := by
    cases hnode : (sample.arena.node ⟨2⟩).shape <;> rw [hnode, elements] at hmembers <;> cases hmembers
    rfl
  have hnot := h sample.graph ⟨0⟩ 64 sample.arena (Sample.lowered loads) ⟨2⟩ _ hshape ⟨1⟩ (by decide)
  rw [hrest] at hnot
  cases hnot

end Folded

end Typeforge
