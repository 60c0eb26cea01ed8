/-
# `Typeforge.Proofs.Lowering.Cycles` — every cycle has a circular node

The walk over a graph finishes nodes one after the other.  A node refers to what
its declaration refers to: to declarations that were finished before, to those it
made the walk finish on the way, and to those that are still pending above it.
Whatever is pending is marked circular when it is met again.  So a node refers to
earlier ones and to circular ones only, and a cycle of references that avoids the
circular nodes would go back in time for ever.

Main result: the nodes of a lowered arena can be ranked such that ranks fall along
all references, but those to circular nodes.
-/
import Typeforge.Proofs.Lowering.Merging
import Typeforge.Proofs.Lowering.Visits

namespace Typeforge

/-! ## Stages of a walk -/

namespace WalkState

/-- The nodes a node refers to, index signatures put aside included. -/
def references (s : WalkState) (id : NodeId) : List NodeId :=
  (s.node id).children ++ (s.aside.filter (·.1 == id)).map (·.2)

/-- A node that anything may refer to. -/
def Settled (s : WalkState) (finished : List NodeId) (id : NodeId) : Prop :=
  id ∈ finished ∨ (s.node id).isCircular = true

/-- Nodes in the order they were finished, the last one first: each refers to earlier ones, and to
circular ones. -/
def Ordered (s : WalkState) : List NodeId → Prop
  | [] => True
  | id :: earlier => (∀ child ∈ s.references id, s.Settled earlier child) ∧ s.Ordered earlier

/-- How far a walk has come: some nodes are finished, and those for the declarations above are
pending. -/
structure Stage (above : List TypeId) (pending finished : List NodeId) (s : WalkState) : Prop where
  ordered : s.Ordered finished
  nodup : finished.Nodup
  covers : ∀ id, id.index < s.nodes.size ↔ id ∈ finished ∨ id ∈ pending
  disjoint : ∀ id ∈ pending, id ∉ finished
  sources : ∀ id id', id.index < s.nodes.size → id'.index < s.nodes.size →
    (s.node id).source = (s.node id').source → id = id'
  above : ∀ type, type ∈ above ↔ ∃ id ∈ pending, (s.node id).source = type
  aside : ∀ x ∈ s.aside, s.Settled finished x.2

/-- What a change of a state keeps that finishes no node. -/
structure Similar (s s' : WalkState) : Prop where
  size : s.nodes.size = s'.nodes.size
  source : ∀ id, (s.node id).source = (s'.node id).source
  circular : ∀ id, (s.node id).isCircular = true → (s'.node id).isCircular = true

/-- From one stage to a later one: what was settled stays settled, and no node changes its source. -/
structure Progress (s : WalkState) (finished : List NodeId) (s' : WalkState)
    (finished' : List NodeId) : Prop where
  settled : s.Settled finished ≤ s'.Settled finished'
  source : ∀ id, id.index < s.nodes.size → (s'.node id).source = (s.node id).source
  size : s.nodes.size ≤ s'.nodes.size

variable {s s' s'' : WalkState} {finished finished' finished'' : List NodeId}

theorem Progress.refl (s : WalkState) (finished : List NodeId) : s.Progress finished s finished :=
  ⟨le_rfl, fun _ _ => rfl, le_rfl⟩

theorem Progress.trans (h : s.Progress finished s' finished')
    (h' : s'.Progress finished' s'' finished'') : s.Progress finished s'' finished'' where
  settled := h.settled.trans h'.settled
  source id hid := (h'.source id (Nat.lt_of_lt_of_le hid h.size)).trans (h.source id hid)
  size := h.size.trans h'.size

theorem Similar.settled (h : s.Similar s') {id : NodeId} (hid : s.Settled finished id) :
    s'.Settled finished id := hid.imp_right (h.circular id)

theorem Similar.progress (h : s.Similar s') : s.Progress finished s' finished :=
  ⟨fun _ hid => h.settled hid, fun id _ => (h.source id).symm, h.size.le⟩

theorem Ordered.mono (h : s.Similar s')
    (references : ∀ id ∈ finished, s.references id = s'.references id) (ordered : s.Ordered finished) :
    s'.Ordered finished := by
  induction finished with
  | nil => trivial
  | cons id earlier ih =>
    refine ⟨fun child hchild => ?_, ih (fun x hx => references x (List.mem_cons_of_mem id hx)) ordered.2⟩
    rw [← references id List.mem_cons_self] at hchild
    exact h.settled (ordered.1 child hchild)

section Stages

variable {above : List TypeId} {pending : List NodeId}

/-- A change that finishes no node and leaves the references of finished ones alone. -/
theorem Stage.similar (h : s.Similar s')
    (references : ∀ id ∈ finished, s.references id = s'.references id)
    (aside : ∀ x ∈ s'.aside, s.Settled finished x.2) (hs : s.Stage above pending finished) :
    s'.Stage above pending finished where
  ordered := hs.ordered.mono h references
  nodup := hs.nodup
  covers id := by rw [← h.size, hs.covers]
  disjoint := hs.disjoint
  sources id id' hid hid' hsource := by
    rw [← h.size] at hid hid'
    rw [← h.source, ← h.source] at hsource
    exact hs.sources id id' hid hid' hsource
  above type := by simp only [hs.above, h.source]
  aside x hx := h.settled (aside x hx)

/-- Putting a settled node aside for a pending object. -/
theorem Stage.putAside (hs : s.Stage above pending finished) {object node : NodeId}
    (hobject : object ∈ pending) (hnode : s.Settled finished node) :
    (s.putAside object node).Stage above pending finished := by
  have similar : s.Similar (s.putAside object node) := ⟨rfl, fun _ => rfl, fun _ h => h⟩
  refine Stage.similar similar (fun id hid => ?_) (fun x hx => ?_) hs
  · have hne : (object == id) = false :=
      beq_eq_false_iff_ne.mpr fun h => hs.disjoint object hobject (h ▸ hid)
    rw [references, references, WalkState.putAside, List.filter_append,
      List.filter_cons_of_neg (by simp [hne]), List.filter_nil, List.append_nil]
    rfl
  · rcases List.mem_append.mp hx with hx | hx
    · exact hs.aside x hx
    · rw [List.mem_singleton.mp hx]
      exact hnode

end Stages

/-! ### Changes of one node -/

/-- Changing facts of a node besides its shape. -/
theorem similar_modifyNode {f : Node → Node} (source : ∀ n, (f n).source = n.source)
    (circular : ∀ n, n.isCircular = true → (f n).isCircular = true) (id : NodeId) :
    s.Similar (s.modifyNode id f) where
  size := (Array.size_modify ..).symm
  source other := (node_modifyNode_eq Node.source source id other).symm
  circular other h := by
    by_cases hother : other = id
    · subst hother
      by_cases hid : other.index < s.nodes.size
      · rw [node_modifyNode_self hid]
        exact circular _ h
      · rw [node, Array.getD_eq_getD_getElem?, Array.getElem?_eq_none (Nat.le_of_not_lt hid)] at h
        cases h
    · rwa [node_modifyNode_of_ne hother]

theorem Stage.modifyNode {above : List TypeId} {pending : List NodeId}
    (hs : s.Stage above pending finished) {f : Node → Node} (source : ∀ n, (f n).source = n.source)
    (circular : ∀ n, n.isCircular = true → (f n).isCircular = true)
    (children : ∀ n, (f n).children = n.children) (id : NodeId) :
    (s.modifyNode id f).Stage above pending finished :=
  Stage.similar (similar_modifyNode source circular id)
    (fun other _ => by
      rw [references, references, node_modifyNode_eq Node.children children]
      rfl)
    hs.aside hs

end WalkState

namespace Walk

open WalkState

variable {above : List TypeId} {pending : List NodeId}

/-- What a declaration is lowered to refers to nodes of its parts. -/
theorem LowersTo.mem_of_child {g : TypeGraph} {kind : TypeKind} {visited : List (Part × NodeId)}
    {shape : Shape} (h : LowersTo g kind visited shape) {child : NodeId}
    (hchild : child ∈ shape.children) : ∃ part, (part, child) ∈ visited := by
  have hin {child : NodeId} {visited : List (Part × NodeId)} (h : child ∈ visited.map (·.2)) :
      ∃ part, (part, child) ∈ visited := by
    obtain ⟨x, hx, rfl⟩ := List.mem_map.mp h
    exact ⟨x.1, hx⟩
  have hrole {role : Role} {child : NodeId} (h : child ∈ nodesOf role visited) :
      child ∈ visited.map (·.2) := by
    obtain ⟨x, hx, rfl⟩ := List.mem_map.mp h
    exact List.mem_map_of_mem (List.mem_of_mem_filter hx)
  refine hin ?_
  cases h with
  | atom | enumeration | date => exact absurd hchild List.not_mem_nil
  | array | tupleMember | tupleRest | rest | property | indexSignature | parameter | restParameter
    | promise => exact hchild
  | tuple => exact hchild
  | object =>
    rcases List.mem_append.mp hchild with hchild | hchild
    · exact hrole hchild
    · exact hrole (List.mem_of_head? (Option.mem_toList.mp hchild))
  | union =>
    split at hchild
    · exact absurd hchild List.not_mem_nil
    · exact hchild
  | function =>
    rw [List.map_append]
    exact hchild

/-! ## The walk -/

/-- A visit goes on from any stage, and the node found is settled. -/
def Advances (above : List TypeId) : Visit := fun s _ id s' =>
  ∀ pending finished, s.Stage above pending finished → ∃ finished',
    s'.Stage above pending finished' ∧ s.Progress finished s' finished' ∧ s'.Settled finished' id

section Meeting

variable {s s' : WalkState} {finished : List NodeId} {type : TypeId}

/-- A node that is met again is settled: it is finished, or pending and marked circular. -/
theorem advances_met {id : NodeId} (hid : NodeFor type s id) :
    Advances above s type id (met above s type id) := by
  intro pending finished hs
  obtain ⟨hin, hsource⟩ := hid
  unfold met
  split
  · have similar := similar_modifyNode (s := s) (f := marked) (fun _ => rfl) (fun _ _ => rfl) id
    have stage := hs.modifyNode (f := marked) (fun _ => rfl) (fun _ _ => rfl) (fun _ => rfl) id
    refine ⟨finished, stage, similar.progress, .inr ?_⟩
    rw [node_modifyNode_self hin]
    rfl
  · rename_i habove
    refine ⟨finished, hs, .refl s finished,
      .inl (((hs.covers id).mp hin).resolve_right fun hpending => ?_)⟩
    exact habove (List.contains_iff_mem.mpr ((hs.above type).mpr ⟨id, hpending, hsource⟩))

theorem node_made_new : (made s type).node ⟨s.nodes.size⟩ = .placeholder type := by
  simp only [made, WalkState.node, Array.getD_eq_getD_getElem?, Array.getElem?_push_size,
    Option.getD_some]

theorem node_made_old {id : NodeId} (hid : id.index ≠ s.nodes.size) :
    (made s type).node id = s.node id := by
  simp only [made, WalkState.node, Array.getD_eq_getD_getElem?, Array.getElem?_push, if_neg hid]

/-- Making a node leaves all others as they were, and those out of bounds without references. -/
theorem progress_made : s.Progress finished (made s type) finished where
  settled := fun id hid => hid.imp_right fun h => by
    by_cases hnew : id.index = s.nodes.size
    · rw [WalkState.node, Array.getD_eq_getD_getElem?, Array.getElem?_eq_none hnew.ge] at h
      cases h
    · rwa [node_made_old hnew]
  source id hid := by rw [node_made_old hid.ne]
  size := by
    simp only [made, Array.size_push]
    exact Nat.le_succ _

/-- A node made for a declaration that had none is pending. -/
theorem stage_made (hs : s.Stage above pending finished)
    (hnew : ∀ id, ¬NodeFor type s id) :
    (made s type).Stage (type :: above) (⟨s.nodes.size⟩ :: pending) finished := by
  have hold {id : NodeId} (hid : id.index < s.nodes.size) : (made s type).node id = s.node id :=
    node_made_old hid.ne
  have hsize {id : NodeId} : id.index < (made s type).nodes.size ↔
      id.index < s.nodes.size ∨ id = ⟨s.nodes.size⟩ := by
    obtain ⟨i⟩ := id
    simp only [made, Array.size_push, NodeId.mk.injEq]
    omega
  have hpending {id : NodeId} (hid : id ∈ pending) : id.index < s.nodes.size :=
    (hs.covers id).mpr (.inr hid)
  exact {
    ordered := by
      have ordered := hs.ordered
      have hin : ∀ id ∈ finished, id.index < s.nodes.size := fun id hid => (hs.covers id).mpr (.inl hid)
      clear hs
      induction finished with
      | nil => trivial
      | cons id earlier ih =>
        refine ⟨fun child hchild => ?_,
          ih ordered.2 fun x hx => hin x (List.mem_cons_of_mem id hx)⟩
        refine progress_made.settled child (ordered.1 child ?_)
        rwa [references, hold (hin id List.mem_cons_self)] at hchild
    nodup := hs.nodup
    covers := fun id => by
      rw [hsize, hs.covers, List.mem_cons, or_assoc, or_comm (a := id ∈ pending)]
    disjoint := List.forall_mem_cons.mpr
      ⟨fun h => absurd ((hs.covers _).mpr (.inl h)) (Nat.lt_irrefl _), hs.disjoint⟩
    sources := fun id id' hid hid' hsource => by
      rcases hsize.mp hid with hid | rfl <;> rcases hsize.mp hid' with hid' | rfl
      · rw [hold hid, hold hid'] at hsource
        exact hs.sources id id' hid hid' hsource
      · rw [hold hid, node_made_new] at hsource
        exact absurd ⟨hid, hsource⟩ (hnew id)
      · rw [hold hid', node_made_new] at hsource
        exact absurd ⟨hid', hsource.symm⟩ (hnew id')
      · rfl
    above := fun t => by
      simp only [List.mem_cons, exists_eq_or_imp, node_made_new, hs.above]
      refine or_congr eq_comm (exists_congr fun id => and_congr_right fun hid => ?_)
      rw [hold (hpending hid)]
    aside := fun x hx => progress_made.settled _ (hs.aside x hx) }

/-- Filling in a pending node, with references to settled nodes, finishes it. -/
theorem stage_finished {id : NodeId} {f : Node → Node}
    (hs : s.Stage (type :: above) (id :: pending) finished)
    (source : ∀ n, (f n).source = n.source) (circular : ∀ n, (f n).isCircular = n.isCircular)
    (children : ∀ n, ∀ child ∈ (f n).children, s.Settled finished child) (hid : id ∉ pending)
    (habove : ∀ t, t ∈ above ↔ ∃ id ∈ pending, (s.node id).source = t) :
    (s.modifyNode id f).Stage above pending (id :: finished) := by
  have similar := similar_modifyNode (s := s) source (fun n h => (circular n).trans h) id
  have hin : id.index < s.nodes.size := (hs.covers id).mpr (.inr List.mem_cons_self)
  have hfinished : id ∉ finished := hs.disjoint id List.mem_cons_self
  exact {
    ordered := by
      refine ⟨fun child hchild => similar.settled ?_, hs.ordered.mono similar fun x hx => ?_⟩
      · rw [references, node_modifyNode_self hin] at hchild
        rcases List.mem_append.mp hchild with hchild | hchild
        · exact children _ child hchild
        · obtain ⟨y, hy, rfl⟩ := List.mem_map.mp hchild
          exact hs.aside y (List.mem_of_mem_filter hy)
      · have hne : x ≠ id := fun h => hfinished (h ▸ hx)
        rw [references, references, node_modifyNode_of_ne hne]
        rfl
    nodup := List.nodup_cons.mpr ⟨hfinished, hs.nodup⟩
    covers := fun x => by
      rw [← similar.size, hs.covers, List.mem_cons, List.mem_cons]
      tauto
    disjoint := fun x hx h => by
      rcases List.mem_cons.mp h with rfl | h
      · exact hid hx
      · exact hs.disjoint x (List.mem_cons_of_mem id hx) h
    sources := fun x y hx hy hsource => by
      rw [← similar.size] at hx hy
      rw [← similar.source, ← similar.source] at hsource
      exact hs.sources x y hx hy hsource
    above := fun t => by simp only [habove, similar.source]
    aside := fun x hx => (similar.settled (hs.aside x hx)).imp_left (List.mem_cons_of_mem id) }

theorem progress_finished {id : NodeId} {f : Node → Node} (source : ∀ n, (f n).source = n.source)
    (circular : ∀ n, (f n).isCircular = n.isCircular) :
    s.Progress finished (s.modifyNode id f) (id :: finished) := by
  have similar := similar_modifyNode (s := s) source (fun n h => (circular n).trans h) id
  exact {
    settled := fun x hx => (similar.settled hx).imp_left (List.mem_cons_of_mem id)
    source := fun x _ => (similar.source x).symm
    size := similar.size.le }

end Meeting

/-- The parts of a pending node are visited one after the other, and their nodes are settled. -/
theorem advances_visits {here : NodeId} {visited : List (Part × NodeId)} {s s' : WalkState}
    {finished : List NodeId} (h : Visits (Counted (Advances above)) here s visited s')
    (hhere : here ∈ pending) (hs : s.Stage above pending finished) :
    ∃ finished', s'.Stage above pending finished' ∧ s.Progress finished s' finished' ∧
      ∀ x ∈ visited, s'.Settled finished' x.2 := by
  induction h generalizing finished with
  | nil => exact ⟨finished, hs, .refl _ finished, nofun⟩
  | @cons s s₁ s' part node rest first _ _ ih =>
    obtain ⟨s₀, visit, rfl⟩ := first
    obtain ⟨finished₁, stage₁, progress₁, hnode⟩ := visit pending finished hs
    have similar := similar_modifyNode (s := s₀) (f := counted) (fun _ => rfl) (fun _ => id) node
    have stage₁ := stage₁.modifyNode (f := counted) (fun _ => rfl) (fun _ => id) (fun _ => rfl) node
    have progress₁ := progress₁.trans similar.progress
    have hnode := similar.settled hnode
    generalize s₀.modifyNode node counted = s₁ at stage₁ progress₁ hnode ih
    -- what is put aside is settled as well
    have hput : (if part.role = .aside then s₁.putAside here node else s₁).Stage above pending
        finished₁ ∧ s₁.Progress finished₁
          (if part.role = .aside then s₁.putAside here node else s₁) finished₁ := by
      split
      · exact ⟨stage₁.putAside hhere hnode, ⟨le_rfl, fun _ _ => rfl, le_rfl⟩⟩
      · exact ⟨stage₁, .refl s₁ finished₁⟩
    obtain ⟨finished', stage', progress', hrest⟩ := ih hput.1
    have progress' := hput.2.trans progress'
    exact ⟨finished', stage', progress₁.trans progress',
      List.forall_mem_cons.mpr ⟨progress'.settled node hnode, hrest⟩⟩

theorem advances_lowerType {g : TypeGraph} {limit depth : Nat} {above : List TypeId} {type : TypeId}
    {id : NodeId} {s s' : WalkState}
    (h : (lowerType g limit depth above type).run s = .ok (id, s')) :
    Advances above s type id s' := by
  refine lowerType_rule (fun _ _ _ _ => advances_met) ?_ h
  intro above s type declared visited lowered s₁ hnew _ lowers visits pending finished hs
  have hhere : ⟨s.nodes.size⟩ ∉ pending := fun h =>
    absurd ((hs.covers _).mpr (.inr h)) (Nat.lt_irrefl _)
  obtain ⟨finished₁, stage₁, progress, hsettled⟩ :=
    advances_visits visits List.mem_cons_self (stage_made hs hnew)
  have progress := progress_made.trans progress
  refine ⟨_, stage_finished (f := filled declared.typeName lowered) stage₁ (fun _ => rfl)
    (fun _ => rfl) (fun _ child hchild => ?_) hhere fun t => ?_, ?_, .inl List.mem_cons_self⟩
  · obtain ⟨part, hpart⟩ := lowers.mem_of_child hchild
    exact hsettled _ hpart
  · rw [hs.above]
    refine exists_congr fun id => and_congr_right fun hid => ?_
    rw [progress.source id ((hs.covers id).mpr (.inr hid))]
  · exact progress.trans (progress_finished (fun _ => rfl) fun _ => rfl)

end Walk

/-! ## Ranks -/

namespace WalkState

variable {s : WalkState} {finished : List NodeId}

/-- How many nodes were finished before a node. -/
def rank : List NodeId → NodeId → Nat
  | [], _ => 0
  | id :: earlier, x => if x = id then earlier.length else rank earlier x

theorem rank_lt_length {x : NodeId} (hx : x ∈ finished) : rank finished x < finished.length := by
  induction finished with
  | nil => cases hx
  | cons id earlier ih =>
    rw [rank, List.length_cons]
    split
    · exact Nat.lt_succ_self _
    · rename_i hne
      exact Nat.lt_succ_of_lt (ih ((List.mem_cons.mp hx).resolve_left hne))

/-- What a finished node refers to is finished or circular. -/
theorem Ordered.settled (ordered : s.Ordered finished) {id child : NodeId} (hid : id ∈ finished)
    (hchild : child ∈ s.references id) : s.Settled finished child := by
  induction finished with
  | nil => cases hid
  | cons last earlier ih =>
    refine Or.imp_left (List.mem_cons_of_mem last) ?_
    rcases List.mem_cons.mp hid with rfl | hid
    · exact ordered.1 child hchild
    · exact ih ordered.2 hid

/-- Ranks fall along references, but those to circular nodes. -/
theorem Ordered.rank_lt (ordered : s.Ordered finished) (nodup : finished.Nodup) {id child : NodeId}
    (hid : id ∈ finished) (hchild : child ∈ s.references id)
    (circular : (s.node child).isCircular = false) : rank finished child < rank finished id := by
  induction finished with
  | nil => cases hid
  | cons last earlier ih =>
    obtain ⟨hlast, nodup⟩ := List.nodup_cons.mp nodup
    rw [rank, rank]
    have notCircular : ¬(s.node child).isCircular = true := Bool.eq_false_iff.mp circular
    by_cases h : id = last
    · subst h
      have hearlier := (ordered.1 child hchild).resolve_right notCircular
      have hne : child ≠ id := fun h => hlast (h ▸ hearlier)
      rw [if_neg hne, if_pos rfl]
      exact rank_lt_length hearlier
    · have hid := (List.mem_cons.mp hid).resolve_left h
      have hearlier := (ordered.2.settled hid hchild).resolve_right notCircular
      have hne : child ≠ last := fun h => hlast (h ▸ hearlier)
      rw [if_neg h, if_neg hne]
      exact ih ordered.2 nodup hid

theorem stage_empty : Stage [] [] [] {} where
  ordered := trivial
  nodup := List.nodup_nil
  covers id := by simp
  disjoint := nofun
  sources id _ hid := absurd hid (Nat.not_lt_zero _)
  above type := by simp
  aside x hx := absurd hx List.not_mem_nil

end WalkState

/-- The nodes that a walk from a root has made can be ranked. -/
theorem Walk.exists_rank {g : TypeGraph} {limit depth : Nat} {root : TypeId} {id : NodeId}
    {s : WalkState} (h : (lowerType g limit depth [] root).run {} = .ok (id, s)) :
    ∃ rank : NodeId → Nat, ∀ id child, id.index < s.nodes.size → child ∈ s.references id →
      (s.node child).isCircular = false → rank child < rank id := by
  obtain ⟨finished, stage, -, -⟩ := advances_lowerType h [] [] WalkState.stage_empty
  refine ⟨WalkState.rank finished, fun id child hid hchild circular => ?_⟩
  have hid := ((stage.covers id).mp hid).resolve_right List.not_mem_nil
  exact stage.ordered.rank_lt stage.nodup hid hchild circular

/-- A walk makes a node for everything its nodes refer to. -/
theorem Walk.lt_size_of_reference {g : TypeGraph} {limit depth : Nat} {root : TypeId}
    {root' : NodeId} {s : WalkState}
    (h : (lowerType g limit depth [] root).run {} = .ok (root', s)) {id child : NodeId}
    (hid : id.index < s.nodes.size) (hchild : child ∈ s.references id) :
    child.index < s.nodes.size := by
  obtain ⟨finished, stage, -, -⟩ := advances_lowerType h [] [] WalkState.stage_empty
  have hid := ((stage.covers id).mp hid).resolve_right List.not_mem_nil
  rcases stage.ordered.settled hid hchild with hfinished | circular
  · exact (stage.covers child).mpr (.inl hfinished)
  · -- where there is no node none is circular
    by_contra hout
    rw [WalkState.node, Array.getD_eq_getD_getElem?,
      Array.getElem?_eq_none (Nat.le_of_not_lt hout)] at circular
    cases circular

/-! ## The whole -/

namespace Arena

variable {a b c : Arena}

/-- Merging gives an object another index signature at most, the one that is merged into it. -/
theorem shape_mergeIndex {object candidate : NodeId} {merged : Bool}
    (h : a.mergeIndex object candidate = .ok (c, merged)) (id : NodeId) :
    (c.node id).shape = (a.node id).shape ∨ id = object ∧ ∃ props kept className,
      (a.node id).shape = .object props (some kept) className ∧
      (c.node id).shape = .object props (some candidate) className := by
  unfold mergeIndex at h
  dsimp only at h
  split at h
  · rename_i props kept className hobject
    split at h
    · split at h
      · cases h
      · split at h
        · cases h
          have hid : object ∈ a.ids := by
            by_contra hid
            rw [node_eq_default hid] at hobject
            cases hobject
          refine node_set_cases (fun m => m.shape = (a.node id).shape ∨ id = object ∧
            ∃ props kept className, (a.node id).shape = .object props (some kept) className ∧
              m.shape = .object props (some candidate) className) hid id (fun _ => .inl rfl)
            fun heq => .inr ⟨heq, props, kept, className, heq ▸ hobject, rfl⟩
        · cases h
          exact .inl rfl
    · cases h
      exact .inl rfl
  · cases h
    exact .inl rfl

/-- Merging gives objects other index signatures at most, such as were put aside for them. -/
theorem shape_mergeIndexes {aside : List (NodeId × NodeId)} {changed merged : Bool}
    (h : a.mergeIndexes changed aside = .ok (c, merged)) (id : NodeId) :
    (c.node id).shape = (a.node id).shape ∨ ∃ props kept other className,
      (a.node id).shape = .object props (some kept) className ∧
      (c.node id).shape = .object props (some other) className ∧ (id, other) ∈ aside := by
  induction aside generalizing a changed with
  | nil =>
    cases h
    exact .inl rfl
  | cons x rest ih =>
    rw [mergeIndexes] at h
    obtain ⟨⟨b, _⟩, hfirst, hrest⟩ := Except.bind_eq_ok.mp h
    rcases shape_mergeIndex hfirst id with hb | ⟨rfl, props, kept, className, ha, hb⟩
    · rcases ih hrest with hc | ⟨props, kept, other, className, hb', hc, mem⟩
      · exact .inl (hc.trans hb)
      · exact .inr ⟨props, kept, other, className, hb ▸ hb', hc, List.mem_cons_of_mem x mem⟩
    · refine .inr ⟨props, kept, ?_⟩
      rcases ih hrest with hc | ⟨props', kept', other, className', hb', hc, mem⟩
      · exact ⟨x.2, className, ha, hc.trans hb, List.mem_cons_self⟩
      · rw [hb] at hb'
        cases hb'
        exact ⟨other, className, ha, hc, List.mem_cons_of_mem x mem⟩

theorem size_mergeIndexes {aside : List (NodeId × NodeId)} {changed merged : Bool}
    (h : a.mergeIndexes changed aside = .ok (c, merged)) : a.size = c.size :=
  (redirected_mergeIndexes (.refl a) h).size

/-- What becomes of a walked arena: its nodes are in their places, but objects may have other index
signatures, such as were put aside for them. -/
structure Completes (s : WalkState) (a : Arena) : Prop where
  size : s.nodes.size = a.size
  source : ∀ id, (s.node id).source = (a.node id).source
  circular : ∀ id, (s.node id).isCircular = (a.node id).isCircular
  shape : ∀ id, (s.node id).shape = (a.node id).shape ∨ ∃ props kept other className,
    (s.node id).shape = .object props (some kept) className ∧
    (a.node id).shape = .object props (some other) className ∧ (id, other) ∈ s.aside

/-- A view of nodes that passes neither look at nor change is the same before and after. -/
theorem field_passes {β : Type} (field : Node → β)
    (h : ∀ n identity isShared minHeight,
      field { n with identity, isShared, minHeight } = field n)
    (b : Arena) (merged : Bool) (id : NodeId) :
    field ((if merged then b.assignIdentities else b).markShared.assignHeights.node id) =
      field (b.node id) := by
  rw [field_assignHeights field fun n height => h n n.identity n.isShared height,
    field_markShared field fun n isShared => h n n.identity isShared n.minHeight]
  cases merged with
  | true => exact field_assignIdentities field (fun n identity => h n identity n.isShared n.minHeight) id
  | false => rfl

/-- Lowering completes what a walk leaves. -/
theorem exists_completes_of_lower {g : TypeGraph} {root : TypeId} {maxDepth : Nat}
    (h : lower g root maxDepth = .ok a) :
    ∃ s, (Walk.lowerType g maxDepth (maxDepth + 1) [] root).run {} = .ok (a.root, s) ∧
      Completes s a := by
  obtain ⟨⟨root', walked⟩, hwalk, h⟩ := Except.bind_eq_ok.mp h
  obtain ⟨⟨b, merged⟩, hmerge, h⟩ := Except.bind_eq_ok.mp h
  -- what the passes before merging do not look at, and what those after it do not
  have before {β : Type} (field : Node → β)
      (hneeds : ∀ n encode decode, field { n with needsEncode := encode, needsDecode := decode } =
        field n) (hidentity : ∀ n identity, field { n with identity } = field n) (id : NodeId) :
      field ((Arena.mk walked.nodes root').markJsonNeeds.assignIdentities.node id) =
        field (walked.node id) := by
    rw [field_assignIdentities field hidentity, field_markJsonNeeds field hneeds]
    rfl
  have hroot : b.root = root' := (root_mergeIndexes hmerge).trans (root_settle _ _)
  have hsize : walked.nodes.size = b.size := by
    rw [← size_mergeIndexes hmerge, size_assignIdentities, size_markJsonNeeds]
    rfl
  have hsource (id : NodeId) : (b.node id).source = (walked.node id).source :=
    (field_mergeIndexes Node.source (fun _ _ => rfl) hmerge id).trans
      (before Node.source (fun _ _ _ => rfl) (fun _ _ => rfl) id)
  have hcircular (id : NodeId) : (b.node id).isCircular = (walked.node id).isCircular :=
    (field_mergeIndexes Node.isCircular (fun _ _ => rfl) hmerge id).trans
      (before Node.isCircular (fun _ _ _ => rfl) (fun _ _ => rfl) id)
  cases h
  refine ⟨walked, ?_, ?_, fun id => ?_, fun id => ?_, fun id => ?_⟩
  · have hlast : (if merged then b.assignIdentities else b).markShared.assignHeights.root =
        root' := by
      refine (root_settle _ _).trans ?_
      cases merged <;> exact hroot
    rw [hlast]
    exact hwalk
  · rw [size_assignHeights, size_markShared, hsize]
    cases merged with
    | true => exact (size_assignIdentities b).symm
    | false => rfl
  · rw [field_passes Node.source fun _ _ _ _ => rfl, hsource]
  · rw [field_passes Node.isCircular fun _ _ _ _ => rfl, hcircular]
  · rw [field_passes Node.shape fun _ _ _ _ => rfl]
    have hbefore := before Node.shape (fun _ _ _ => rfl) (fun _ _ => rfl) id
    rcases shape_mergeIndexes hmerge id with heq | hother
    · exact .inl (heq.trans hbefore).symm
    · rw [hbefore] at hother
      exact .inr hother

/-- What a node of a lowered arena refers to the walk found or put aside for it. -/
theorem Completes.mem_references {s : WalkState} (completes : Completes s a) {id child : NodeId}
    (hchild : child ∈ (a.node id).children) :
    id.index < s.nodes.size ∧ child ∈ s.references id := by
  refine ⟨?_, ?_⟩
  · rw [completes.size]
    by_contra hid
    rw [node_eq_default (mem_ids.not.mpr hid)] at hchild
    exact absurd hchild List.not_mem_nil
  · rcases completes.shape id with heq | ⟨props, kept, other, className, hs, ha, mem⟩
    · rw [Node.children, ← heq] at hchild
      exact List.mem_append_left _ hchild
    · rw [Node.children, ha] at hchild
      rcases List.mem_append.mp hchild with hchild | hchild
      · refine List.mem_append_left _ ?_
        rw [Node.children, hs]
        exact List.mem_append_left _ hchild
      · obtain rfl : child = other := by simpa using hchild
        exact List.mem_append_right _
          (List.mem_map.mpr ⟨(id, child), List.mem_filter.mpr ⟨mem, beq_self_eq_true id⟩, rfl⟩)

/-- **A lowered arena has a node at every reference of a node.** -/
theorem mem_ids_of_lower {g : TypeGraph} {root : TypeId} {maxDepth : Nat}
    (h : lower g root maxDepth = .ok a) (id : NodeId) : ∀ child ∈ (a.node id).children,
      child ∈ a.ids := by
  intro child hchild
  obtain ⟨s, hwalk, completes⟩ := exists_completes_of_lower h
  obtain ⟨hid, hreference⟩ := completes.mem_references hchild
  rw [mem_ids, ← completes.size]
  exact Walk.lt_size_of_reference hwalk hid hreference

/-- Ranks that fall along all references, but those to circular nodes. -/
def RankedBy (a : Arena) (rank : NodeId → Nat) : Prop :=
  ∀ id, ∀ child ∈ (a.node id).children, (a.node child).isCircular = false → rank child < rank id

/-- **The nodes of a lowered arena can be ranked**: every cycle has a circular node. -/
theorem exists_rankedBy_of_lower {g : TypeGraph} {root : TypeId} {maxDepth : Nat}
    (h : lower g root maxDepth = .ok a) : ∃ rank, a.RankedBy rank := by
  obtain ⟨s, hwalk, completes⟩ := exists_completes_of_lower h
  obtain ⟨rank, falls⟩ := Walk.exists_rank hwalk
  refine ⟨rank, fun id child hchild hcircular => ?_⟩
  obtain ⟨hid, hreference⟩ := completes.mem_references hchild
  exact falls id child hid hreference ((completes.circular child).trans hcircular)

end Arena

end Typeforge
