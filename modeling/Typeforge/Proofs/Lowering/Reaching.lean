/-
# `Typeforge.Proofs.Lowering.Reaching` — a walk finds all that can be reached

A walk with a stack takes nodes off, and pushes those of their children that were
never pushed before.  As long as it goes on, the nodes that were pushed are those
taken off and those on the stack, each of them once, and the children of a node
taken off have been pushed.  There is one step for each node, so that the bound of
the walk is never what ends it; and when the stack is empty, the nodes taken off
have no children but themselves.
-/
import Mathlib.Data.List.Nodup
import Mathlib.Data.List.Perm.Subperm
import Mathlib.Logic.Relation
import Typeforge.Proofs.Lowering.Sweeps

namespace Typeforge

namespace Arena

variable {a : Arena}

/-- A node can be reached along references. -/
abbrev Reaches (a : Arena) : NodeId → NodeId → Prop :=
  Relation.ReflTransGen fun id child => child ∈ (a.node id).children

/-- Pushing children: those that were not seen, each once. -/
theorem exists_pushed (children seen stack : List NodeId) :
    ∃ news : List NodeId, children.foldl
        (fun (seen, stack) child =>
          if seen.contains child then (seen, stack) else (child :: seen, child :: stack))
        (seen, stack) = (news ++ seen, news ++ stack) ∧
      news.Nodup ∧ (∀ x ∈ news, x ∈ children ∧ x ∉ seen) ∧ ∀ x ∈ children, x ∈ news ++ seen := by
  induction children generalizing seen stack with
  | nil => exact ⟨[], rfl, List.nodup_nil, nofun, nofun⟩
  | cons child rest ih =>
    rw [List.foldl_cons]
    dsimp only
    by_cases hseen : child ∈ seen
    · rw [if_pos (List.contains_iff_mem.mpr hseen)]
      obtain ⟨news, heq, nodup, hnews, hall⟩ := ih seen stack
      refine ⟨news, heq, nodup, fun x hx => ?_, List.forall_mem_cons.mpr ⟨?_, hall⟩⟩
      · exact (hnews x hx).imp_left (List.mem_cons_of_mem child)
      · exact List.mem_append_right news hseen
    · rw [if_neg fun h => hseen (List.contains_iff_mem.mp h)]
      obtain ⟨news, heq, nodup, hnews, hall⟩ := ih (child :: seen) (child :: stack)
      have hchild : child ∉ news := fun hmem => (hnews child hmem).2 List.mem_cons_self
      refine ⟨news ++ [child], ?_, ?_, fun x hx => ?_, fun x hx => ?_⟩
      · rw [heq, List.append_assoc, List.append_assoc]
        rfl
      · exact nodup.append (List.nodup_singleton child) (List.disjoint_singleton.mpr hchild)
      · rcases List.mem_append.mp hx with hx | hx
        · obtain ⟨hrest, hnot⟩ := hnews x hx
          exact ⟨List.mem_cons_of_mem child hrest, fun h => hnot (List.mem_cons_of_mem child h)⟩
        · obtain rfl := List.mem_singleton.mp hx
          exact ⟨List.mem_cons_self, hseen⟩
      · rw [List.append_assoc]
        rcases List.mem_cons.mp hx with rfl | hx
        · exact List.mem_append_right news List.mem_cons_self
        · exact hall x hx

/-- How far a walk has come: the nodes seen, of which some are done and others on the stack. -/
structure Walked (a : Arena) (nodes seen stack done : List NodeId) : Prop where
  nodup : (done ++ stack).Nodup
  mem_seen : ∀ x, x ∈ seen ↔ x ∈ done ∨ x ∈ stack
  closed : ∀ x ∈ done, ∀ child ∈ (a.node x).children, child ∈ seen
  within : ∀ x ∈ seen, x ∈ nodes

namespace Walked

variable {nodes seen stack done : List NodeId} {id : NodeId}

/-- A node is taken off the stack, and its new children are pushed. -/
theorem step (h : a.Walked nodes seen (id :: stack) done)
    (hnodes : ∀ x ∈ nodes, ∀ child ∈ (a.node x).children, child ∈ nodes) {news : List NodeId}
    (nodup : news.Nodup) (hnews : ∀ x ∈ news, x ∈ (a.node id).children ∧ x ∉ seen)
    (hall : ∀ x ∈ (a.node id).children, x ∈ news ++ seen) :
    a.Walked nodes (news ++ seen) (news ++ stack) (id :: done) := by
  have hid : id ∈ seen := (h.mem_seen id).mpr (.inr List.mem_cons_self)
  have hperm : (done ++ id :: stack).Perm (id :: (done ++ stack)) := List.perm_middle
  have hnodup : (id :: (done ++ stack)).Nodup := hperm.nodup_iff.mp h.nodup
  have hseen {x : NodeId} (hx : x ∈ id :: (done ++ stack)) : x ∈ seen := by
    rw [h.mem_seen, ← List.mem_append]
    exact hperm.mem_iff.mpr hx
  refine ⟨?_, fun x => ?_, fun x hx child hchild => ?_, fun x hx => ?_⟩
  · have hdisjoint : news.Disjoint (id :: (done ++ stack)) :=
      fun x hx hmem => (hnews x hx).2 (hseen hmem)
    have hreorder : (id :: done ++ (news ++ stack)).Perm (news ++ (id :: (done ++ stack))) := by
      refine List.perm_append_comm_assoc (id :: done) news stack |>.trans ?_
      rw [List.cons_append]
    exact hreorder.nodup_iff.mpr (nodup.append hnodup hdisjoint)
  · simp only [List.mem_append, List.mem_cons, h.mem_seen]
    tauto
  · rcases List.mem_cons.mp hx with rfl | hx
    · exact hall child hchild
    · exact List.mem_append_right news (h.closed x hx child hchild)
  · rcases List.mem_append.mp hx with hx | hx
    · exact hnodes id (h.within id hid) x (hnews x hx).1
    · exact h.within x hx

/-- What is done in the end has no children but what is done. -/
theorem closed_walkStack (hnodes : ∀ x ∈ nodes, ∀ child ∈ (a.node x).children, child ∈ nodes)
    (fuel : Nat) {seen stack done : List NodeId} (h : a.Walked nodes seen stack done)
    (enough : nodes.length ≤ fuel + done.length) :
    (∀ x ∈ seen, x ∈ done ++ a.walkStack fuel seen stack) ∧
      ∀ x ∈ done ++ a.walkStack fuel seen stack, ∀ child ∈ (a.node x).children,
        child ∈ done ++ a.walkStack fuel seen stack := by
  -- with an empty stack all that was seen is done
  have idle {seen done : List NodeId} (h : a.Walked nodes seen [] done) :
      (∀ x ∈ seen, x ∈ done ++ []) ∧ ∀ x ∈ done ++ [], ∀ child ∈ (a.node x).children,
        child ∈ done ++ [] := by
    have hdone : ∀ x, x ∈ seen ↔ x ∈ done := fun x => by simpa using h.mem_seen x
    rw [List.append_nil]
    exact ⟨fun x => (hdone x).mp, fun x hx child hchild => (hdone child).mp (h.closed x hx child hchild)⟩
  induction fuel generalizing seen stack done with
  | zero =>
    have hstack : stack = [] := by
      have hsubset : done ++ stack ⊆ nodes := fun x hx =>
        h.within x ((h.mem_seen x).mpr (List.mem_append.mp hx))
      have hle := (List.subperm_of_subset h.nodup hsubset).length_le
      rw [List.length_append] at hle
      exact List.eq_nil_of_length_eq_zero (by omega)
    subst hstack
    exact idle h
  | succ fuel ih =>
    cases stack with
    | nil => exact idle h
    | cons id stack =>
      obtain ⟨news, heq, nodup, hnews, hall⟩ := exists_pushed (a.node id).children seen stack
      have hnext := h.step hnodes nodup hnews hall
      have hwalk : a.walkStack (fuel + 1) seen (id :: stack) =
          id :: a.walkStack fuel (news ++ seen) (news ++ stack) := by
        rw [walkStack, heq]
      have hmem (x : NodeId) : x ∈ done ++ a.walkStack (fuel + 1) seen (id :: stack) ↔
          x ∈ id :: done ++ a.walkStack fuel (news ++ seen) (news ++ stack) := by
        rw [hwalk]
        exact List.perm_middle.mem_iff
      obtain ⟨hseen, hclosed⟩ := ih hnext (by rw [List.length_cons]; omega)
      refine ⟨fun x hx => (hmem x).mpr (hseen x (List.mem_append_right news hx)),
        fun x hx child hchild => (hmem child).mpr (hclosed x ((hmem x).mp hx) child hchild)⟩

end Walked

/-- **Every node that can be reached is found.** -/
theorem mem_reachable (closed : ∀ id, ∀ child ∈ (a.node id).children, child ∈ a.ids)
    {id last : NodeId} (reaches : a.Reaches id last) : last ∈ a.reachable id := by
  have start : a.Walked (id :: a.ids) [id] [id] [] :=
    ⟨List.nodup_singleton id, fun x => by simp, nofun,
      fun x hx => List.mem_singleton.mp hx ▸ List.mem_cons_self⟩
  have hlength : (id :: a.ids).length = a.size + 1 := by
    rw [List.length_cons, ids, List.length_map, List.length_range]
  obtain ⟨hseen, hclosed⟩ := Walked.closed_walkStack
    (fun x _ child hchild => List.mem_cons_of_mem id (closed x child hchild)) (a.size + 1) start
    (by rw [hlength]; exact Nat.le_add_right _ _)
  induction reaches with
  | refl => exact hseen id (List.mem_singleton_self id)
  | tail _ mem ih => exact hclosed _ ih _ mem

/-- Only nodes that can be reached are found. -/
theorem reaches_of_mem_walkStack {fuel : Nat} {seen stack : List NodeId} {last : NodeId}
    (h : last ∈ a.walkStack fuel seen stack) : ∃ id ∈ stack, a.Reaches id last := by
  induction fuel generalizing seen stack with
  | zero => cases h
  | succ fuel ih =>
    cases stack with
    | nil => cases h
    | cons id stack =>
      obtain ⟨news, heq, -, hnews, -⟩ := exists_pushed (a.node id).children seen stack
      rw [walkStack, heq] at h
      rcases List.mem_cons.mp h with rfl | h
      · exact ⟨last, List.mem_cons_self, .refl⟩
      · obtain ⟨other, hother, hreach⟩ := ih h
        rcases List.mem_append.mp hother with hother | hother
        · exact ⟨id, List.mem_cons_self, hreach.head (hnews other hother).1⟩
        · exact ⟨other, List.mem_cons_of_mem id hother, hreach⟩

/-- **The nodes found are those that can be reached.** -/
theorem reaches_iff (closed : ∀ id, ∀ child ∈ (a.node id).children, child ∈ a.ids)
    {id last : NodeId} : a.Reaches id last ↔ last ∈ a.reachable id := by
  refine ⟨mem_reachable closed, fun h => ?_⟩
  obtain ⟨first, hfirst, hreach⟩ := reaches_of_mem_walkStack h
  exact List.mem_singleton.mp hfirst ▸ hreach

end Arena

end Typeforge
