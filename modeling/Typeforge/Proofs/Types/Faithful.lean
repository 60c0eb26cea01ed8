/-
# `Typeforge.Proofs.Types.Faithful` — telling that identities are faithful

Two nodes have one unfolded type if they are related by a relation that shows
one label at both and relates their parts again.  Identities are faithful when
having one identity lies within such a relation.  Whether a list of pairs is one
can be decided pair by pair; in one arena the pairs with one identity mostly are.
-/
import Mathlib.Data.Set.Insert
import Typeforge.Proofs.Lowering.Sweeps
import Typeforge.Proofs.Types.Unfolding

namespace Typeforge

deriving instance DecidableEq for Literal
deriving instance DecidableEq for Atom
deriving instance DecidableEq for Label

namespace Arena

/-- Related nodes, one of each arena, show one label, and have as many parts, related in turn. -/
def Matching (a b : Arena) (R : NodeId → NodeId → Prop) : Prop :=
  ∀ m n, R m n →
    match a.core m, b.core n with
    | some m, some n => a.labelOf (a.node m) = b.labelOf (b.node n) ∧
        List.Forall₂ R (a.node m).children (b.node n).children
    | none, none => True
    | _, _ => False

theorem unfolding_eq_of_matching {a b : Arena} {R : NodeId → NodeId → Prop} (h : a.Matching b R)
    {m n : NodeId} (hmn : R m n) : a.unfolding m = b.unfolding n := by
  funext place
  change a.labelAlong place m = b.labelAlong place n
  induction place generalizing m n with
  | nil =>
    have := h m n hmn
    rw [labelAlong, labelAlong]
    split at this <;> rename_i hm hn
    · rw [hm, hn]
      exact this.1
    · rw [hm, hn]
      rfl
    · exact this.elim
  | cons i place ih =>
    have := h m n hmn
    rw [labelAlong, labelAlong]
    split at this <;> rename_i hm hn
    · rw [hm, hn, Option.bind_some, Option.bind_some]
      rcases getElem?_of_forall₂ this.2 i with ⟨h₁, h₂⟩ | ⟨c, d, h₁, h₂, hcd⟩
      · rw [h₁, h₂]
        rfl
      · rw [h₁, h₂]
        exact ih hcd
    · rw [hm, hn]
      rfl
    · exact this.elim
where
  getElem?_of_forall₂ {R : NodeId → NodeId → Prop} {xs ys : List NodeId}
      (h : List.Forall₂ R xs ys) (i : Nat) :
      (xs[i]? = none ∧ ys[i]? = none) ∨ ∃ x y, xs[i]? = some x ∧ ys[i]? = some y ∧ R x y := by
    induction h generalizing i with
    | nil => exact .inl ⟨rfl, rfl⟩
    | cons hxy _ ih =>
      cases i with
      | zero => exact .inr ⟨_, _, rfl, rfl, hxy⟩
      | succ i => exact ih i

/-- Whether two nodes show one label, and have as many parts, paired in turn. -/
def sameTop (a b : Arena) (pairs : List (NodeId × NodeId)) (m n : NodeId) : Bool :=
  match a.core m, b.core n with
  | some m, some n =>
    a.labelOf (a.node m) = b.labelOf (b.node n) &&
      (a.node m).children.length = (b.node n).children.length &&
      ((a.node m).children.zip (b.node n).children).all (· ∈ pairs)
  | none, none => true
  | _, _ => false

/-- Whether all nodes have an identity. The empty text names no node. -/
def isNamed (a : Arena) : Bool := a.ids.all fun m => (a.node m).identity ≠ ""

/-- Whether pairs of nodes of two arenas hold all that have one identity, and show that the types of
each pair are one. -/
def isFaithfulTo (a b : Arena) (pairs : List (NodeId × NodeId)) : Bool :=
  a.isNamed && b.isNamed && pairs.all (fun p => a.sameTop b pairs p.1 p.2) &&
    a.ids.all fun m => b.ids.all fun n =>
      (a.node m).identity ≠ (b.node n).identity || (m, n) ∈ pairs

/-- The pairs of nodes with one identity. -/
def sameIdentity (a b : Arena) : List (NodeId × NodeId) :=
  a.ids.flatMap fun m =>
    (b.ids.filter fun n => (a.node m).identity = (b.node n).identity).map fun n => (m, n)

/-- Whether the identities of an arena are faithful, as far as they show it themselves. -/
def isFaithful (a : Arena) : Bool := a.isFaithfulTo a (a.sameIdentity a)

theorem identity_ne_of_isNamed {a : Arena} (h : a.isNamed = true) {id : NodeId} (hid : id ∈ a.ids) :
    (a.node id).identity ≠ "" := by
  simp only [isNamed, List.all_eq_true, decide_eq_true_eq] at h
  exact h id hid

/-- Pairs that show one label each are matching, and so are the pairs of nodes of neither arena. -/
theorem matching_of_sameTop {a b : Arena} {pairs : List (NodeId × NodeId)}
    (h : ∀ p ∈ pairs, a.sameTop b pairs p.1 p.2 = true) :
    a.Matching b fun m n => (m, n) ∈ pairs ∨ m ∉ a.ids ∧ n ∉ b.ids := by
  rintro m n (hmn | ⟨hm, hn⟩)
  · have hsame := h (m, n) hmn
    dsimp only at hsame
    unfold sameTop at hsame
    split at hsame <;> rename_i hcm hcn
    · simp only [Bool.and_eq_true, decide_eq_true_eq, List.all_eq_true] at hsame
      obtain ⟨⟨hlabel, hlength⟩, hpairs⟩ := hsame
      exact ⟨hlabel, List.forall₂_iff_zip.mpr ⟨hlength, fun hcd => .inl (hpairs _ hcd)⟩⟩
    · trivial
    · cases hsame
  · have hdefault {a : Arena} {id : NodeId} (hid : id ∉ a.ids) : a.core id = some id :=
      core_of_none (by rw [node_eq_default hid]; rfl)
    rw [hdefault hm, hdefault hn]
    dsimp only
    rw [node_eq_default hm, node_eq_default hn]
    exact ⟨rfl, .nil⟩

/-- Nodes with one identity have one type, in arenas found to be faithful to one another. -/
theorem unfolding_eq_of_isFaithfulTo {a b : Arena} {pairs : List (NodeId × NodeId)}
    (h : a.isFaithfulTo b pairs = true) {m n : NodeId}
    (hmn : (a.node m).identity = (b.node n).identity) : a.unfolding m = b.unfolding n := by
  rw [isFaithfulTo, Bool.and_eq_true, Bool.and_eq_true, Bool.and_eq_true] at h
  obtain ⟨⟨⟨hnamed, hnamed'⟩, hpairs⟩, h⟩ := h
  rw [List.all_eq_true] at hpairs
  simp only [List.all_eq_true] at h
  refine unfolding_eq_of_matching (matching_of_sameTop hpairs) ?_
  by_cases hm : m ∈ a.ids <;> by_cases hn : n ∈ b.ids
  · have hmem := h m hm n hn
    simp only [hmn, ne_eq, not_true, decide_false, Bool.false_or, decide_eq_true_eq] at hmem
    exact .inl hmem
  · rw [node_eq_default hn] at hmn
    exact absurd hmn (identity_ne_of_isNamed hnamed hm)
  · rw [node_eq_default hm] at hmn
    exact absurd hmn.symm (identity_ne_of_isNamed hnamed' hn)
  · exact .inr ⟨hm, hn⟩

theorem faithful_of_isFaithful {a : Arena} (h : a.isFaithful = true) : a.Faithful :=
  fun _ _ hmn => unfolding_eq_of_isFaithfulTo h hmn

/-- Two arenas with faithful identities, found to be faithful to one another. -/
theorem faithfulAmong_pair {a b : Arena} (pairs : List (NodeId × NodeId))
    (ha : a.isFaithful = true) (hb : b.isFaithful = true) (hab : a.isFaithfulTo b pairs = true) :
    FaithfulAmong {a, b} := by
  rintro _ (rfl | rfl) _ (rfl | rfl) m n hmn
  · exact faithful_of_isFaithful ha m n hmn
  · exact unfolding_eq_of_isFaithfulTo hab hmn
  · exact (unfolding_eq_of_isFaithfulTo hab hmn.symm).symm
  · exact faithful_of_isFaithful hb m n hmn

end Arena

end Typeforge
