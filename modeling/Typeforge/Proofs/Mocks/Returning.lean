/-
# `Typeforge.Proofs.Mocks.Returning` — which draws return

A sampler is built only for types of data, and only if a minimal draw returns; but a
minimal draw leaves out all that may be left out.  What it does not come to, a later
draw may: the value of an optional property, the items of an array, what stands
behind an index signature.  So a draw of a sampler may fail after all, but only
because some part of that kind has no instances.  Where all of these have, every
draw returns, whatever the generator draws: that is `Mock.Sampler.next_returns`, and
`Unfillable.first_draw_fails` has a sampler that was built and fails at once.

A draw that is not minimal yet may only go so much deeper.  From there on it is
minimal, and then it comes to no node twice: from node to node heights do not rise,
and where they stay the same the nodes are members that stand one behind another.
What may be left out has to stand where it can be for that (`Arena.Sparing`).  The bound
on all draws is a sum in a machine word, and must not run over (`Mock.Context.limit`).
-/
import Typeforge.Proofs.Lowering.Cycles
import Typeforge.Proofs.Lowering.Heights
import Typeforge.Proofs.Lowering.Reaching
import Typeforge.Proofs.Mocks.Conforming

namespace Typeforge

/-! ## What may be left out -/

/-- Whether a node is a member that may be left out. A draw of the node itself is one of what stands
behind it all the same. -/
def Node.isSpare (n : Node) : Bool :=
  match n.shape with
  | .rest _ | .indexSignature _ _ => true
  | .property _ _ | .tupleMember _ | .parameter _ _ false => n.optional
  | _ => false

/-- Whether a node is of data. -/
def Node.isData (n : Node) : Bool :=
  match n.shape with
  | .function _ | .promise _ => false
  | _ => true

/-- What stands behind a member is required, or it may be left out. -/
theorem Node.cases_behind? {n : Node} {child : NodeId} (h : n.shape.behind? = some child) :
    (n.isSpare = true ∧ n.dispensable? = some child) ∨
      (n.isSpare = false ∧ n.required? = some child) := by
  unfold Shape.behind? at h
  unfold isSpare dispensable? required?
  split at h <;> cases h <;> rename_i hshape <;> simp only [hshape] <;> cases n.optional <;> simp

theorem Shape.isCollection_of_behind? {s : Shape} {child : NodeId} (h : s.behind? = some child) :
    s.isCollection = false := by
  unfold behind? at h
  split at h <;> cases h <;> rfl

theorem Node.dispensable?_of_repeated? {n : Node} {child : NodeId}
    (h : n.shape.repeated? = some child) : n.dispensable? = some child := by
  unfold dispensable?
  rcases Shape.eq_of_repeated? h with hshape | ⟨name, hshape⟩ <;> rw [hshape]

namespace Arena

/-- Types in which what may be left out stands where it can be. -/
structure Sparing (a : Arena) : Prop where
  /-- Members that may be left out stand in objects and tuples. -/
  placed : ∀ id, ∀ child ∈ (a.node id).children, (a.node child).isSpare = true →
    (a.node id).shape.isCollection = true
  /-- A fixed position that may be left out is optional. -/
  positions : ∀ id members, (a.node id).shape = .tuple members →
    ∀ pos ∈ (a.splitTuple members).1, (a.node pos).isSpare = true → (a.node pos).optional = true

/-- Whether a shape leaves out what it can only. -/
def sparesMembers (a : Arena) : Shape → Bool
  | .object _ _ _ => true
  | .tuple members =>
    (a.splitTuple members).1.all fun pos => !(a.node pos).isSpare || (a.node pos).optional
  | shape => shape.children.all fun child => !(a.node child).isSpare

def isSparing (a : Arena) : Bool := a.ids.all fun id => a.sparesMembers (a.node id).shape

variable {a : Arena}

theorem sparing_of_isSparing (h : a.isSparing = true) : a.Sparing := by
  have hspares := forall_node (P := fun n => a.sparesMembers n.shape = true)
    (List.all_eq_true.mp h) rfl
  refine ⟨fun id child hchild hspare => ?_, fun id members hshape pos hpos hspare => ?_⟩
  · have hid := hspares id
    rw [Node.children] at hchild
    cases hshape : (a.node id).shape with
    | object | tuple => rfl
    | _ =>
      rw [hshape] at hid hchild
      have hkept := List.all_eq_true.mp hid child hchild
      rw [hspare] at hkept
      cases hkept
  · have hid := hspares id
    rw [hshape] at hid
    have hkept := List.all_eq_true.mp hid pos hpos
    rwa [hspare] at hkept

end Arena

namespace Mock

variable {a : Arena} {x : Context} {id child : NodeId}

/-! ## Where draws come to -/

/-- The nodes that draws of a node may come to, however deep. -/
abbrev Context.Comes (x : Context) : NodeId → NodeId → Prop :=
  Relation.ReflTransGen fun id child => x.Draws false (x.arena.node id) child

theorem Context.Picks.free {minimal : Bool} {members : List NodeId} (h : x.Picks minimal members id) :
    x.Picks false members id := by
  obtain ⟨hmem, k, hk, -⟩ := h
  exact ⟨hmem, k, hk, nofun⟩

/-- A minimal draw comes to nothing that others do not come to. -/
theorem Context.Draws.free {minimal : Bool} {n : Node} (h : x.Draws minimal n child) :
    x.Draws false n child := by
  cases h with
  | repeated h => exact .repeated h rfl
  | behind h => exact .behind h
  | property h mem => exact .property h mem fun _ => rfl
  | index h found => exact .index h found rfl
  | position h mem => exact .position h mem fun _ => rfl
  | rest h last => exact .rest h last rfl
  | member h picked => exact .member h picked.free

/-- A minimal draw comes to no node that may be left out, unless one stands where it is drawn in place
of another node, or in a fixed position without being optional. -/
theorem isSpare_of_draws_of (h : x.Draws true (x.arena.node id) child)
    (apart : (x.arena.node child).isSpare = true → (x.arena.node id).shape.behind? = none ∧
      ∀ members, (x.arena.node id).shape ≠ .union members)
    (positions : ∀ members, (x.arena.node id).shape = .tuple members →
      child ∈ (x.arena.splitTuple members).1 → (x.arena.node child).isSpare = true →
      (x.arena.node child).optional = true) : (x.arena.node child).isSpare = false := by
  refine Bool.eq_false_iff.mpr fun hspare => ?_
  obtain ⟨hbehind, hunion⟩ := apart hspare
  cases h with
  | repeated _ free | index _ _ free | rest _ _ free => cases free
  | behind h =>
    rw [h] at hbehind
    cases hbehind
  | @property _ _ _ p h mem free =>
    obtain ⟨-, hoptional, inner, hshape⟩ := Arena.shape_of_mem_properties mem
    rw [Node.isSpare, hshape] at hspare
    exact absurd (free (hoptional.trans hspare)) (by decide)
  | position h mem free => exact absurd (free (positions _ h mem hspare)) (by decide)
  | member h => exact hunion _ h

/-- A minimal draw of a node that must be there comes to such nodes only. -/
theorem isSpare_of_draws (sparing : x.arena.Sparing)
    (h : x.Draws true (x.arena.node id) child) : (x.arena.node child).isSpare = false := by
  refine isSpare_of_draws_of h (fun hspare => ?_) fun members hshape hmem =>
    sparing.positions id members hshape child hmem
  have hcollection := sparing.placed id child h.mem_children hspare
  constructor
  · cases hbehind : (x.arena.node id).shape.behind? with
    | none => rfl
    | some inner => cases hcollection.symm.trans (Shape.isCollection_of_behind? hbehind)
  · intro members hshape
    rw [hshape] at hcollection
    cases hcollection

/-! ## Minimal draws -/

/-- A draw of a node of data that has instances returns if those of the children do. -/
theorem meets_drawWithin_succ (supported : a.Supported) {o : MockOptions}
    (height : (a.node id).minHeight ≠ none) (data : (a.node id).isData = true) {bound : Nat}
    {site : Site} (children : ∀ site' child, site'.depth = site.deeper.depth →
      (Context.mk a o).Draws ((Context.mk a o).minimal site.deeper) (a.node id) child →
      Meets (fun _ => False) (drawWithin ⟨a, o⟩ bound site' child) fun _ => True) :
    Meets (fun _ => False) (drawWithin ⟨a, o⟩ (bound + 1) site id) fun _ => True := by
  obtain ⟨k, hk⟩ := Option.ne_none_iff_exists'.mp height
  rw [drawWithin]
  dsimp only
  rw [hk]
  dsimp only
  refine (meets_drawNode (P := fun _ _ => True) (fun hnone => ?_) (fun f hf => ?_)
    (fun child hpromise => ?_) children).mono fun _ _ => trivial
  · exact (supported.rests id k hk).ne_none hnone
  · rw [Node.isData, hf] at data
    cases data
  · rw [Node.isData, hpromise] at data
    cases data

/-- A minimal draw of a node that must be there comes to another. -/
def Context.Below (x : Context) (child id : NodeId) : Prop :=
  (x.arena.node id).isSpare = false ∧ x.Draws true (x.arena.node id) child

/-- Below a node that has instances heights fall, or they stay within a bound from member to
member. -/
theorem heightWithin_of_below (supported : x.arena.Supported) {k : Nat}
    (h : HeightWithin k (x.arena.node id).minHeight) (below : x.Below child id) :
    (∃ j < k, HeightWithin j (x.arena.node child).minHeight) ∨
      HeightWithin k (x.arena.node child).minHeight ∧ x.arena.Behind child id := by
  obtain ⟨kept, draws⟩ := below
  have hheight := supported.heightWithin h
  have collection (hcollection : (x.arena.node id).shape.isCollection = true) :
      ∃ j < k, HeightWithin j (x.arena.node child).minHeight := by
    obtain ⟨j, hj, hall⟩ := (Arena.heightWithin_collection hcollection).mp hheight
    exact ⟨j, hj, hall child draws.mem_children⟩
  cases draws with
  | repeated _ free | index _ _ free | rest _ _ free => cases free
  | behind hbehind =>
    rcases Node.cases_behind? hbehind with ⟨hspare, -⟩ | ⟨-, hrequired⟩
    · cases kept.symm.trans hspare
    · rw [Arena.height_required hrequired] at hheight
      exact .inr ⟨hheight, hrequired⟩
  | property hshape => exact .inl (collection (by rw [hshape]; rfl))
  | position hshape => exact .inl (collection (by rw [hshape]; rfl))
  | member hshape picked =>
    obtain ⟨j, hj, m, hm, i, hi, hmin⟩ := (Arena.heightWithin_union hshape).mp hheight
    obtain ⟨-, k', hk', hlowest⟩ := picked
    have hle : k' ≤ i := hlowest rfl m hm i hmin
    exact .inl ⟨j, hj, k', hle.trans hi, hk'⟩

/-- There is no end to what a minimal draw can come down to only where heights end. -/
theorem acc_below (supported : x.arena.Supported) {k : Nat}
    (h : HeightWithin k (x.arena.node id).minHeight) : Acc x.Below id := by
  induction k using Nat.strongRecOn generalizing id with
  | ind k ih =>
    have founded := supported.founded id h.ne_none
    induction founded with
    | intro id _ ihBehind =>
      refine ⟨id, fun child below => ?_⟩
      rcases heightWithin_of_below supported h below with ⟨j, hj, hchild⟩ | ⟨hchild, hbehind⟩
      · exact ih j hj hchild
      · exact ihBehind child hbehind hchild

/-- A node is in the arena if it has a height. -/
theorem mem_ids_of_minHeight (h : (a.node id).minHeight ≠ none) : id ∈ a.ids := by
  by_contra hid
  rw [Arena.node_eq_default hid] at h
  exact h rfl

theorem not_rel_self_of_acc {α : Type} {R : α → α → Prop} {y : α} (h : Acc R y) : ¬R y y := by
  induction h with
  | intro y _ ih => exact fun hy => ih y hy hy

/-- The nodes that minimal draws of a node come to, however deep. -/
abbrev Context.ComesMinimally (x : Context) : NodeId → NodeId → Prop :=
  Relation.ReflTransGen fun id child => x.Draws true (x.arena.node id) child

/-- A minimal draw on its way down. It is at a node of data that has instances, all that it may come to
must be there, and the nodes above it, different ones, have led to it. -/
structure Context.Descent (x : Context) (path : List NodeId) (id : NodeId) : Prop where
  height : (x.arena.node id).minHeight ≠ none
  kept : ∀ last, x.ComesMinimally id last → (x.arena.node last).isSpare = false
  data : ∀ last, x.arena.Reaches id last → (x.arena.node last).isData = true
  above : ∀ z ∈ path, Relation.TransGen x.Below id z
  nodup : path.Nodup
  inside : path ⊆ x.arena.ids

namespace Context.Descent

variable {path : List NodeId} (supported : x.arena.Supported) (descent : x.Descent path id)

include supported descent

/-- The node was not met before. -/
theorem not_mem : id ∉ path := by
  intro hmem
  obtain ⟨k, hk⟩ := Option.ne_none_iff_exists'.mp descent.height
  have hacc : Acc x.Below id := acc_below supported (hk ▸ heightWithin_some.mpr (le_refl k))
  exact not_rel_self_of_acc hacc.transGen (descent.above id hmem)

/-- There are fewer nodes above than in the arena. -/
theorem length_lt : path.length < x.arena.size := by
  have hle := (List.subperm_of_subset
    (List.nodup_cons.mpr ⟨descent.not_mem supported, descent.nodup⟩)
    (List.cons_subset.mpr ⟨mem_ids_of_minHeight descent.height, descent.inside⟩)).length_le
  rw [Arena.ids, List.length_map, List.length_range, List.length_cons] at hle
  exact hle

/-- The way down goes on. -/
theorem down (draws : x.Draws true (x.arena.node id) child) : x.Descent (id :: path) child := by
  have below : x.Below child id := ⟨descent.kept id .refl, draws⟩
  refine ⟨?_, fun last comes => descent.kept last (.head draws comes),
    fun last reaches => descent.data last (.head draws.mem_children reaches),
    List.forall_mem_cons.mpr ⟨.single below, fun z hz => .head below (descent.above z hz)⟩,
    List.nodup_cons.mpr ⟨descent.not_mem supported, descent.nodup⟩,
    List.cons_subset.mpr ⟨mem_ids_of_minHeight descent.height, descent.inside⟩⟩
  obtain ⟨k, hk⟩ := Option.ne_none_iff_exists'.mp descent.height
  rcases heightWithin_of_below supported (hk ▸ heightWithin_some.mpr (le_refl k)) below with
    ⟨j, -, hj⟩ | ⟨hj, -⟩
  · exact hj.ne_none
  · exact hj.ne_none

end Context.Descent

/-- Where what may be left out stands where it can be, minimal draws come to nothing of the kind. -/
theorem isSpare_of_comesMinimally (sparing : x.arena.Sparing)
    (kept : (x.arena.node id).isSpare = false) {last : NodeId} (comes : x.ComesMinimally id last) :
    (x.arena.node last).isSpare = false := by
  cases comes with
  | refl => exact kept
  | tail _ draws => exact isSpare_of_draws sparing draws

/-- **A minimal draw of a node that has instances returns.** On the way down to it no node was met
twice, and there is room for one more level for each of the others. -/
theorem meets_minimal (supported : a.Supported) {o : MockOptions} (bound : Nat) {site : Site}
    (deep : o.maxDepth ≤ site.depth + 1) {path : List NodeId}
    (descent : (Context.mk a o).Descent path id) (room : a.size ≤ path.length + bound) :
    Meets (fun _ => False) (drawWithin ⟨a, o⟩ bound site id) fun _ => True := by
  induction bound generalizing id site path with
  | zero =>
    have hlength : path.length < a.size := descent.length_lt supported
    omega
  | succ bound ih =>
    refine meets_drawWithin_succ supported descent.height (descent.data id .refl)
      fun site' child hdepth draws => ?_
    have hminimal : (Context.mk a o).minimal site.deeper = true := decide_eq_true deep
    rw [hminimal] at draws
    refine ih ?_ (descent.down supported draws) ?_
    · rw [hdepth]
      exact Nat.le_succ_of_le deep
    · rw [List.length_cons]
      omega

/-! ## All draws -/

/-- What a draw of a node that has instances comes to has instances as well, if what the node may do
without has. -/
theorem minHeight_of_draws (supported : x.arena.Supported)
    (height : (x.arena.node id).minHeight ≠ none)
    (spared : ∀ child, (x.arena.node id).dispensable? = some child →
      (x.arena.node child).minHeight ≠ none) {minimal : Bool}
    (draws : x.Draws minimal (x.arena.node id) child) : (x.arena.node child).minHeight ≠ none := by
  obtain ⟨k, hk⟩ := Option.ne_none_iff_exists'.mp height
  have hheight := supported.rests id k hk
  have collection (hcollection : (x.arena.node id).shape.isCollection = true) :
      (x.arena.node child).minHeight ≠ none := by
    obtain ⟨j, -, hall⟩ := (Arena.heightWithin_collection hcollection).mp hheight
    exact (hall child draws.mem_children).ne_none
  cases draws with
  | repeated h => exact spared child (Node.dispensable?_of_repeated? h)
  | behind h =>
    rcases Node.cases_behind? h with ⟨-, hdispensable⟩ | ⟨-, hrequired⟩
    · exact spared child hdispensable
    · rw [Arena.height_required hrequired] at hheight
      exact hheight.ne_none
  | property hshape => exact collection (by rw [hshape]; rfl)
  | index hshape => exact collection (by rw [hshape]; rfl)
  | position hshape => exact collection (by rw [hshape]; rfl)
  | rest hshape => exact collection (by rw [hshape]; rfl)
  | member _ picked =>
    obtain ⟨-, j, hj, -⟩ := picked
    rw [hj]
    exact Option.some_ne_none j

/-- **A draw returns if all parts that it may come to have instances.** -/
theorem meets_returning (supported : a.Supported) (sparing : a.Sparing) {o : MockOptions}
    (data : ∀ last, a.Reaches id last → (a.node last).isData = true)
    (spared : ∀ last child, (Context.mk a o).Comes id last →
      (a.node last).dispensable? = some child → (a.node child).minHeight ≠ none)
    (height : (a.node id).minHeight ≠ none) (bound : Nat) {site : Site}
    (room : a.size + 1 + (o.maxDepth - site.depth) ≤ bound) :
    Meets (fun _ => False) (drawWithin ⟨a, o⟩ bound site id) fun _ => True := by
  induction bound generalizing id site with
  | zero => omega
  | succ bound ih =>
    refine meets_drawWithin_succ supported height (data id .refl) fun site' child hdepth draws => ?_
    have hchild : (a.node child).minHeight ≠ none :=
      minHeight_of_draws (x := ⟨a, o⟩) supported height (spared id · .refl) draws
    have hdata (last : NodeId) (reaches : a.Reaches child last) : (a.node last).isData = true :=
      data last (.head draws.mem_children reaches)
    have hsite : site'.depth = site.depth + 1 := hdepth
    by_cases deep : o.maxDepth ≤ site.depth + 1
    · have hminimal : (Context.mk a o).minimal site.deeper = true := decide_eq_true deep
      rw [hminimal] at draws
      have descent : (Context.mk a o).Descent [] child :=
        ⟨hchild, fun _ => isSpare_of_comesMinimally sparing (isSpare_of_draws sparing draws), hdata,
          List.forall_mem_nil _, List.nodup_nil, List.nil_subset _⟩
      exact meets_minimal supported bound (by omega) descent (by rw [List.length_nil]; omega)
    · exact ih hdata (fun last other comes => spared last other (.head draws.free comes)) hchild
        (by omega)

/-- A draw of a type of data fails only where something has no instances. -/
theorem meets_drawWithin_data {o : MockOptions}
    (data : ∀ last, a.Reaches id last → (a.node last).isData = true) (bound : Nat) (site : Site) :
    Meets (fun error => ∃ path, error = .uninhabited path) (drawWithin ⟨a, o⟩ bound site id)
      fun _ => True := by
  induction bound generalizing id site with
  | zero => exact .throw ⟨_, rfl⟩
  | succ bound ih =>
    have hid := data id .refl
    rw [drawWithin]
    dsimp only
    split
    · exact .throw ⟨_, rfl⟩
    · refine (meets_drawNode (P := fun _ _ => True) (fun _ => ⟨_, rfl⟩) (fun f hf => ?_)
        (fun child hpromise => ?_) fun site' child _ draws =>
          ih (fun last reaches => data last (.head draws.mem_children reaches)) site').mono
            fun _ _ => trivial
      · rw [Node.isData, hf] at hid
        cases hid
      · rw [Node.isData, hpromise] at hid
        cases hid

/-! ## Types of data -/

/-- Pushing children with the paths to them pushes the children. -/
theorem map_fst_pushed (step : NodeId → Nat → List PathSegment) (children : List (NodeId × Nat))
    (seen : List NodeId) (stack : List (NodeId × List PathSegment)) :
    (fun out : List NodeId × List (NodeId × List PathSegment) => (out.1, out.2.map Prod.fst))
      (children.foldl (fun (seen, stack) (child, i) =>
        if seen.contains child then (seen, stack)
        else (child :: seen, (child, step child i) :: stack)) (seen, stack)) =
      (children.map Prod.fst).foldl (fun (seen, stack) child =>
        if seen.contains child then (seen, stack) else (child :: seen, child :: stack))
        (seen, stack.map Prod.fst) := by
  induction children generalizing seen stack with
  | nil => rfl
  | cons c rest ih =>
    obtain ⟨child, i⟩ := c
    rw [List.map_cons, List.foldl_cons, List.foldl_cons]
    dsimp only
    by_cases hseen : seen.contains child = true
    · rw [if_pos hseen, if_pos hseen]
      exact ih seen stack
    · rw [if_neg hseen, if_neg hseen]
      exact ih (child :: seen) ((child, step child i) :: stack)

/-- The check finds whatever the walk over the same nodes does. -/
theorem isData_of_checkDataFrom {bound : Nat} {seen : List NodeId}
    {stack : List (NodeId × List PathSegment)} (h : checkDataFrom a bound seen stack = .ok ()) :
    ∀ last ∈ a.walkStack bound seen (stack.map Prod.fst), (a.node last).isData = true := by
  induction bound generalizing seen stack with
  | zero => exact nofun
  | succ bound ih =>
    cases stack with
    | nil => exact nofun
    | cons top stack =>
      obtain ⟨id, path⟩ := top
      rw [checkDataFrom] at h
      dsimp only at h
      have hpushed := map_fst_pushed (fun child i => path ++ dataStep a (a.node id) i child)
        (a.node id).children.zipIdx seen stack
      have goal (rest : checkDataFrom a bound
          ((a.node id).children.zipIdx.foldl (fun (seen, stack) (child, i) =>
            if seen.contains child then (seen, stack)
            else (child :: seen, (child, path ++ dataStep a (a.node id) i child) :: stack))
            (seen, stack)).1
          ((a.node id).children.zipIdx.foldl (fun (seen, stack) (child, i) =>
            if seen.contains child then (seen, stack)
            else (child :: seen, (child, path ++ dataStep a (a.node id) i child) :: stack))
            (seen, stack)).2 = .ok ()) (data : (a.node id).isData = true) :
          ∀ last ∈ a.walkStack (bound + 1) seen (id :: stack.map Prod.fst),
            (a.node last).isData = true := by
        have hbelow := ih rest
        rw [List.zipIdx_map_fst] at hpushed
        rw [Arena.walkStack, ← hpushed]
        exact List.forall_mem_cons.mpr ⟨data, hbelow⟩
      rw [List.map_cons]
      split at h
      · cases h
      · cases h
      · rename_i hfunction hpromise
        refine goal h ?_
        unfold Node.isData
        split
        · rename_i f hf
          exact absurd hf (hfunction f)
        · rename_i child hc
          exact absurd hc (hpromise child)
        · rfl

/-- After the check, every node that can be reached is of data. -/
theorem isData_of_checkData (closed : ∀ id, ∀ child ∈ (a.node id).children, child ∈ a.ids)
    (h : checkData a id = .ok ()) {last : NodeId} (reaches : a.Reaches id last) :
    (a.node last).isData = true :=
  isData_of_checkDataFrom h last (Arena.mem_reachable closed reaches)

/-! ## Samplers -/

namespace Sampler

variable {o : MockOptions} {s : Sampler}

/-- A sampler is built for data, whose minimal instance was drawn. -/
theorem build_eq_ok (h : build a id o = .ok s) : s = ⟨⟨a, o⟩, id⟩ ∧ checkData a id = .ok () ∧
    ∃ v, ((draw ⟨a, probe o⟩ {} id).run (generator (probe o))).1 = .ok v := by
  unfold build at h
  obtain ⟨_, hcheck, h⟩ := Except.bind_eq_ok.mp h
  obtain ⟨v, hv, h⟩ := Except.bind_eq_ok.mp h
  cases h
  exact ⟨rfl, hcheck, v, hv⟩

/-- What was drawn has instances. -/
theorem minHeight_of_draw {x : Context} {site : Site} {g : Generator} {v : Value}
    (h : ((draw x site id).run g).1 = .ok v) : (x.arena.node id).minHeight ≠ none := by
  intro hnone
  rw [draw] at h
  cases hlimit : x.limit with
  | zero =>
    rw [hlimit] at h
    cases h
  | succ bound =>
    rw [hlimit, drawWithin, hnone] at h
    cases h

/-- **Which draws of a sampler return.** Once it is built, functions and promises stop no draw, and
if every part that may be left out, and that a draw can come to, has instances, nothing does: from
whatever state of the generator, and however often, a value is drawn. -/
theorem next_returns {g : TypeGraph} {root : TypeId} {maxDepth : Nat}
    (hlower : Arena.lower g root maxDepth = .ok a) (sparing : a.Sparing)
    (room : o.maxDepth + 2 * a.size + 1 < Nat.pow 2 64) (hbuild : build a id o = .ok s) :
    (∀ state error, (s.next.run.run state).1 = .error error → ∃ path, error = .uninhabited path) ∧
    ((∀ last child, s.context.Comes id last → (a.node last).dispensable? = some child →
        (a.node child).minHeight ≠ none) →
      ∀ state, (∃ v, (s.next.run.run state).1 = .ok v) ∧
        ∀ count, ∃ vs, ((s.sample count).run.run state).1 = .ok vs) := by
  obtain ⟨rfl, hcheck, v, hprobe⟩ := build_eq_ok hbuild
  have data (last : NodeId) (reaches : a.Reaches id last) : (a.node last).isData = true :=
    isData_of_checkData (Arena.mem_ids_of_lower hlower) hcheck reaches
  refine ⟨fun state error herror => ?_, fun spared => ?_⟩
  · have allows := meets_drawWithin_data (o := o) data (Context.limit ⟨a, o⟩) {} state
    rw [next, draw] at herror
    rw [herror] at allows
    exact allows
  · have hlimit : Context.limit ⟨a, o⟩ = o.maxDepth + 2 * a.size + 1 := Nat.mod_eq_of_lt room
    have returns : Meets (fun _ => False) (next ⟨⟨a, o⟩, id⟩) fun _ => True :=
      meets_returning (Arena.supported_of_lower hlower) sparing data spared
        (minHeight_of_draw hprobe) _ (by rw [hlimit]; simp only; omega)
    have exists_ok {α : Type} {m : Draw α} {P : α → Prop} (h : Meets (fun _ => False) m P)
        (state : Generator) : ∃ v, (m.run.run state).1 = .ok v := by
      have allows := h state
      cases hrun : (m.run.run state).1 with
      | ok v => exact ⟨v, rfl⟩
      | error error =>
        rw [hrun] at allows
        exact allows.elim
    exact fun state => ⟨exists_ok returns state,
      fun count => exists_ok (Meets.mapM fun _ _ => returns) state⟩

end Sampler

end Mock

/-! ## Comments on comments -/

namespace Comments

def sampler : Mock.Sampler := ⟨⟨sample.arena, options⟩, sample.node⟩

/-- What is computed here: the sampler is built, what may be left out stands where it can be, and all of
it has instances. -/
theorem computed_sampler : sample.loads = true ∧ sample.arena.isSparing = true ∧
    options.maxDepth + 2 * sample.arena.size + 1 < Nat.pow 2 64 ∧
    (Mock.Sampler.build sample.arena sample.node options).isOk = true ∧
    (∀ id ∈ sample.arena.ids, ∀ child ∈ (sample.arena.node id).dispensable?,
      (sample.arena.node child).minHeight.isSome = true) := by
  decide +kernel

theorem draws_return : (∃ v, (sampler.next.run.run ⟨7⟩).1 = .ok v) ∧
    ∃ vs, ((sampler.sample 100).run.run ⟨7⟩).1 = .ok vs := by
  obtain ⟨loads, sparing, room, builds, spared⟩ := computed_sampler
  have hbuild := Except.eq_ok_getD builds sampler
  rw [(Mock.Sampler.build_eq_ok hbuild).1] at hbuild
  have hspared (last child : NodeId) (hchild : (sample.arena.node last).dispensable? = some child) :
      (sample.arena.node child).minHeight ≠ none := by
    have hlast : last ∈ sample.arena.ids := by
      by_contra hlast
      rw [Arena.node_eq_default hlast] at hchild
      cases hchild
    exact Option.ne_none_iff_isSome.mpr (spared last hlast child hchild)
  obtain ⟨-, returns⟩ := Mock.Sampler.next_returns (Sample.lowered loads)
    (Arena.sparing_of_isSparing sparing) room hbuild
  obtain ⟨next, samples⟩ := returns (fun last child _ => hspared last child) ⟨7⟩
  exact ⟨next, samples 100⟩

end Comments

/-! ## A property without values -/

namespace Unfillable

/-- An object with an optional property, whose type has no instances. -/
def sample : Sample where
  graph := {
    nodes := #[⟨.objectLiteral [⟨1⟩], none⟩, ⟨.property "x" ⟨2⟩ true false, none⟩, ⟨.never, none⟩]
    roots := [("Root", ⟨0⟩)] }

def options : MockOptions := { seed := some 1, optionalProbability := 1 }

def sampler : Mock.Sampler := ⟨⟨sample.arena, options⟩, sample.node⟩

/-- What is computed here: the type is lowered, its sampler is built, and the first draw fails. -/
theorem computed : sample.loads = true ∧
    (Mock.Sampler.build sample.arena sample.node options).isOk = true ∧
    Except.error? (sampler.next.run.run (Mock.generator options)).1 =
      some (.uninhabited "$.x") := by
  decide +kernel

/-- A sampler that is built, and whose first draw fails. -/
theorem first_draw_fails : sample.engine.load sample.graph sample.root = .ok sample.arena ∧
    Mock.Sampler.build sample.arena sample.node options = .ok sampler ∧
    (sampler.next.run.run (Mock.generator options)).1 = .error (.uninhabited "$.x") := by
  obtain ⟨loads, builds, fails⟩ := computed
  have hbuild := Except.eq_ok_getD builds sampler
  rw [(Mock.Sampler.build_eq_ok hbuild).1] at hbuild
  exact ⟨Sample.loaded loads, hbuild, Except.error?_eq_some.mp fails⟩

end Unfillable

end Typeforge
