/-
# `Typeforge.Proofs.Mocks.Minimal` — minimal draws come to no node twice

A minimal draw follows heights: it leaves out what may be left out and takes the lowest
member of a union, and so it goes down to a least instance, in which no node stands below
itself.  The bound on draws is there all the same, but a draw that refuses to come to a node
that it is inside of, and may go no deeper than there are nodes, draws the same values.

This rests on members standing where they belong.  One of them need not: a rest element in
a fixed position of a tuple.  It counts as empty in the height of the tuple, but in its fixed
position it is drawn, and if the tuple stands behind it, that goes on until the bound is
reached.

So `Mock.minimal_draw_returns` asks for members in their places and rest elements
last, and for data alone behind the node, since functions and promises are not drawn.  How
heights settle is stated without any of this.
-/
import Typeforge.Proofs.Lowering.LeastHeights
import Typeforge.Proofs.Lowering.WellFormed
import Typeforge.Proofs.Mocks.Returning
import Typeforge.Proofs.Types.Portable

namespace Typeforge

namespace Mock

/-! ## Draws that agree -/

section Agreeing

variable {α β : Type} {m : Draw α} {f g : α → Draw β} {P : α → Prop}

/-- What follows a draw matters only for what the draw gives. -/
theorem Meets.bind_congr (hm : Meets (fun _ => True) m P) (h : ∀ a, P a → f a = g a) :
    m >>= f = m >>= g := by
  funext state
  change (m >>= f).run.run state = (m >>= g).run.run state
  have hstate := hm state
  rw [run_bind, run_bind]
  cases hrun : m.run.run state with
  | mk result state' =>
    cases result with
    | error e => rfl
    | ok a =>
      rw [hrun] at hstate
      exact congrArg (fun m : Draw β => m.run.run state') (h a hstate)

theorem mapM_congr {xs : List β} {f g : β → Draw α} (h : ∀ x ∈ xs, f x = g x) :
    xs.mapM f = xs.mapM g := by
  induction xs with
  | nil => rfl
  | cons x xs ih =>
    obtain ⟨hx, hxs⟩ := List.forall_mem_cons.mp h
    rw [List.mapM_cons, List.mapM_cons, hx, ih hxs]

end Agreeing

section Children

variable {x : Context} {f g : Site → NodeId → Draw Value} {site : Site} {n : Node}

theorem drawElements_congr {id : NodeId} {start count : Nat}
    (h : ∀ i, count ≠ 0 → f (site.part (.element i)) id = g (site.part (.element i)) id) :
    drawElements f site id start count = drawElements g site id start count := by
  refine mapM_congr fun i hi => h i ?_
  rintro rfl
  exact absurd hi List.not_mem_nil

theorem drawArray_congr {id : NodeId}
    (h : ∀ i, x.minimal site = false → f (site.part (.element i)) id = g (site.part (.element i)) id) :
    drawArray x f site id = drawArray x g site id := by
  refine Meets.bind_congr (Meets.lift (Context.gives_count _)) fun count hcount => ?_
  rw [drawElements_congr fun i hne => h i (hcount hne)]

theorem drawProperties_congr {props : List Arena.Property}
    (h : ∀ p ∈ props, (p.optional = true → x.minimal site = false) →
      f (site.part (.member p.name)) p.id = g (site.part (.member p.name)) p.id)
    (out : Members Value) : drawProperties x f site props out = drawProperties x g site props out := by
  induction props generalizing out with
  | nil => rfl
  | cons p rest ih =>
    obtain ⟨hp, hrest⟩ := List.forall_mem_cons.mp h
    have next (included : Bool) (hfree : included = true → p.optional = true → x.minimal site = false) :
        (if included = true then do
          let v ← f (site.part (.member p.name)) p.id
          drawProperties x f site rest (Members.put p.name v out)
        else drawProperties x f site rest out) =
        if included = true then do
          let v ← g (site.part (.member p.name)) p.id
          drawProperties x g site rest (Members.put p.name v out)
        else drawProperties x g site rest out := by
      cases included with
      | false => exact ih hrest out
      | true =>
        rw [if_pos rfl, if_pos rfl, hp (hfree rfl)]
        exact congrArg _ (funext fun v => ih hrest _)
    unfold drawProperties
    cases hoptional : p.optional with
    | false => exact next true fun _ h => absurd (hoptional.symm.trans h) Bool.false_ne_true
    | true =>
      exact Meets.bind_congr (Meets.lift Context.gives_includeOptional) fun included hi =>
        next included fun h _ => hi h

theorem drawIndexed_congr {id : NodeId} {filter : KeyFilter} {declared : List String} (count : Nat)
    (h : ∀ key, count ≠ 0 → f (site.part (.member key)) id = g (site.part (.member key)) id)
    (out : Members Value) : drawIndexed x f site id filter declared count out =
      drawIndexed x g site id filter declared count out := by
  induction count generalizing out with
  | zero => rfl
  | succ count ih =>
    have more := ih fun key _ => h key (Nat.succ_ne_zero count)
    unfold drawIndexed
    refine congrArg _ (funext fun key => ?_)
    rw [more, h key (Nat.succ_ne_zero count)]
    split
    · rfl
    · exact congrArg _ (funext fun v => more _)

theorem drawFixed_congr {fixed : List NodeId}
    (h : ∀ i, ∀ id ∈ fixed, ((x.arena.node id).optional = true → x.minimal site = false) →
      f (site.part (.element i)) id = g (site.part (.element i)) id) (i : Nat) :
    drawFixed x f site i fixed = drawFixed x g site i fixed := by
  induction fixed generalizing i with
  | nil => rfl
  | cons id rest ih =>
    have hrest := ih (fun j id' hid' => h j id' (List.mem_cons_of_mem _ hid')) (i + 1)
    have next (included : Bool)
        (hfree : included = true → (x.arena.node id).optional = true → x.minimal site = false) :
        (if included = true then do
          let v ← f (site.part (.element i)) id
          let drawn ← drawFixed x f site (i + 1) rest
          pure (v :: drawn.1, drawn.2)
        else pure ([], false)) =
        if included = true then do
          let v ← g (site.part (.element i)) id
          let drawn ← drawFixed x g site (i + 1) rest
          pure (v :: drawn.1, drawn.2)
        else pure ([], false) := by
      cases included with
      | false => rfl
      | true => rw [if_pos rfl, if_pos rfl, h i id List.mem_cons_self (hfree rfl), hrest]
    unfold drawFixed
    cases hoptional : (x.arena.node id).optional with
    | false => exact next true fun _ h => absurd (hoptional.symm.trans h) Bool.false_ne_true
    | true =>
      exact Meets.bind_congr (Meets.lift Context.gives_includeOptional) fun included hi =>
        next included fun h _ => hi h

theorem drawObject_congr {props : List NodeId} {index : Option NodeId} {className : Option String}
    (hshape : n.shape = .object props index className)
    (h : ∀ access id, x.Draws (x.minimal site) n id → f (site.part access) id = g (site.part access) id) :
    drawObject x f site props index = drawObject x g site props index := by
  unfold drawObject
  dsimp only
  rw [drawProperties_congr fun p hp hfree => h _ _ (.property hshape hp hfree)]
  refine congrArg _ (funext fun out => ?_)
  cases hindex : x.arena.indexFilter index with
  | none => rfl
  | some found =>
    obtain ⟨id, filter⟩ := found
    refine Meets.bind_congr (Meets.lift (Context.gives_count _)) fun count hcount => ?_
    rw [drawIndexed_congr count fun key hne => h _ _ (.index hshape hindex (hcount hne))]

theorem drawTuple_congr {members : List NodeId} (hshape : n.shape = .tuple members)
    (h : ∀ access id, x.Draws (x.minimal site) n id → f (site.part access) id = g (site.part access) id) :
    drawTuple x f site members = drawTuple x g site members := by
  unfold drawTuple
  dsimp only
  rw [drawFixed_congr fun i id hid hfree => h _ _ (.position hshape hid hfree)]
  refine congrArg _ (funext fun drawn => ?_)
  obtain ⟨items, complete⟩ := drawn
  dsimp only
  split
  · rename_i id hrest
    refine Meets.bind_congr (Meets.lift (Context.gives_count _)) fun count hcount => ?_
    rw [drawElements_congr fun i hne => h _ _ (.rest hshape hrest (hcount hne))]
  · rfl

/-- **A draw of a node takes no notice of how its children are drawn, but for those it comes to.** -/
theorem drawNode_congr
    (h : ∀ site' id, site'.depth = site.depth → x.Draws (x.minimal site) n id →
      f site' id = g site' id) :
    drawNode x f site n = drawNode x g site n := by
  have parts (access id) (hid : x.Draws (x.minimal site) n id) :
      f (site.part access) id = g (site.part access) id := h _ _ rfl hid
  have repeated {id} (hid : n.shape.repeated? = some id) :
      drawArray x f site id = drawArray x g site id :=
    drawArray_congr fun i hfree => parts _ _ (.repeated hid hfree)
  unfold drawNode
  split <;> rename_i hshape
  · rfl
  · exact repeated (by rw [hshape]; rfl)
  · exact repeated (by rw [hshape]; rfl)
  · exact h _ _ rfl (.behind (by rw [hshape]; rfl))
  · exact h _ _ rfl (.behind (by rw [hshape]; rfl))
  · exact h _ _ rfl (.behind (by rw [hshape]; rfl))
  · exact h _ _ rfl (.behind (by rw [hshape]; rfl))
  · exact h _ _ rfl (.behind (by rw [hshape]; rfl))
  · rfl
  · exact drawObject_congr hshape parts
  · exact drawTuple_congr hshape parts
  · refine Meets.bind_congr (Context.meets_pickMember fun _ => trivial) fun id hid => ?_
    exact h _ _ rfl (.member hshape hid)
  · rfl

end Children

/-! ## Draws that come to no node twice -/

/-- Draws an instance of a node, and refuses to come to a node that it is inside of. -/
def drawOnce (x : Context) : Nat → List NodeId → Site → NodeId → Draw Value
  | 0, _, site, _ => site.uninhabited
  | bound + 1, above, site, id =>
    if id ∈ above then site.uninhabited
    else
      let n := x.arena.node id
      match n.minHeight with
      | none => site.uninhabited
      | some _ => drawNode x (drawOnce x bound (id :: above)) site.deeper n

/-- On the way down it makes no difference whether nodes that were met are refused, nor how deep draws
may go, if there is room for each node once. -/
theorem drawOnce_eq {x : Context} {id : NodeId} (supported : x.arena.Supported) {site : Site}
    (deep : x.options.maxDepth ≤ site.depth + 1) {path : List NodeId} (descent : x.Descent path id)
    {room bound : Nat} (hroom : x.arena.size ≤ path.length + room)
    (hbound : x.arena.size ≤ path.length + bound) :
    drawOnce x room path site id = drawWithin x bound site id := by
  have hlength := descent.length_lt supported
  induction room generalizing id site path bound with
  | zero => omega
  | succ room ih =>
    obtain ⟨bound, rfl⟩ := Nat.exists_eq_add_one_of_ne_zero (by omega : bound ≠ 0)
    obtain ⟨k, hk⟩ := Option.ne_none_iff_exists'.mp descent.height
    rw [drawOnce, drawWithin, if_neg (descent.not_mem supported)]
    dsimp only
    rw [hk]
    dsimp only
    refine drawNode_congr fun site' child hdepth draws => ?_
    have hminimal : x.minimal site.deeper = true := decide_eq_true deep
    rw [hminimal] at draws
    have down := descent.down supported draws
    refine ih ?_ down ?_ ?_ (down.length_lt supported)
    · rw [hdepth]
      exact Nat.le_succ_of_le deep
    · rw [List.length_cons]
      omega
    · rw [List.length_cons]
      omega

end Mock

/-! ## Members in their places -/

namespace Shape

/-- Whether a node is a member of an object, a tuple or a function. -/
def isMember (s : Shape) : Bool := s.isProperty || s.isIndexSignature || s.isElement || s.isParameter

/-- What a member belongs in is drawn from parts. -/
theorem apart_of_mayHold {s child : Shape} (h : s.mayHold child = true)
    (member : child.isMember = true) : s.behind? = none ∧ ∀ members, s ≠ union members := by
  cases s with
  | object | tuple | function => exact ⟨rfl, fun _ => Shape.noConfusion⟩
  | _ =>
    cases child with
    | property | indexSignature | tupleMember | rest | parameter => cases h
    | _ => cases member

end Shape

theorem Node.isMember_of_isSpare {n : Node} (h : n.isSpare = true) : n.shape.isMember = true := by
  cases hshape : n.shape with
  | property | tupleMember | indexSignature | rest | parameter => rfl
  | _ =>
    rw [isSpare, hshape] at h
    cases h

namespace Arena

/-- Members stand where they belong. -/
def MembersPlaced (a : Arena) : Prop :=
  ∀ id, ∀ child ∈ (a.node id).children, (a.node id).shape.mayHold (a.node child).shape = true

/-- Whether no rest element of a tuple has others behind it. -/
def endsInRest (a : Arena) : Shape → Bool
  | .tuple members => members.dropLast.all fun m => !(a.node m).shape.isRest
  | _ => true

/-- Rest elements are the last of their tuples. -/
def RestsLast (a : Arena) : Prop := ∀ id, a.endsInRest (a.node id).shape = true

end Arena

namespace Mock

variable {x : Context} {id child : NodeId}

/-- No rest element is in a fixed position. -/
theorem isRest_of_position (last : x.arena.RestsLast) {members : List NodeId}
    (hshape : (x.arena.node id).shape = .tuple members) (h : child ∈ (x.arena.splitTuple members).1) :
    (x.arena.node child).shape.isRest = false := by
  have hlast := last id
  rw [hshape, Arena.endsInRest, List.all_eq_true] at hlast
  have before (m : NodeId) (hm : m ∈ members.dropLast) : (x.arena.node m).shape.isRest = false :=
    (Bool.not_eq_true' _).mp (hlast m hm)
  unfold Arena.splitTuple at h
  split at h
  · rename_i final hfinal
    split at h
    · exact before child h
    · rename_i hkept
      rw [← List.dropLast_append_getLast? final hfinal] at h
      rcases List.mem_append.mp h with h | h
      · exact before child h
      · rw [List.mem_singleton.mp h]
        exact Bool.eq_false_iff.mpr hkept
  · rename_i hnone
    rw [List.getLast?_eq_none_iff.mp hnone] at h
    cases h

/-- Where members stand where they belong, and rest elements last, a minimal draw comes to nothing
that may be left out. -/
theorem isSpare_of_placed (placed : x.arena.MembersPlaced) (last : x.arena.RestsLast)
    (h : x.Draws true (x.arena.node id) child) : (x.arena.node child).isSpare = false := by
  have held := placed id child h.mem_children
  refine isSpare_of_draws_of h
    (fun hspare => Shape.apart_of_mayHold held (Node.isMember_of_isSpare hspare))
    fun members hshape hmem hspare => ?_
  have hrest := isRest_of_position last hshape hmem
  rw [hshape] at held
  unfold Node.isSpare at hspare
  split at hspare <;> rename_i hchild
  · rw [hchild] at hrest
    cases hrest
  · rw [hchild] at held
    cases held
  all_goals first
    | exact hspare
    | cases hspare

/-- **Minimal draws bottom out.** Improving the heights of an arena ends, and from no heights it ends with
the least solution of their equations.  Where members stand where they belong, and rest elements last, a
minimal draw of a node that is no member, reaches no function and no promise, and has a height, returns a
value from every state of the generator.  It comes to no node that it is inside of, and it goes no deeper
than there are nodes. -/
theorem minimal_draw_returns (b : Arena) :
    (∃ c, Arena.SettlesAt Arena.improveHeight b c) ∧
    ((∀ id, (b.node id).minHeight = none) → b.LeastHeights b.assignHeights ∧
      ∀ (o : MockOptions) (site : Site) (id : NodeId), b.assignHeights.MembersPlaced →
        b.assignHeights.RestsLast → (b.assignHeights.node id).shape.isMember = false →
        (∀ last, b.assignHeights.Reaches id last → (b.assignHeights.node last).isData = true) →
        (b.assignHeights.node id).minHeight ≠ none →
        o.maxDepth = 0 → 2 * b.size + 1 < Nat.pow 2 64 → ∀ state, ∃ v state',
          (draw ⟨b.assignHeights, o⟩ site id).run.run state = (.ok v, state') ∧
          (drawOnce ⟨b.assignHeights, o⟩ b.size [] site id).run.run state = (.ok v, state')) := by
  refine ⟨Arena.exists_settlesAt b, fun unheighted => ⟨Arena.leastHeights_assignHeights unheighted,
    fun o site id placed last plain data height minimal room state => ?_⟩⟩
  have supported : b.assignHeights.Supported :=
    Arena.settle_keeps Arena.keeps_supported _ (Arena.supported_of_unheighted unheighted)
  have hsize : b.assignHeights.size = b.size := Arena.size_assignHeights b
  have kept : (b.assignHeights.node id).isSpare = false := by
    refine Bool.eq_false_iff.mpr fun hspare => ?_
    rw [Node.isMember_of_isSpare hspare] at plain
    cases plain
  have descent : (Context.mk b.assignHeights o).Descent [] id := by
    refine ⟨height, fun other comes => ?_, data, List.forall_mem_nil _, List.nodup_nil,
      List.nil_subset _⟩
    cases comes with
    | refl => exact kept
    | tail _ draws => exact isSpare_of_placed placed last draws
  have hlimit : Context.limit ⟨b.assignHeights, o⟩ = 2 * b.size + 1 := by
    rw [Context.limit, minimal, hsize, Nat.zero_add]
    exact Nat.mod_eq_of_lt room
  have deep : o.maxDepth ≤ site.depth + 1 := by
    rw [minimal]
    exact Nat.zero_le _
  have enough :
      b.assignHeights.size ≤ ([] : List NodeId).length + Context.limit ⟨b.assignHeights, o⟩ := by
    rw [hlimit, hsize, List.length_nil]
    omega
  have returns : Meets (fun _ => False) (draw ⟨b.assignHeights, o⟩ site id) fun _ => True :=
    meets_minimal supported _ deep descent enough
  have once : drawOnce ⟨b.assignHeights, o⟩ b.size [] site id = draw ⟨b.assignHeights, o⟩ site id :=
    drawOnce_eq supported deep descent (by rw [List.length_nil, hsize, Nat.zero_add]) enough
  rw [once]
  have hstate := returns state
  cases hrun : (draw ⟨b.assignHeights, o⟩ site id).run.run state with
  | mk result state' =>
    rw [hrun] at hstate
    cases result with
    | error e => exact hstate.elim
    | ok v => exact ⟨v, state', rfl, rfl⟩

end Mock

/-! ## A linked list with a tuple -/

namespace Linked

/-- Nodes of a list, each with an optional list of others and a pair that ends in any number of them. -/
def arena : Arena where
  nodes := #[
    { source := ⟨0⟩, shape := .object [⟨1⟩, ⟨2⟩, ⟨6⟩] none none },
    { source := ⟨1⟩, shape := .property "next" ⟨3⟩ },
    { source := ⟨2⟩, shape := .property "others" ⟨5⟩, optional := true },
    { source := ⟨3⟩, shape := .union [⟨0⟩, ⟨4⟩] },
    { source := ⟨4⟩, shape := .atom .null },
    { source := ⟨5⟩, shape := .array ⟨0⟩ },
    { source := ⟨6⟩, shape := .property "pair" ⟨7⟩ },
    { source := ⟨7⟩, shape := .tuple [⟨8⟩, ⟨9⟩] },
    { source := ⟨8⟩, shape := .tupleMember ⟨4⟩ },
    { source := ⟨9⟩, shape := .rest ⟨0⟩ }]
  root := ⟨0⟩

/-- What is computed here: there are no heights at first, members stand where they belong, all is data,
and the list has a height in the end. -/
theorem computed : (∀ id ∈ arena.ids, (arena.node id).minHeight = none) ∧
    (∀ id ∈ arena.assignHeights.ids, ∀ child ∈ (arena.assignHeights.node id).children,
      (arena.assignHeights.node id).shape.mayHold (arena.assignHeights.node child).shape = true) ∧
    (∀ id ∈ arena.assignHeights.ids,
      arena.assignHeights.endsInRest (arena.assignHeights.node id).shape = true) ∧
    (∀ id ∈ arena.assignHeights.ids, (arena.assignHeights.node id).isData = true) ∧
    (arena.assignHeights.node ⟨0⟩).shape.isMember = false ∧
    (arena.assignHeights.node ⟨0⟩).minHeight = some 2 := by
  decide +kernel

theorem minimal_draw : ∀ state, ∃ v state',
    (Mock.draw ⟨arena.assignHeights, { maxDepth := 0 }⟩ {} ⟨0⟩).run.run state = (.ok v, state') ∧
    (Mock.drawOnce ⟨arena.assignHeights, { maxDepth := 0 }⟩ arena.size [] {} ⟨0⟩).run.run state =
      (.ok v, state') := by
  obtain ⟨unheighted, placed, last, data, plain, height⟩ := computed
  obtain ⟨-, returns⟩ := (Mock.minimal_draw_returns arena).2
    (Arena.forall_node (P := fun n => n.minHeight = none) unheighted rfl)
  exact returns { maxDepth := 0 } {} ⟨0⟩
    (Arena.forall_node (P := fun n => ∀ child ∈ n.children,
      n.shape.mayHold (arena.assignHeights.node child).shape = true) placed (List.forall_mem_nil _))
    (Arena.forall_node (P := fun n => arena.assignHeights.endsInRest n.shape = true) last rfl) plain
    (fun id _ => Arena.forall_node (P := fun n => n.isData = true) data rfl id)
    (by rw [height]; exact Option.some_ne_none 2) rfl (by decide)

end Linked

/-! ## A rest element that is drawn -/

namespace Folded

/-- What is computed here: the inner tuple of the folded ones stands where it belongs and has a height,
and its minimal draw comes to the bound. -/
theorem computed_draw : sample.loads = true ∧
    (∀ id ∈ sample.arena.ids, ∀ child ∈ (sample.arena.node id).children,
      (sample.arena.node id).shape.mayHold (sample.arena.node child).shape = true) ∧
    (∀ id ∈ sample.arena.ids, (sample.arena.node id).isData = true) ∧
    (sample.arena.node ⟨2⟩).shape.isMember = false ∧ (sample.arena.node ⟨2⟩).minHeight = some 1 ∧
    2 * sample.arena.size + 1 < Nat.pow 2 64 ∧
    ((Mock.draw ⟨sample.arena, { maxDepth := 0 }⟩ {} ⟨2⟩).run.run ⟨1⟩).1.isOk = false := by
  decide +kernel

/-- Members may stand where they belong and a minimal draw fails all the same. -/
theorem minimal_draw_fails : ¬∀ (g : TypeGraph) (root : TypeId) (maxDepth : Nat) (a : Arena),
    Arena.lower g root maxDepth = .ok a → ∀ (o : MockOptions) (site : Mock.Site) (id : NodeId),
      a.MembersPlaced → (a.node id).shape.isMember = false →
      (∀ last, a.Reaches id last → (a.node last).isData = true) → (a.node id).minHeight ≠ none →
      o.maxDepth = 0 → 2 * a.size + 1 < Nat.pow 2 64 →
      ∀ state, ∃ v, ((Mock.draw ⟨a, o⟩ site id).run.run state).1 = .ok v := by
  intro h
  obtain ⟨loads, placed, data, plain, height, room, fails⟩ := computed_draw
  have lowers := Sample.lowered loads
  obtain ⟨v, hv⟩ := h sample.graph sample.root sample.maxDepth sample.arena lowers { maxDepth := 0 }
    {} ⟨2⟩
    (Arena.forall_node (P := fun n => ∀ child ∈ n.children,
      n.shape.mayHold (sample.arena.node child).shape = true) placed (List.forall_mem_nil _))
    plain (fun id _ => Arena.forall_node (P := fun n => n.isData = true) data rfl id)
    (by rw [height]; exact Option.some_ne_none 1) rfl room ⟨1⟩
  rw [hv] at fails
  cases fails

end Folded

end Typeforge
