/-
# `Typeforge.Proofs.Lowering.LeastHeights` — heights are the least solution of their equations

The height of a node is put together from those of its children, and around a cycle these
equations depend on themselves.  Sweeping starts from no heights at all and improves them in
place; it ends, and what it ends with solves the equations, and gives a height to no node
that some solution gives none, nor a lower one.

Sweeps improve a height as soon as a lower one is known, so that a node may come down more
than once.  What bounds them is that some node comes to rest in each: among the nodes that
are not yet as low as they will be, one rests on nodes that are.
-/
import Mathlib.Data.DFinsupp.WellFounded
import Mathlib.Order.WithBot
import Typeforge.Proofs.Lowering.Heights

namespace Typeforge

theorem HeightWithin.eq_of_iff {h h' : Option Nat}
    (iff : ∀ k, HeightWithin k h ↔ HeightWithin k h') : h = h' := by
  cases h with
  | none =>
    cases h' with
    | none => rfl
    | some k => exact absurd ((iff k).mpr (heightWithin_some.mpr le_rfl)) not_heightWithin_none
  | some j =>
    cases h' with
    | none => exact absurd ((iff j).mp (heightWithin_some.mpr le_rfl)) not_heightWithin_none
    | some k =>
      have hle := heightWithin_some.mp ((iff j).mp (heightWithin_some.mpr le_rfl))
      have hge := heightWithin_some.mp ((iff k).mpr (heightWithin_some.mpr le_rfl))
      rw [le_antisymm hge hle]

namespace Arena

variable {a b c : Arena} {id : NodeId} {k : Nat}

/-! ## Solutions -/

/-- Heights that solve their equations. -/
def SolvesHeights (a : Arena) : Prop := ∀ id, (a.node id).minHeight = a.height (a.node id)

/-- Arenas that are the same but for heights. -/
structure Reheighted (a b : Arena) : Prop where
  size : b.size = a.size
  node : ∀ id, ∃ h, b.node id = { a.node id with minHeight := h }

/-- Whether each node that has a height in one arena has one in another that is no higher. -/
def NoHigher (b a : Arena) : Prop :=
  ∀ id k, HeightWithin k (a.node id).minHeight → HeightWithin k (b.node id).minHeight

theorem Reheighted.refl (a : Arena) : a.Reheighted a := ⟨rfl, fun id => ⟨(a.node id).minHeight, rfl⟩⟩

theorem Reheighted.symm (h : a.Reheighted b) : b.Reheighted a := by
  refine ⟨h.size.symm, fun id => ⟨(a.node id).minHeight, ?_⟩⟩
  obtain ⟨height, heq⟩ := h.node id
  rw [heq]

theorem Reheighted.trans (h : a.Reheighted b) (h' : b.Reheighted c) : a.Reheighted c := by
  refine ⟨h'.size.trans h.size, fun id => ?_⟩
  obtain ⟨height, heq⟩ := h.node id
  obtain ⟨height', heq'⟩ := h'.node id
  exact ⟨height', by rw [heq', heq]⟩

theorem Reheighted.height_eq (h : a.Reheighted b) (id : NodeId) :
    c.height (b.node id) = c.height (a.node id) := by
  obtain ⟨height, heq⟩ := h.node id
  rw [heq]
  rfl

theorem Reheighted.behind_eq (h : a.Reheighted b) : b.Behind = a.Behind := by
  funext child id
  obtain ⟨height, heq⟩ := h.node id
  rw [Behind, heq]
  rfl

/-- Nothing is higher than no heights. -/
theorem noHigher_of_unheighted (unheighted : ∀ id, (a.node id).minHeight = none) : b.NoHigher a := by
  intro id k h
  rw [unheighted id] at h
  exact absurd h not_heightWithin_none

/-- Improving heights keeps all else. -/
theorem keeps_reheighted (a : Arena) : Keeps improveHeight a.Reheighted := by
  intro b id n hb hid hn
  obtain ⟨k, -, rfl, -⟩ := eq_of_improveHeight hn
  refine ⟨size_set.trans hb.size, fun other => ?_⟩
  refine node_set_cases (fun m => ∃ h, m = { a.node other with minHeight := h }) hid other
    (fun _ => hb.node other) ?_
  rintro rfl
  obtain ⟨height, heq⟩ := hb.node other
  rw [heq]
  exact ⟨some k, rfl⟩

/-- An improvement raises no height. -/
theorem noHigher_of_improveHeight {n : Node} (hid : id ∈ a.ids)
    (hn : a.improveHeight (a.node id) = some n) : (a.set id n).NoHigher a := by
  obtain ⟨new, -, rfl, hlt⟩ := eq_of_improveHeight hn
  intro other k h
  refine node_set_cases (fun m => HeightWithin k m.minHeight) hid other (fun _ => h) ?_
  rintro rfl
  obtain ⟨old, hold, hsome⟩ := h
  exact heightWithin_some.mpr ((hlt old hsome).le.trans hold)

theorem NoHigher.trans (h : c.NoHigher b) (h' : b.NoHigher a) : c.NoHigher a :=
  fun id k hk => h id k (h' id k hk)

/-- Improving heights raises none. -/
theorem keeps_noHigher (a : Arena) : Keeps improveHeight fun b => b.NoHigher a :=
  fun _ _ _ hb hid hn => (noHigher_of_improveHeight hid hn).trans hb

/-- What improvements give is never below a solution. -/
theorem keeps_above (solves : c.SolvesHeights) :
    Keeps improveHeight fun b => c.Reheighted b ∧ c.NoHigher b := by
  rintro b id n ⟨hb, habove⟩ hid hn
  refine ⟨keeps_reheighted c b id n hb hid hn, fun other k => ?_⟩
  obtain ⟨new, hheight, rfl, -⟩ := eq_of_improveHeight hn
  refine node_set_cases (fun m => HeightWithin k m.minHeight → _) hid other
    (fun _ => habove other k) ?_
  rintro rfl h
  rw [solves other, ← hb.height_eq]
  refine heightWithin_height_of_le habove ?_
  rw [hheight]
  exact h

/-! ## Sweeping ends -/

/-- The heights of the first nodes, a node without a height above all others. -/
def heightsOf (size : Nat) (a : Arena) : Fin size → WithTop Nat := fun i => (a.node ⟨i⟩).minHeight

theorem heightsOf_le (size : Nat) (h : b.NoHigher a) : heightsOf size b ≤ heightsOf size a := by
  intro i
  cases ha : (a.node ⟨i⟩).minHeight with
  | none =>
    have htop : heightsOf size a i = ⊤ := ha
    rw [htop]
    exact le_top
  | some k =>
    obtain ⟨j, hj, hb⟩ := h ⟨i⟩ k (ha ▸ heightWithin_some.mpr le_rfl)
    have hk : heightsOf size a i = (k : WithTop Nat) := ha
    have hj' : heightsOf size b i = (j : WithTop Nat) := hb
    rw [hk, hj']
    exact WithTop.coe_le_coe.mpr hj

/-- An improvement lowers heights. -/
theorem heightsOf_lt {n : Node} (hid : id ∈ a.ids) (hn : a.improveHeight (a.node id) = some n) :
    heightsOf a.size (a.set id n) < heightsOf a.size a := by
  refine lt_of_le_of_ne (heightsOf_le _ (noHigher_of_improveHeight hid hn)) fun heq => ?_
  obtain ⟨new, -, rfl, hlt⟩ := eq_of_improveHeight hn
  have hsame := congrFun heq ⟨id.index, mem_ids.mp hid⟩
  rw [heightsOf, heightsOf, node_set_self hid] at hsame
  exact Nat.lt_irrefl new (hlt new hsame.symm)

theorem rises_heightsOf (size : Nat) : ∀ (a : Arena) (id : NodeId) (n : Node), a.size = size →
    id ∈ a.ids → a.improveHeight (a.node id) = some n →
    OrderDual.toDual (heightsOf size a) < OrderDual.toDual (heightsOf size (a.set id n)) := by
  rintro a id n rfl hid hn
  exact OrderDual.toDual_lt_toDual.mpr (heightsOf_lt hid hn)

theorem keeps_size (size : Nat) : Keeps improveHeight fun a => a.size = size :=
  fun _ _ _ ha _ _ => size_set.trans ha

/-- **Improving heights ends**, whatever the heights it starts from: no height comes down for ever. -/
theorem exists_settlesAt (a : Arena) : ∃ b, SettlesAt improveHeight a b := by
  suffices h : ∀ (size : Nat) (heights : Fin size → WithTop Nat) (a : Arena), a.size = size →
      heightsOf size a = heights → ∃ b, SettlesAt improveHeight a b from h a.size _ a rfl rfl
  intro size heights
  induction heights using WellFoundedLT.induction with
  | ind heights ih =>
    rintro a hsize rfl
    have hmeasure := sweep_measure (keeps_size size) (rises_heightsOf size) hsize
    cases hchanged : (a.sweep improveHeight).2 with
    | true =>
      have hlt := OrderDual.toDual_lt_toDual.mp (hmeasure.1 hchanged)
      obtain ⟨b, hb⟩ := ih _ hlt _ (sweep_keeps (keeps_size size) hsize) rfl
      exact ⟨b, .again hchanged hb⟩
    | false => exact ⟨_, .done hchanged⟩

/-- A height that cannot be improved is as low as the others make it. -/
theorem heightWithin_of_improveHeight_eq_none {n : Node} (h : a.improveHeight n = none)
    (hk : HeightWithin k (a.height n)) : HeightWithin k n.minHeight := by
  obtain ⟨new, hle, hnew⟩ := hk
  cases hold : n.minHeight with
  | none =>
    rw [improveHeight, hnew, hold] at h
    cases h
  | some old =>
    rw [improveHeight, hnew, hold] at h
    dsimp only at h
    split at h
    · cases h
    · rename_i hge
      exact heightWithin_some.mpr ((not_lt.mp hge).trans hle)

/-- Where improving has ended, heights that are supported solve their equations. -/
theorem Supported.solves (supported : a.Supported) (stable : Stable improveHeight a) :
    a.SolvesHeights := by
  intro id
  by_cases hid : id ∈ a.ids
  · exact HeightWithin.eq_of_iff fun k => ⟨supported.heightWithin,
      heightWithin_of_improveHeight_eq_none (stable id hid)⟩
  · rw [node_eq_default hid]
    rfl

/-- What sweeping from no heights ends with is supported and solves the equations. -/
theorem solves_of_settlesAt (unheighted : ∀ id, (a.node id).minHeight = none)
    (h : SettlesAt improveHeight a b) : b.Supported ∧ b.SolvesHeights ∧ a.Reheighted b := by
  have supported := h.keeps keeps_supported (supported_of_unheighted unheighted)
  have stable := h.stable (keeps_size a.size) (rises_heightsOf a.size) rfl
  exact ⟨supported, supported.solves stable, h.keeps (keeps_reheighted a) (.refl a)⟩

/-! ## One more node at rest -/

section Rest

-- what the heights come down to, and heights on their way there
variable (supported : c.Supported) (solves : c.SolvesHeights) (same : c.Reheighted a)
  (above : c.NoHigher a)

include solves same in
/-- A sweep gives a node its height if those it rests on have theirs. -/
theorem heightWithin_sweep (hid : id ∈ a.ids)
    (rests : ∀ child j, j < k ∨ j = k ∧ (c.node id).required? = some child →
      HeightWithin j (c.node child).minHeight → HeightWithin j (a.node child).minHeight)
    (h : HeightWithin k (c.node id).minHeight) :
    HeightWithin k ((a.sweep improveHeight).1.node id).minHeight := by
  have keeps : Keeps improveHeight fun b => c.Reheighted b ∧ b.NoHigher a :=
    fun b x n hb hx hn => ⟨keeps_reheighted c b x n hb.1 hx hn, keeps_noHigher a b x n hb.2 hx hn⟩
  refine sweep_brings keeps (fun b x n hb hx hn => ⟨keeps b x n hb.1 hx hn, ?_⟩) hid
    (Q := fun b => HeightWithin k (b.node id).minHeight) ?_ ⟨same, fun _ _ h => h⟩
  · exact noHigher_of_improveHeight hx hn id k hb.2
  · rintro ⟨b, changed⟩ hvisited ⟨hsame, hlower⟩
    have hheight : HeightWithin k (b.height (b.node id)) := by
      rw [hsame.height_eq]
      rw [solves id] at h
      exact heightWithin_height_of_rests (fun child j hj hchild =>
        hlower child j (rests child j hj hchild)) h
    unfold sweepStep
    split
    · rename_i n hn
      obtain ⟨new, hnew, rfl, -⟩ := eq_of_improveHeight hn
      rw [hnew] at hheight
      rwa [node_set_self hvisited]
    · rename_i hn
      exact heightWithin_of_improveHeight_eq_none hn hheight

include same in
/-- A node with a height is in the arena. -/
theorem Reheighted.mem_ids_of_minHeight (h : (c.node id).minHeight = some k) : id ∈ a.ids := by
  by_contra hid
  rw [mem_ids, same.size, ← mem_ids] at hid
  rw [node_eq_default hid] at h
  cases h

/-- Heights that are between equal ones are equal. -/
theorem minHeight_eq_of_noHigher (hb : c.NoHigher b) (hba : b.NoHigher a)
    (h : (a.node id).minHeight = (c.node id).minHeight) :
    (b.node id).minHeight = (c.node id).minHeight := by
  refine HeightWithin.eq_of_iff fun k => ⟨hb id k, fun hk => hba id k ?_⟩
  rwa [h]

include supported solves same above in
/-- If a sweep brings no node to rest, all are at rest. -/
theorem settled_of_sweep
    (none : ∀ id, ((a.sweep improveHeight).1.node id).minHeight = (c.node id).minHeight →
      (a.node id).minHeight = (c.node id).minHeight) (id : NodeId) :
    (a.node id).minHeight = (c.node id).minHeight := by
  have swept : c.NoHigher (a.sweep improveHeight).1 :=
    (sweep_keeps (keeps_above solves) ⟨same, above⟩).2
  have settled (k : Nat) : ∀ id, (c.node id).minHeight = some k → (a.node id).minHeight = some k := by
    -- the nodes that a node rests on are lower, or behind it
    induction k using Nat.strongRecOn with
    | ind k ih =>
      intro id h
      have founded := supported.founded id (by rw [h]; exact Option.some_ne_none k)
      induction founded with
      | intro id _ ihBehind =>
        rw [← h]
        refine none id (HeightWithin.eq_of_iff fun j => ⟨swept id j, fun hj => ?_⟩)
        refine HeightWithin.mono ?_ (heightWithin_some.mp (h ▸ hj))
        refine heightWithin_sweep solves same (same.mem_ids_of_minHeight h) ?_
          (h ▸ heightWithin_some.mpr le_rfl)
        rintro child j hrests ⟨i, hi, hchild⟩
        rcases hrests with hlt | ⟨rfl, hbehind⟩
        · rw [ih i (hi.trans_lt hlt) child hchild]
          exact heightWithin_some.mpr hi
        · rcases hi.lt_or_eq with hlt | rfl
          · rw [ih i hlt child hchild]
            exact heightWithin_some.mpr hi
          · rw [ihBehind child hbehind hchild]
            exact heightWithin_some.mpr le_rfl
  cases h : (c.node id).minHeight with
  | some k => exact settled k id h
  | none =>
    by_contra hne
    obtain ⟨k, hk⟩ := Option.ne_none_iff_exists'.mp hne
    have hwithin := above id k (hk ▸ heightWithin_some.mpr le_rfl)
    exact hwithin.ne_none h

/-- The nodes that have not come to rest. -/
def unsettled (c a : Arena) : Finset NodeId :=
  c.ids.toFinset.filter fun id => (a.node id).minHeight ≠ (c.node id).minHeight

theorem card_unsettled_le (c a : Arena) : (unsettled c a).card ≤ c.size := by
  refine (Finset.card_filter_le _ _).trans ((List.toFinset_card_le _).trans ?_)
  rw [ids, List.length_map, List.length_range]

include same in
theorem mem_unsettled : id ∈ unsettled c a ↔ (a.node id).minHeight ≠ (c.node id).minHeight := by
  rw [unsettled, Finset.mem_filter, List.mem_toFinset, and_iff_right_iff_imp]
  intro hne
  by_contra hid
  have hout : id ∉ a.ids := by rwa [mem_ids, same.size, ← mem_ids]
  rw [node_eq_default hid, node_eq_default hout] at hne
  exact hne rfl

include supported solves same above in
/-- A sweep brings another node to rest, if not all are. -/
theorem card_unsettled_sweep (some : (unsettled c a).Nonempty) :
    (unsettled c (a.sweep improveHeight).1).card < (unsettled c a).card := by
  obtain ⟨hsame, swept⟩ := sweep_keeps (keeps_above solves) ⟨same, above⟩
  have lower : (a.sweep improveHeight).1.NoHigher a :=
    sweep_keeps (keeps_noHigher a) fun _ _ h => h
  refine Finset.card_lt_card (Finset.ssubset_iff_subset_ne.mpr ⟨fun id hid => ?_, fun heq => ?_⟩)
  · rw [mem_unsettled hsame] at hid
    rw [mem_unsettled same]
    exact fun h => hid (minHeight_eq_of_noHigher swept lower h)
  · obtain ⟨id, hid⟩ := some
    refine (mem_unsettled same).mp hid (settled_of_sweep supported solves same above ?_ id)
    intro other hother
    by_contra hne
    rw [← ne_eq, ← mem_unsettled same, ← heq, mem_unsettled hsame] at hne
    exact hne hother

include solves same above in
/-- A sweep changes nothing when all nodes are at rest. -/
theorem unsettled_of_changed (changed : (a.sweep improveHeight).2 = true) :
    (unsettled c a).Nonempty := by
  by_contra hempty
  rw [Finset.not_nonempty_iff_eq_empty] at hempty
  have settled : a.NoHigher c := by
    intro id k hk
    have hid : id ∉ unsettled c a := by
      rw [hempty]
      exact Finset.notMem_empty id
    rw [mem_unsettled same, not_not] at hid
    rwa [hid]
  have swept : c.NoHigher (a.sweep improveHeight).1 :=
    (sweep_keeps (keeps_above solves) ⟨same, above⟩).2
  have hlt := (sweep_measure (keeps_size a.size) (rises_heightsOf a.size) rfl).1 changed
  exact (OrderDual.toDual_lt_toDual.mp hlt).not_ge
    ((heightsOf_le a.size settled).trans (heightsOf_le a.size swept))

include supported solves same above in
/-- There is a sweep for each node that has not come to rest, and one that changes nothing. -/
theorem settlesAt_settle_of_unsettled {fuel : Nat} (room : (unsettled c a).card < fuel) :
    SettlesAt improveHeight a (settle improveHeight fuel a) := by
  induction fuel generalizing a with
  | zero => exact absurd room (Nat.not_lt_zero _)
  | succ fuel ih =>
    rw [settle_succ]
    cases hchanged : (a.sweep improveHeight).2 with
    | false =>
      rw [if_neg Bool.false_ne_true]
      exact .done hchanged
    | true =>
      obtain ⟨hsame, swept⟩ := sweep_keeps (keeps_above solves) ⟨same, above⟩
      have hfewer := card_unsettled_sweep supported solves same above
        (unsettled_of_changed solves same above hchanged)
      rw [if_pos rfl]
      exact .again hchanged (ih hsame swept (by omega))

end Rest

/-! ## The heights of an arena -/

/-- Solutions agree where members do not stand behind one another for ever. -/
theorem noHigher_of_founded (hb : b.SolvesHeights) (hc : c.SolvesHeights) (same : c.Reheighted b)
    (founded : ∀ id, Acc c.Behind id) : b.NoHigher c := by
  intro id k
  induction k using Nat.strongRecOn generalizing id with
  | ind k ih =>
    induction founded id with
    | intro id _ ihBehind =>
      intro h
      rw [hc id] at h
      rw [hb id, same.height_eq]
      refine heightWithin_height_of_rests (fun child j hrests => ?_) h
      rcases hrests with hlt | ⟨rfl, hbehind⟩
      · exact ih j hlt child
      · exact ihBehind child hbehind

/-- Heights that sweeping ends with, and that are the least solution of their equations. -/
structure LeastHeights (a b : Arena) : Prop where
  settles : SettlesAt improveHeight a b
  solves : b.SolvesHeights
  /-- Where they give a node a height, every solution does, and one that is no higher. -/
  least : ∀ c, a.Reheighted c → c.SolvesHeights → c.NoHigher b
  /-- There is no other solution, unless members stand behind one another in a circle. -/
  only : (∀ id, Acc a.Behind id) → ∀ c, a.Reheighted c → c.SolvesHeights →
    ∀ id, (c.node id).minHeight = (b.node id).minHeight

/-- **Heights are the least solution of their equations.** -/
theorem leastHeights_assignHeights (unheighted : ∀ id, (a.node id).minHeight = none) :
    a.LeastHeights a.assignHeights := by
  obtain ⟨b, hb⟩ := exists_settlesAt a
  obtain ⟨supported, solves, same⟩ := solves_of_settlesAt unheighted hb
  have room : (unsettled b a).card < 2 * a.size + 2 := by
    have hcard := card_unsettled_le b a
    rw [same.size] at hcard
    omega
  have settles : SettlesAt improveHeight a a.assignHeights :=
    settlesAt_settle_of_unsettled supported solves same.symm (noHigher_of_unheighted unheighted) room
  obtain ⟨-, solved, heighted⟩ := solves_of_settlesAt unheighted settles
  have least (c : Arena) (hc : a.Reheighted c) (hsolves : c.SolvesHeights) :
      c.NoHigher a.assignHeights :=
    (settles.keeps (keeps_above hsolves) ⟨hc.symm, noHigher_of_unheighted unheighted⟩).2
  refine ⟨settles, solved, least, fun founded c hc hsolves id => HeightWithin.eq_of_iff fun k =>
    ⟨?_, least c hc hsolves id k⟩⟩
  refine noHigher_of_founded solved hsolves (hc.symm.trans heighted) (fun other => ?_) id k
  rw [hc.behind_eq]
  exact founded other

end Arena

end Typeforge
