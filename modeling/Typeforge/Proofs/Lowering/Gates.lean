/-
# `Typeforge.Proofs.Lowering.Gates` — nodes whose names do not depend on what is kept

The plain tree of a node is the one that nothing kept has a part in: a node is written
out wherever it is met, unless it stands above, and then the tree refers back to it.

A kept text belongs into a plain tree as long as its node reaches nothing that stands
above.  Nodes that stand above and are reached form a cycle with the node.  So let a
cycle have a gate, one node that leads into it from the outside.  On the way to a node
of the cycle the gate is on the stack then, and cannot have been kept before; whereas
a text is kept for a node of the cycle only after the whole of it was met, the gate
too, whose own name refers to nothing above it and is kept.  That is the invariant:
with a text, those of all gates below its node are kept.

A walk from the root therefore names a gate by its plain tree, if all cycles below it
have gates.
-/
import Typeforge.Proofs.Lowering.Causes
import Typeforge.Proofs.Lowering.Isomorphic

namespace Typeforge

namespace Arena

variable {a b : Arena} {f : NodeId → NodeId} {r x e id : NodeId} {stack : List NodeId}

/-! ## Plain trees -/

/-- The tree of a node below a stack of others, references back being to what stands there. -/
inductive Plain (a : Arena) : List NodeId → Spelling → NodeId → Prop where
  | node {stack : List NodeId} {id : NodeId} {kids : List Spelling} (new : id ∉ stack)
      (length : kids.length = (a.node id).children.length)
      (h : ∀ (i : Nat) kid child, kids[i]? = some kid → (a.node id).children[i]? = some child →
        Plain a (id :: stack) kid child) :
      Plain a stack (.node (a.node id).head kids) id
  | back {stack : List NodeId} {id : NodeId} {up : Nat}
      (h : stack.findIdx? (· == id) = some up) : Plain a stack (.back (up + 1)) id

/-- Plain trees of nodes, one by one. -/
structure PlainEach (a : Arena) (stack : List NodeId) (ts : List Spelling) (ids : List NodeId) :
    Prop where
  length : ts.length = ids.length
  plain : ∀ (i : Nat) t id, ts[i]? = some t → ids[i]? = some id → a.Plain stack t id

theorem PlainEach.nil : a.PlainEach stack [] [] := by
  refine ⟨rfl, ?_⟩
  intro i t id hi
  cases hi

theorem PlainEach.cons {t : Spelling} {ts : List Spelling} {ids : List NodeId}
    (head : a.Plain stack t id) (tail : a.PlainEach stack ts ids) :
    a.PlainEach stack (t :: ts) (id :: ids) := by
  refine ⟨congrArg (· + 1) tail.length, ?_⟩
  intro i u child hu hchild
  cases i with
  | zero =>
    obtain rfl := Option.some.inj hu
    obtain rfl := Option.some.inj hchild
    exact head
  | succ i => exact tail.plain i u child hu hchild

namespace Plain

/-- What is on a stack does not matter to a tree as far as it does not refer there. -/
theorem take {t : Spelling} (h : a.Plain stack t id) {levels : Nat} (within : t.Within levels) :
    a.Plain (stack.take levels) t id := by
  induction h generalizing levels with
  | @node stack id kids new length _ ih =>
    cases within with
    | node hkids =>
      refine .node (fun hmem => new (List.take_subset levels stack hmem)) length ?_
      intro i kid child hkid hchild
      exact ih i kid child hkid hchild (hkids kid (List.mem_of_getElem? hkid))
  | @back stack id up h =>
    cases within with
    | back _ hle =>
      refine .back ?_
      rw [List.findIdx?_take, h, Option.bind_some]
      exact Option.guard_eq_some_iff.mpr ⟨rfl, decide_eq_true (Nat.lt_of_succ_le hle)⟩

/-- A tree is that of its node where there is more on the stack, unless the node reaches it. -/
theorem append {t : Spelling} (h : a.Plain stack t id) {more : List NodeId}
    (unreached : ∀ s ∈ more, ¬a.Reaches id s) : a.Plain (stack ++ more) t id := by
  induction h with
  | @node stack id kids new length _ ih =>
    refine .node ?_ length ?_
    · intro hmem
      rcases List.mem_append.mp hmem with hmem | hmem
      · exact new hmem
      · exact unreached id hmem .refl
    · intro i kid child hkid hchild
      have hstep : child ∈ (a.node id).children := List.mem_of_getElem? hchild
      exact ih i kid child hkid hchild fun s hs hreach => unreached s hs (hreach.head hstep)
  | @back stack id up h =>
    refine .back ?_
    rw [List.findIdx?_append, h]
    rfl

/-- A node has one plain tree. -/
theorem unique {t u : Spelling} (h : a.Plain stack t id) (h' : a.Plain stack u id) : t = u := by
  induction h generalizing u with
  | @node stack id kids new length _ ih =>
    cases h' with
    | @node _ _ kids' _ length' h' =>
      refine congrArg (Spelling.node _) (List.ext_getElem (length.trans length'.symm) ?_)
      intro i hi hi'
      have hchild := List.getElem?_eq_getElem (length ▸ hi)
      exact ih i _ _ (List.getElem?_eq_getElem hi) hchild
        (h' i _ _ (List.getElem?_eq_getElem hi') hchild)
    | back h' => exact absurd (List.mem_of_getElem? (getElem?_of_findIdx? h')) new
  | @back stack id up h =>
    cases h' with
    | node new => exact absurd (List.mem_of_getElem? (getElem?_of_findIdx? h)) new
    | back h' => rw [Option.some.inj (h.symm.trans h')]

/-- The plain tree of a node is that of its copy. -/
theorem map {t : Spelling} (h : a.Plain stack t id) (iso : a.Isomorphism b f x)
    (reach : ∀ s ∈ id :: stack, a.Reaches x s) : b.Plain (stack.map f) t (f id) := by
  induction h with
  | @node stack id kids new length _ ih =>
    obtain ⟨hid, hstack⟩ := List.forall_mem_cons.mp reach
    rw [← iso.head id hid]
    refine .node ?_ ?_ ?_
    · rw [← findIdx?_eq_none, iso.findIdx?_map hid hstack]
      exact findIdx?_eq_none.mpr new
    · rw [iso.children id hid, List.length_map]
      exact length
    · intro i kid child hkid hchild
      rw [iso.children id hid, List.getElem?_map] at hchild
      obtain ⟨original, horiginal, rfl⟩ := Option.map_eq_some_iff.mp hchild
      exact ih i kid original hkid horiginal
        (List.forall_mem_cons.mpr ⟨hid.tail (List.mem_of_getElem? horiginal), reach⟩)
  | @back stack id up h =>
    obtain ⟨hid, hstack⟩ := List.forall_mem_cons.mp reach
    refine .back ?_
    rw [iso.findIdx?_map hid hstack]
    exact h

end Plain

/-- No cycle can be reached from a node. -/
def Acyclic (a : Arena) (x : NodeId) : Prop :=
  ∀ z, a.Reaches x z → ∀ child ∈ (a.node z).children, ¬a.Reaches child z

/-- Where there are no cycles, a tree that spells a node is its plain tree. -/
theorem Spells.plain {t : Spelling} (h : a.Spells stack t id) (acyclic : a.Acyclic id)
    (unreached : ∀ s ∈ stack, ¬a.Reaches id s) : a.Plain stack t id := by
  induction h with
  | @node stack id kids length _ ih =>
    refine .node (fun hmem => unreached id hmem .refl) length ?_
    intro i kid child hkid hchild
    have hstep : child ∈ (a.node id).children := List.mem_of_getElem? hchild
    refine ih i kid child hkid hchild (fun z hz => acyclic z (hz.head hstep)) ?_
    exact List.forall_mem_cons.mpr
      ⟨acyclic id .refl child hstep, fun s hs hreach => unreached s hs (hreach.head hstep)⟩
  | @back stack id up h => exact absurd .refl (unreached id (List.mem_of_getElem? h))

theorem length_le_of_headAt {y : NodeId} (heads : ∀ place, a.headAt x place = b.headAt y place) :
    (b.node y).children.length ≤ (a.node x).children.length := by
  by_contra hlt
  have hlast := heads [(a.node x).children.length]
  rw [headAt, headAt, List.getElem?_eq_none le_rfl,
    List.getElem?_eq_getElem (Nat.lt_of_not_le hlt)] at hlast
  cases hlast

/-- Where there are no cycles, nodes that unfold alike are spelled by one tree. -/
theorem Spells.eq_of_headAt {t u : Spelling} {stack' : List NodeId} {y : NodeId}
    (h : a.Spells stack t x) (h' : b.Spells stack' u y) (acyclic : a.Acyclic x)
    (acyclic' : b.Acyclic y) (unreached : ∀ s ∈ stack, ¬a.Reaches x s)
    (unreached' : ∀ s ∈ stack', ¬b.Reaches y s)
    (heads : ∀ place, a.headAt x place = b.headAt y place) : t = u := by
  induction h generalizing u stack' y with
  | @node stack id kids length h ih =>
    cases h' with
    | back h' => exact absurd .refl (unreached' y (List.mem_of_getElem? h'))
    | @node _ _ kids' length' h' =>
      have hlength : (a.node id).children.length = (b.node y).children.length :=
        le_antisymm (length_le_of_headAt fun place => (heads place).symm)
          (length_le_of_headAt heads)
      rw [Option.some.inj (heads [])]
      refine congrArg (Spelling.node _) (List.ext_getElem (by rw [length, hlength, length']) ?_)
      intro i hi hi'
      have hchild := List.getElem?_eq_getElem (length ▸ hi)
      have hchild' := List.getElem?_eq_getElem (length' ▸ hi')
      have hstep := List.mem_of_getElem? hchild
      have hstep' := List.mem_of_getElem? hchild'
      refine ih i _ _ (List.getElem?_eq_getElem hi) hchild
        (h' i _ _ (List.getElem?_eq_getElem hi') hchild') (fun z hz => acyclic z (hz.head hstep))
        (fun z hz => acyclic' z (hz.head hstep')) ?_ ?_ fun place => ?_
      · exact List.forall_mem_cons.mpr ⟨acyclic id .refl _ hstep,
          fun s hs hreach => unreached s hs (hreach.head hstep)⟩
      · exact List.forall_mem_cons.mpr ⟨acyclic' y .refl _ hstep',
          fun s hs hreach => unreached' s hs (hreach.head hstep')⟩
      · have hplace := heads (i :: place)
        rw [headAt, headAt, hchild, hchild'] at hplace
        exact hplace
  | back h => exact absurd .refl (unreached _ (List.mem_of_getElem? h))

/-! ## Gates -/

/-- A gate of the cycles through a node: coming from the root, nobody gets onto them elsewhere. -/
structure Gate (a : Arena) (r e : NodeId) : Prop where
  reached : a.Reaches r e
  root : a.Reaches e r → e = r
  only : ∀ z child, a.Reaches r z → child ∈ (a.node z).children → a.Reaches e child →
    a.Reaches child e → ¬a.Reaches e z → child = e

/-- A node is a gate, and every node that it reaches has a gate. -/
structure Gated (a : Arena) (r x : NodeId) : Prop where
  gate : a.Gate r x
  below : ∀ z, a.Reaches x z → ∃ e, a.Gate r e ∧ a.Reaches e z ∧ a.Reaches z e

/-- A stack is a way from the root to a node. -/
inductive Trail (a : Arena) (r : NodeId) : List NodeId → NodeId → Prop where
  | nil : Trail a r [] r
  | cons {stack : List NodeId} {z child : NodeId} (above : Trail a r stack z)
      (h : child ∈ (a.node z).children) : Trail a r (z :: stack) child

theorem Trail.reaches (trail : a.Trail r stack id) : a.Reaches r id := by
  induction trail with
  | nil => exact .refl
  | cons _ h ih => exact ih.tail h

/-- The way to a node of the stack is part of the stack. -/
theorem Trail.of_mem (trail : a.Trail r stack id) {s : NodeId} (hs : s ∈ stack) :
    a.Reaches s id ∧ ∃ above, a.Trail r above s ∧ s :: above ⊆ stack := by
  induction trail with
  | nil => cases hs
  | @cons stack z child above h ih =>
    rcases List.mem_cons.mp hs with rfl | hs
    · exact ⟨.single h, stack, above, List.Subset.refl _⟩
    · obtain ⟨hreach, above', trail, hsubset⟩ := ih hs
      exact ⟨hreach.tail h, above', trail, List.Subset.trans hsubset (List.subset_cons_self z stack)⟩

/-- On the way to a node stands the gate of its cycles. -/
theorem Gate.mem_trail (gate : a.Gate r e) (trail : a.Trail r stack id) (hout : a.Reaches e id)
    (hback : a.Reaches id e) : e ∈ id :: stack := by
  induction trail with
  | nil => exact List.mem_cons.mpr (.inl (gate.root hout))
  | @cons stack z child above h ih =>
    by_cases hz : a.Reaches e z
    · exact List.mem_cons_of_mem child (ih hz (hback.head h))
    · exact List.mem_cons.mpr (.inl (gate.only z child above.reaches h hout hback hz).symm)

/-- A gate of a node's cycles stands where a node of the stack does that it reaches. -/
theorem Gate.mem_stack (gate : a.Gate r e) (trail : a.Trail r stack id) (hout : a.Reaches e id)
    (hback : a.Reaches id e) {s : NodeId} (hs : s ∈ stack) (hreach : a.Reaches id s) :
    e ∈ stack := by
  obtain ⟨hsid, above, trail', hsubset⟩ := trail.of_mem hs
  exact hsubset (gate.mem_trail trail' (hout.trans hreach) (hsid.trans hback))

/-! ## What is kept -/

/-- What is kept stays. -/
def Persists (kept kept' : Array (Option String)) : Prop :=
  ∀ id text, keptText kept id = some text → keptText kept' id = some text

theorem Persists.set {kept kept' : Array (Option String)} (h : Persists kept kept')
    (hkept : keptText kept id = none) (text : String) :
    Persists kept (kept'.setIfInBounds id.index (some text)) := by
  intro z found hz
  have hne : z ≠ id := by
    rintro rfl
    rw [hkept] at hz
    cases hz
  rw [keptText_set_ne hne]
  exact h z found hz

/-- What is kept below a gated node are the texts of plain trees, and with a text those of the gates
below its node are kept. -/
structure KeepsPlain (a : Arena) (r x : NodeId) (kept : Array (Option String)) : Prop where
  plain : ∀ id text, keptText kept id = some text → a.Reaches x id →
    ∃ t : Spelling, t.text = text ∧ a.Plain [] t id ∧ t.Closed
  gates : ∀ id text, keptText kept id = some text → ∀ e, a.Gate r e → a.Reaches x e →
    a.Reaches id e → (keptText kept e).isSome

theorem keepsPlain_nothing (a : Arena) (r x : NodeId) (size : Nat) :
    a.KeepsPlain r x (Array.replicate size none) := by
  refine ⟨?_, ?_⟩ <;>
  · intro id text h
    rw [keptText_nothing] at h
    cases h

/-- Nodes that were met, as far as no place of the stack is in between: the gates among them are
kept. -/
structure Covers (a : Arena) (r x : NodeId) (places : List NodeId) (kept : Array (Option String))
    (ids : List NodeId) (met : NodeId → Prop) : Prop where
  mem : ∀ id ∈ ids, met id ∨ id ∈ places
  closed : ∀ z, met z → ∀ child ∈ (a.node z).children, met child ∨ child ∈ places
  gates : ∀ e, met e → a.Gate r e → a.Reaches x e → (keptText kept e).isSome

/-- What naming nodes one after the other leaves, whatever they are called. -/
structure Explores (a : Arena) (r x : NodeId) (stack : List NodeId)
    (kept : Array (Option String)) (ids : List NodeId) (lowest : Option Nat)
    (kept' : Array (Option String)) : Prop where
  persists : Persists kept kept'
  unkept : ∀ s ∈ stack, keptText kept' s = none
  keeps : a.KeepsPlain r x kept'
  covers : ∃ met, a.Covers r x (stack.take (levelsTo stack lowest)) kept' ids met
  refers : ∀ place s, lowest = some place → stack.reverse[place]? = some s →
    ∃ id ∈ ids, a.Reaches id s

/-- A node below a gated node is called by its plain tree. -/
def CalledPlainly (a : Arena) (x : NodeId) (stack ids : List NodeId) (texts : List String)
    (lowest : Option Nat) : Prop :=
  (∀ id ∈ ids, a.Reaches x id) → ∃ ts, Spelling.texts ts = texts ∧ a.PlainEach stack ts ids ∧
    ∀ t ∈ ts, t.Within (levelsTo stack lowest)

/-- What naming a node on the way from the root comes to. -/
def NamesPlain (a : Arena) (r x : NodeId) (stack : List NodeId) : Outcome :=
  fun kept id named kept' => a.Trail r stack id → (∀ s ∈ stack, keptText kept s = none) →
    a.KeepsPlain r x kept → a.Explores r x stack kept [id] named.lowest kept' ∧
      a.CalledPlainly x stack [id] [named.text] named.lowest

section

variable {kept kept' : Array (Option String)}

/-- Nodes that are named one after the other. -/
theorem explores_namesEach {ids : List NodeId} {texts : List String} {lowest : Option Nat}
    (h : NamesEach (a.NamesPlain r x stack) kept ids texts lowest kept')
    (trails : ∀ id ∈ ids, a.Trail r stack id) (unkept : ∀ s ∈ stack, keptText kept s = none)
    (keeps : a.KeepsPlain r x kept) :
    a.Explores r x stack kept ids lowest kept' ∧ a.CalledPlainly x stack ids texts lowest := by
  induction h with
  | nil kept =>
    refine ⟨⟨fun _ _ h => h, unkept, keeps, ⟨fun _ => False, ?_, ?_, ?_⟩, ?_⟩, ?_⟩
    · exact List.forall_mem_nil _
    · exact fun _ h => h.elim
    · exact fun _ h => h.elim
    · intro place s h
      cases h
    · exact fun _ => ⟨[], rfl, .nil, List.forall_mem_nil _⟩
  | @cons before between after first rest named texts lowest hfirst _ ih =>
    obtain ⟨trail, trails⟩ := List.forall_mem_cons.mp trails
    obtain ⟨head, called⟩ := hfirst trail unkept keeps
    obtain ⟨tail, calledEach⟩ := ih trails head.unkept head.keeps
    have hlevels := levelsTo_lowerPlace stack named.lowest lowest
    have hplaces := List.take_subset_take_left stack hlevels.1
    have hplaces' := List.take_subset_take_left stack hlevels.2
    refine ⟨⟨?_, tail.unkept, tail.keeps, ?_, ?_⟩, ?_⟩
    · exact fun id text h => tail.persists id text (head.persists id text h)
    · obtain ⟨met, covers⟩ := head.covers
      obtain ⟨met', covers'⟩ := tail.covers
      refine ⟨fun z => met z ∨ met' z, ?_, ?_, ?_⟩
      · refine List.forall_mem_cons.mpr ⟨?_, fun id hid => ?_⟩
        · exact (covers.mem first (List.mem_singleton_self first)).imp .inl fun h => hplaces h
        · exact (covers'.mem id hid).imp .inr fun h => hplaces' h
      · rintro z (hz | hz) child hchild
        · exact (covers.closed z hz child hchild).imp .inl fun h => hplaces h
        · exact (covers'.closed z hz child hchild).imp .inr fun h => hplaces' h
      · rintro e (he | he) gate hreach
        · obtain ⟨text, htext⟩ := Option.isSome_iff_exists.mp (covers.gates e he gate hreach)
          exact Option.isSome_iff_exists.mpr ⟨text, tail.persists e text htext⟩
        · exact covers'.gates e he gate hreach
    · intro place s hplace hs
      -- the lower of two places is one of them
      have hone : named.lowest = some place ∨ lowest = some place := by
        revert hplace
        cases named.lowest <;> cases lowest <;> simp only [lowerPlace] <;> grind
      rcases hone with hone | hone
      · obtain ⟨id, hid, hreach⟩ := head.refers place s hone hs
        exact ⟨id, List.mem_cons.mpr (.inl (List.mem_singleton.mp hid)), hreach⟩
      · obtain ⟨id, hid, hreach⟩ := tail.refers place s hone hs
        exact ⟨id, List.mem_cons_of_mem first hid, hreach⟩
    · intro hids
      obtain ⟨hid, hids⟩ := List.forall_mem_cons.mp hids
      obtain ⟨ts, htexts, plain, within⟩ := called (List.forall_mem_singleton.mpr hid)
      obtain ⟨us, htexts', plain', within'⟩ := calledEach hids
      obtain ⟨t, rfl⟩ := List.length_eq_one_iff.mp plain.length
      refine ⟨t :: us, ?_, .cons (plain.plain 0 t first rfl rfl) plain', ?_⟩
      · rw [Spelling.texts, htexts']
        exact congrArg (· :: texts) (List.head_eq_of_cons_eq htexts)
      · refine List.forall_mem_cons.mpr ⟨?_, fun u hu => (within' u hu).mono hlevels.2⟩
        exact (within t (List.mem_singleton_self t)).mono hlevels.1

/-- A text that is found is that of a plain tree, on every way from the root. -/
theorem namesPlain_found (gated : a.Gated r x) {text : String} (hkept : keptText kept id = some text) :
    a.NamesPlain r x stack kept id ⟨text, none⟩ kept := by
  intro trail unkept keeps
  refine ⟨⟨fun _ _ h => h, unkept, keeps, ⟨a.Reaches id, ?_, ?_, ?_⟩, ?_⟩, ?_⟩
  · exact List.forall_mem_singleton.mpr (.inl .refl)
  · exact fun z hz child hchild => .inl (hz.tail hchild)
  · exact fun e he gate hreach => keeps.gates id text hkept e gate hreach he
  · intro place s h
    cases h
  · intro hids
    have hid := List.forall_mem_singleton.mp hids
    obtain ⟨t, rfl, plain, closed⟩ := keeps.plain id text hkept hid
    refine ⟨[t], rfl, .cons ?_ .nil, List.forall_mem_singleton.mpr closed⟩
    refine plain.append ?_
    -- otherwise the gate of the cycle would stand above, and be kept
    intro s hs hreach
    obtain ⟨e, gate, hout, hback⟩ := gated.below id hid
    have habove := unkept e (gate.mem_stack trail hout hback hs hreach)
    have hsome := keeps.gates id t.text hkept e gate (hid.trans hback) hback
    rw [habove] at hsome
    cases hsome

/-- A node of the stack. -/
theorem namesPlain_back {up : Nat} (hfind : stack.findIdx? (· == id) = some up) :
    a.NamesPlain r x stack kept id ⟨s!"${up + 1}", some (stack.length - (up + 1))⟩ kept := by
  intro trail unkept keeps
  have hup := getElem?_of_findIdx? hfind
  have hlt := (List.getElem?_eq_some_iff.mp hup).1
  have hlevels : levelsTo stack (some (stack.length - (up + 1))) = up + 1 := by
    rw [levelsTo]
    omega
  refine ⟨⟨fun _ _ h => h, unkept, keeps, ⟨fun _ => False, ?_, ?_, ?_⟩, ?_⟩, ?_⟩
  · refine List.forall_mem_singleton.mpr (.inr ?_)
    rw [hlevels]
    refine List.mem_of_getElem? (i := up) ?_
    rw [List.getElem?_take_of_lt (Nat.lt_succ_self up)]
    exact hup
  · exact fun _ h => h.elim
  · exact fun _ h => h.elim
  · intro place s hplace hs
    obtain rfl := Option.some.inj hplace
    rw [List.getElem?_reverse (by omega), show stack.length - 1 - (stack.length - (up + 1)) = up by
      omega, hup] at hs
    exact ⟨id, List.mem_singleton_self id, Option.some.inj hs ▸ .refl⟩
  · intro _
    refine ⟨[.back (up + 1)], rfl, .cons (.back hfind) .nil, List.forall_mem_singleton.mpr ?_⟩
    exact .back (Nat.succ_pos up) hlevels.ge

/-- A gate that is met for the first time refers to nothing above it. -/
theorem levelsTo_gate {lowest : Option Nat} {ids : List NodeId} (gate : a.Gate r id)
    (trail : a.Trail r stack id) (hnew : id ∉ stack)
    (hids : ∀ child ∈ ids, child ∈ (a.node id).children)
    (refers : ∀ place s, lowest = some place → (id :: stack).reverse[place]? = some s →
      ∃ child ∈ ids, a.Reaches child s) : levelsTo stack lowest = 0 := by
  cases hlowest : lowest with
  | none => rfl
  | some place =>
    by_contra hlevels
    have hlt : place < stack.reverse.length := by
      rw [List.length_reverse]
      rw [levelsTo] at hlevels
      omega
    have hs : (id :: stack).reverse[place]? = some stack.reverse[place] := by
      rw [List.reverse_cons, List.getElem?_append_left hlt]
      exact List.getElem?_eq_getElem hlt
    obtain ⟨child, hchild, hreach⟩ := refers place _ hlowest hs
    have hmem : stack.reverse[place] ∈ stack := List.mem_reverse.mp (List.getElem_mem hlt)
    exact hnew (gate.mem_stack trail .refl .refl hmem (hreach.head (hids child hchild)))

/-- All that a node reaches was met, if it refers to nothing above it. -/
theorem Covers.reaches {ids : List NodeId} {met : NodeId → Prop}
    (covers : a.Covers r x [] kept ids met) {z : NodeId} (hz : z ∈ ids) {last : NodeId}
    (hreach : a.Reaches z last) : met last := by
  induction hreach with
  | refl => exact (covers.mem z hz).resolve_right List.not_mem_nil
  | tail _ hchild ih => exact (covers.closed _ ih _ hchild).resolve_right List.not_mem_nil

/-- What is met below a node, and the node itself. -/
theorem Covers.above {lowest : Option Nat} {met : NodeId → Prop}
    (covers : a.Covers r x ((id :: stack).take (levelsTo (id :: stack) lowest)) kept
      (a.node id).children met)
    (persists : Persists kept kept') (hgate : a.Gate r id → (keptText kept' id).isSome) :
    a.Covers r x (stack.take (levelsTo stack lowest)) kept' [id] fun z => z = id ∨ met z := by
  have hplaces {z : NodeId} (hz : z ∈ (id :: stack).take (levelsTo (id :: stack) lowest)) :
      z = id ∨ z ∈ stack.take (levelsTo stack lowest) := by
    have hmem := List.take_subset_take_left _ (levelsTo_cons id stack lowest) hz
    rw [List.take_succ_cons] at hmem
    exact List.mem_cons.mp hmem
  have hchildren {child : NodeId}
      (h : met child ∨ child ∈ (id :: stack).take (levelsTo (id :: stack) lowest)) :
      (child = id ∨ met child) ∨ child ∈ stack.take (levelsTo stack lowest) := by
    rcases h with h | h
    · exact .inl (.inr h)
    · exact (hplaces h).imp_left .inl
  refine ⟨List.forall_mem_singleton.mpr (.inl (.inl rfl)), ?_, ?_⟩
  · rintro z (rfl | hz) child hchild
    · exact hchildren (covers.mem child hchild)
    · exact hchildren (covers.closed z hz child hchild)
  · rintro e (rfl | he) gate hreach
    · exact hgate gate
    · obtain ⟨text, htext⟩ := Option.isSome_iff_exists.mp (covers.gates e he gate hreach)
      exact Option.isSome_iff_exists.mpr ⟨text, persists e text htext⟩

/-- A text is kept that refers to nothing above its node. -/
theorem KeepsPlain.set {text : String} (keeps : a.KeepsPlain r x kept)
    (hkept : keptText kept id = none) (hbounds : id.index < kept.size) {met : NodeId → Prop}
    (covers : a.Covers r x [] (kept.setIfInBounds id.index (some text)) [id] met)
    (htree : a.Reaches x id → ∃ t : Spelling, t.text = text ∧ a.Plain [] t id ∧ t.Closed) :
    a.KeepsPlain r x (kept.setIfInBounds id.index (some text)) := by
  have persists : Persists kept (kept.setIfInBounds id.index (some text)) :=
    Persists.set (fun _ _ h => h) hkept text
  refine ⟨?_, ?_⟩
  · intro z found hz hreach
    by_cases heq : z = id
    · subst heq
      rw [keptText_set_self hbounds] at hz
      cases hz
      exact htree hreach
    · rw [keptText_set_ne heq] at hz
      exact keeps.plain z found hz hreach
  · intro z found hz e gate hxe hze
    by_cases heq : z = id
    · subst heq
      exact covers.gates e (covers.reaches (List.mem_singleton_self z) hze) gate hxe
    · rw [keptText_set_ne heq] at hz
      obtain ⟨text', htext'⟩ :=
        Option.isSome_iff_exists.mp (keeps.gates z found hz e gate hxe hze)
      exact Option.isSome_iff_exists.mpr ⟨text', persists e text' htext'⟩

/-- A node that is met for the first time. -/
theorem namesPlain_new {texts : List String} {lowest : Option Nat}
    (hkept : keptText kept id = none) (hnew : id ∉ stack) (hbounds : id.index < kept'.size)
    (each : NamesEach (a.NamesPlain r x (id :: stack)) kept (a.node id).children texts lowest
      kept') :
    a.NamesPlain r x stack kept id ⟨(a.node id).describe texts, lowest⟩
      (if levelsTo stack lowest = 0
        then kept'.setIfInBounds id.index (some ((a.node id).describe texts)) else kept') := by
  intro trail unkept keeps
  obtain ⟨below, called⟩ := explores_namesEach each (fun child hchild => trail.cons hchild)
    (List.forall_mem_cons.mpr ⟨hkept, unkept⟩) keeps
  obtain ⟨hkept', unkept'⟩ := List.forall_mem_cons.mp below.unkept
  have htree (hid : a.Reaches x id) : ∃ t : Spelling, t.text = (a.node id).describe texts ∧
      a.Plain stack t id ∧ t.Within (levelsTo stack lowest) := by
    obtain ⟨ts, htexts, plain, within⟩ := called fun child hchild => hid.tail hchild
    refine ⟨.node (a.node id).head ts, ?_, .node hnew plain.length plain.plain, ?_⟩
    · rw [Spelling.text, htexts, Node.describe_eq]
    · exact .node fun kid hkid => (within kid hkid).mono (levelsTo_cons id stack lowest)
  have hcalled : a.CalledPlainly x stack [id] [(a.node id).describe texts] lowest := by
    intro hids
    obtain ⟨t, htext, plain, within⟩ := htree (List.forall_mem_singleton.mp hids)
    exact ⟨[t], congrArg (fun text => [text]) htext, .cons plain .nil,
      List.forall_mem_singleton.mpr within⟩
  have hrefers (place : Nat) (s : NodeId) (hplace : lowest = some place)
      (hs : stack.reverse[place]? = some s) : ∃ z ∈ [id], a.Reaches z s := by
    have hs' : (id :: stack).reverse[place]? = some s := by
      rw [List.reverse_cons, List.getElem?_append_left (List.getElem?_eq_some_iff.mp hs).1]
      exact hs
    obtain ⟨child, hchild, hreach⟩ := below.refers place s hplace hs'
    exact ⟨id, List.mem_singleton_self id, hreach.head hchild⟩
  have hgate (gate : a.Gate r id) : levelsTo stack lowest = 0 :=
    levelsTo_gate gate trail hnew (fun child h => h) below.refers
  obtain ⟨met, covers⟩ := below.covers
  by_cases hlevels : levelsTo stack lowest = 0
  · rw [if_pos hlevels]
    have persists : Persists kept' (kept'.setIfInBounds id.index
        (some ((a.node id).describe texts))) := Persists.set (fun _ _ h => h) hkept' _
    have covers' := covers.above persists fun _ => by rw [keptText_set_self hbounds]; rfl
    refine ⟨⟨below.persists.set hkept _, ?_, ?_, ⟨_, covers'⟩, hrefers⟩, hcalled⟩
    · intro s hs
      rw [keptText_set_ne (ne_of_mem_of_not_mem hs hnew)]
      exact unkept' s hs
    · rw [hlevels, List.take_zero] at covers'
      refine below.keeps.set hkept' hbounds covers' fun hid => ?_
      obtain ⟨t, htext, plain, within⟩ := htree hid
      rw [hlevels] at within
      have plain := plain.take within
      rw [List.take_zero] at plain
      exact ⟨t, htext, plain, within⟩
  · rw [if_neg hlevels]
    exact ⟨⟨below.persists, unkept', below.keeps,
      ⟨_, covers.above (fun _ _ h => h) fun gate => absurd (hgate gate) hlevels⟩, hrefers⟩, hcalled⟩

end

/-! ## From the root -/

theorem persists_namesEach {spec : Outcome}
    (h : ∀ kept id named kept', spec kept id named kept' → Persists kept kept')
    {kept kept' : Array (Option String)} {ids : List NodeId} {texts : List String}
    {lowest : Option Nat} (each : NamesEach spec kept ids texts lowest kept') :
    Persists kept kept' := by
  induction each with
  | nil => exact fun _ _ h => h
  | cons head _ ih => exact fun id text hkept => ih id text (h _ _ _ _ head id text hkept)

section

variable (closed : ∀ id, ∀ child ∈ (a.node id).children, child ∈ a.ids)

include closed

/-- What naming the root comes to when nothing is kept. -/
theorem namesPlain_root (hr : r ∈ a.ids) (gated : a.Gated r x) :
    a.Explores r x [] (Array.replicate a.size none) [r]
        ((a.nameNode (a.size + 1) [] r).run (Array.replicate a.size none)).1.lowest
        ((a.nameNode (a.size + 1) [] r).run (Array.replicate a.size none)).2 ∧
      a.CalledPlainly x [] [r]
        [((a.nameNode (a.size + 1) [] r).run (Array.replicate a.size none)).1.text]
        ((a.nameNode (a.size + 1) [] r).run (Array.replicate a.size none)).1.lowest := by
  have hsize : (Array.replicate a.size (none : Option String)).size = a.size := Array.size_replicate
  have names := nameNode_rule closed (a.NamesPlain r x)
    (fun _ _ _ _ hkept => namesPlain_found gated hkept)
    (fun _ _ _ _ _ hfind => namesPlain_back hfind)
    (fun _ _ _ _ _ _ hkept hnew hbounds each => namesPlain_new hkept hnew hbounds each)
    hr List.nodup_nil (List.nil_subset _) (Nat.zero_add _) hsize
  exact names.1 .nil (List.forall_mem_nil _) (keepsPlain_nothing a r x a.size)

/-- Naming the root first keeps the plain trees of gated nodes. -/
theorem keptText_of_gated (hr : r ∈ a.ids) (gated : a.Gated r x) :
    ∃ t : Spelling, a.Plain [] t x ∧ keptText
      ((a.nameNode (a.size + 1) [] r).run (Array.replicate a.size none)).2 x = some t.text := by
  obtain ⟨explores, -⟩ := namesPlain_root closed hr gated
  obtain ⟨met, covers⟩ := explores.covers
  rw [List.take_nil] at covers
  have hmet := covers.reaches (List.mem_singleton_self r) gated.gate.reached
  obtain ⟨text, htext⟩ := Option.isSome_iff_exists.mp (covers.gates x hmet gated.gate .refl)
  obtain ⟨t, rfl, plain, -⟩ := explores.keeps.plain x text htext .refl
  exact ⟨t, plain, htext⟩

/-- A gated root is called by its plain tree. -/
theorem text_of_gated (hr : r ∈ a.ids) (gated : a.Gated r r) :
    ∃ t : Spelling, a.Plain [] t r ∧
      ((a.nameNode (a.size + 1) [] r).run (Array.replicate a.size none)).1.text = t.text := by
  obtain ⟨-, called⟩ := namesPlain_root closed hr gated
  obtain ⟨ts, htexts, plain, -⟩ := called (List.forall_mem_singleton.mpr .refl)
  obtain ⟨t, rfl⟩ := List.length_eq_one_iff.mp plain.length
  exact ⟨t, plain.plain 0 t r rfl rfl, (List.head_eq_of_cons_eq htexts).symm⟩

/-- Whatever is named, what is kept stays. -/
theorem persists_nameNode (hid : id ∈ a.ids) {kept : Array (Option String)}
    (hsize : kept.size = a.size) :
    Persists kept ((a.nameNode (a.size + 1) [] id).run kept).2 ∧
      ((a.nameNode (a.size + 1) [] id).run kept).2.size = a.size := by
  refine nameNode_rule closed (fun _ kept _ _ kept' => Persists kept kept')
    (fun _ _ _ _ _ _ _ h => h) (fun _ _ _ _ _ _ _ _ h => h) ?_ hid List.nodup_nil
    (List.nil_subset _) (Nat.zero_add _) hsize
  intro stack kept id texts lowest kept' hkept _ _ each
  have persists := persists_namesEach (fun _ _ _ _ h => h) each
  split
  · exact persists.set hkept _
  · exact persists

/-- A node that a text is kept for is called by it. -/
theorem nameRoots_of_kept {order : List NodeId} (inside : ∀ id ∈ order, id ∈ a.ids)
    {kept : Array (Option String)} (hsize : kept.size = a.size) {text : String}
    (hkept : keptText kept x = some text) {i : Nat} (hi : order[i]? = some x) :
    ((a.nameRoots order).run kept).1[i]? = some text := by
  induction order generalizing kept i with
  | nil => cases hi
  | cons id order ih =>
    obtain ⟨hid, inside⟩ := List.forall_mem_cons.mp inside
    obtain ⟨persists, hsize'⟩ := persists_nameNode closed hid hsize
    rw [nameRoots, List.mapM_cons]
    cases i with
    | zero =>
      obtain rfl := Option.some.inj hi
      have hrun := run_nameNode_of_kept (a := a) a.size [] hkept
      exact congrArg (fun run => some run.1.text) hrun
    | succ i => exact ih inside hsize' (persists x text hkept) hi

end

end Arena

end Typeforge
