/-
# `Typeforge.Proofs.Lowering.Spelling` — what identities say

An identity is the text of a finite tree.  Its leaves may refer back, so many levels
up in the tree, and a reference back stands for all that is below the node it refers
to: read like that, without end, the tree of a node's identity says at every place
what the arena has there.

A node is named below those that are being named, the stack.  Its tree may refer to
places of the stack; the lowest of these is handed on with the text.  A text is kept
only if its tree refers to no place of the stack, and then it means the same wherever
it is used again, whatever the stack is by then.  That is the invariant: the trees of
kept texts are closed.  On the stack every node is met once, so that the bound of the
walk is never what ends it.

`Arena.spelled_of_lower` has no hypotheses but that the arena was lowered: it is about
what a text says, not about whether another tree has the same text.
-/
import Typeforge.Proofs.Lowering.Merging
import Typeforge.Proofs.Lowering.Naming
import Typeforge.Proofs.Samples

namespace Typeforge

/-! ## Trees with references back -/

/-- What a text says of a node, apart from its children: its kind, with the names and signs that are
written. -/
inductive Head where
  | atom (x : Atom)
  | array
  | property (name : String) (optional : Bool)
  | tupleMember (optional : Bool)
  | indexSignature (filter : KeyFilter)
  | rest
  | parameter (many optional : Bool)
  | promise
  | object (className : Option String)
  | tuple
  | union
  | function (form : FunctionForm)

def Node.head (n : Node) : Head :=
  match n.shape with
  | .atom x => .atom x
  | .array _ => .array
  | .property name _ => .property name n.optional
  | .tupleMember _ => .tupleMember n.optional
  | .indexSignature filter _ => .indexSignature filter
  | .rest _ => .rest
  | .parameter _ _ many => .parameter many n.optional
  | .promise _ => .promise
  | .object _ _ className => .object className
  | .tuple _ => .tuple
  | .union _ => .union
  | .function f => .function f.form

/-- The text of a node that says so, given those of its children. -/
def Head.describe (h : Head) (kids : List String) : String :=
  let one := kids.headD ""
  let sign (optional : Bool) := if optional then "?" else ""
  match h with
  | atom (.literal value) => "lit:" ++ value.text
  | atom (.enumeration members) =>
    "enum<" ++ ",".intercalate (members.map fun m => m.2.text) ++ ">"
  | atom x => x.name
  | array => "array<" ++ one ++ ">"
  | property name optional => keyText name ++ sign optional ++ ":" ++ one
  | tupleMember optional => one ++ sign optional
  | indexSignature filter => "[" ++ filter.name ++ "]:" ++ one
  | rest => "..." ++ one
  | parameter many optional => if many then "..." ++ one else one ++ sign optional
  | promise => "promise<" ++ one ++ ">"
  | object (some className) => "class " ++ className ++ "\x7b" ++ ",".intercalate kids ++ "\x7d"
  | object none => "\x7b" ++ ",".intercalate kids ++ "\x7d"
  | tuple => "[" ++ ",".intercalate kids ++ "]"
  | union => "union<" ++ "|".intercalate kids ++ ">"
  | function form => form.name ++ "(" ++ ",".intercalate kids.dropLast ++ ")=>" ++ kids.getLastD ""

theorem Node.describe_eq (n : Node) (kids : List String) :
    n.describe kids = n.head.describe kids := by
  unfold describe head
  cases hshape : n.shape with
  | atom x => cases x <;> rfl
  | object props index className => cases className <;> rfl
  | _ => rfl

/-- A tree of such nodes, with leaves that refer back to a node so many levels up. -/
inductive Spelling where
  | node (head : Head) (kids : List Spelling)
  | back (levels : Nat)

namespace Spelling

mutual

def text : Spelling → String
  | node head kids => head.describe (texts kids)
  | back levels => s!"${levels}"

def texts : List Spelling → List String
  | [] => []
  | t :: rest => t.text :: texts rest

end

/-- All references back lead to a node of the tree, or to one of so many levels above it. -/
inductive Within : Nat → Spelling → Prop where
  | node {levels head kids} (h : ∀ kid ∈ kids, Within (levels + 1) kid) :
      Within levels (.node head kids)
  | back {levels up} (pos : 0 < up) (h : up ≤ levels) : Within levels (.back up)

theorem Within.mono {levels more : Nat} {t : Spelling} (h : Within levels t) (hle : levels ≤ more) :
    Within more t := by
  induction h generalizing more with
  | node _ ih => exact .node fun kid hkid => ih kid hkid (Nat.succ_le_succ hle)
  | back pos h => exact .back pos (h.trans hle)

/-- All references back lead to a node of the tree. -/
abbrev Closed (t : Spelling) : Prop := Within 0 t

/-- The node that stands at the root of a tree, or that a reference back refers to, among those
above the tree, the innermost first: what is above it, what it says, and what is below it. -/
def root (above : List Spelling) : Spelling → Option (List Spelling × Head × List Spelling)
  | node head kids => some (above, head, kids)
  | back 0 => none
  | back (up + 1) =>
    match above.drop up with
    | node head kids :: above => some (above, head, kids)
    | _ => none

/-- What a tree says at a place below it, references back standing for what they refer to. -/
def headAt (above : List Spelling) (t : Spelling) (place : List Nat) : Option Head :=
  (t.root above).bind fun (above, head, kids) =>
    match place with
    | [] => some head
    | i :: place => kids[i]?.bind fun kid => headAt (node head kids :: above) kid place

end Spelling

namespace Arena

variable {a b : Arena} {id : NodeId} {stack : List NodeId}

/-- What the arena has at a place below a node. -/
def headAt (a : Arena) (id : NodeId) : List Nat → Option Head
  | [] => some (a.node id).head
  | i :: place => (a.node id).children[i]?.bind fun child => a.headAt child place

/-- A text is that of a tree in which all references back lead to nodes of the tree, and which says
what the arena has below a node, at every place. -/
def Spelled (a : Arena) (id : NodeId) (text : String) : Prop :=
  ∃ t : Spelling, t.text = text ∧ t.Closed ∧ ∀ place, t.headAt [] place = a.headAt id place

theorem Alike.headAt (alike : a.Alike b) (id : NodeId) (place : List Nat) :
    a.headAt id place = b.headAt id place := by
  induction place generalizing id with
  | nil => simp only [Arena.headAt, Node.head, alike.shape, alike.optional]
  | cons i place ih => simp only [Arena.headAt, Node.children, alike.shape, ih]

/-- A tree spells a node below a stack of others: its references back are to these, or to nodes on
the way to them. -/
inductive Spells (a : Arena) : List NodeId → Spelling → NodeId → Prop where
  | node {stack id kids} (length : kids.length = (a.node id).children.length)
      (h : ∀ (i : Nat) kid child, kids[i]? = some kid → (a.node id).children[i]? = some child →
        Spells a (id :: stack) kid child) :
      Spells a stack (.node (a.node id).head kids) id
  | back {stack id up} (h : stack[up]? = some id) : Spells a stack (.back (up + 1)) id

/-- What is on a stack does not matter to a tree as far as it does not refer there. -/
theorem Spells.take {t : Spelling} (h : a.Spells stack t id) {levels : Nat}
    (within : t.Within levels) : a.Spells (stack.take levels) t id := by
  induction h generalizing levels with
  | node length _ ih =>
    cases within with
    | node hkids =>
      refine .node length fun i kid child hkid hchild => ?_
      exact ih i kid child hkid hchild (hkids kid (List.mem_of_getElem? hkid))
  | @back stack id up h =>
    cases within with
    | back _ hle =>
      refine .back ?_
      rw [List.getElem?_take_of_lt (Nat.lt_of_succ_le hle)]
      exact h

/-- A tree goes on to spell a node where there is more on the stack. -/
theorem Spells.append {t : Spelling} (h : a.Spells stack t id) (more : List NodeId) :
    a.Spells (stack ++ more) t id := by
  induction h with
  | node length _ ih => exact .node length fun i kid child => ih i kid child
  | back h =>
    refine .back ?_
    rw [List.getElem?_append_left (List.getElem?_eq_some_iff.mp h).1]
    exact h

/-- Trees spell nodes, one by one. -/
structure SpellsEach (a : Arena) (stack : List NodeId) (ts : List Spelling) (ids : List NodeId) :
    Prop where
  length : ts.length = ids.length
  spells : ∀ (i : Nat) t id, ts[i]? = some t → ids[i]? = some id → a.Spells stack t id

/-! ## Reading a tree -/

/-- The trees above a tree spell the nodes on the stack. -/
inductive Above (a : Arena) : List Spelling → List NodeId → Prop where
  | nil : Above a [] []
  | cons {above stack id kids} (below : a.SpellsEach (id :: stack) kids (a.node id).children)
      (rest : Above a above stack) : Above a (.node (a.node id).head kids :: above) (id :: stack)

/-- The tree in some place above spells the node in that place of the stack. -/
theorem Above.drop {above : List Spelling} (h : a.Above above stack) {up : Nat}
    (hup : stack[up]? = some id) : ∃ kids above' stack',
      above.drop up = .node (a.node id).head kids :: above' ∧
      a.SpellsEach (id :: stack') kids (a.node id).children ∧ a.Above above' stack' := by
  induction h generalizing up with
  | nil => cases hup
  | @cons above stack other kids below rest ih =>
    cases up with
    | zero =>
      obtain rfl := Option.some.inj hup
      exact ⟨kids, above, stack, rfl, below, rest⟩
    | succ up => exact ih hup

/-- The root of a tree says what its node says, and what is below it spells the node's children. -/
theorem Spells.root {above : List Spelling} (chain : a.Above above stack) {t : Spelling}
    (h : a.Spells stack t id) : ∃ kids above' stack',
      t.root above = some (above', (a.node id).head, kids) ∧
      a.SpellsEach (id :: stack') kids (a.node id).children ∧ a.Above above' stack' := by
  cases h with
  | @node _ _ kids length h => exact ⟨kids, above, stack, rfl, ⟨length, h⟩, chain⟩
  | back h =>
    obtain ⟨kids, above', stack', hdrop, below, chain'⟩ := chain.drop h
    refine ⟨kids, above', stack', ?_, below, chain'⟩
    simp only [Spelling.root, hdrop]

/-- **A tree that spells a node says what the arena has below the node**, at every place. -/
theorem Spells.headAt_eq {above : List Spelling} (chain : a.Above above stack) {t : Spelling}
    (h : a.Spells stack t id) (place : List Nat) : t.headAt above place = a.headAt id place := by
  induction place generalizing above stack t id with
  | nil =>
    obtain ⟨kids, above', stack', hroot, -, -⟩ := h.root chain
    simp only [Spelling.headAt, hroot, Option.bind_some, headAt]
  | cons i place ih =>
    obtain ⟨kids, above', stack', hroot, below, chain'⟩ := h.root chain
    rw [Spelling.headAt, hroot, Option.bind_some, headAt]
    dsimp only
    cases hkid : kids[i]? with
    | none =>
      have hchild : (a.node id).children[i]? = none := by
        rw [List.getElem?_eq_none_iff] at hkid ⊢
        exact below.length ▸ hkid
      rw [hchild]
      rfl
    | some kid =>
      obtain ⟨child, hchild⟩ : ∃ child, (a.node id).children[i]? = some child :=
        ⟨_, List.getElem?_eq_getElem (below.length ▸ (List.getElem?_eq_some_iff.mp hkid).1)⟩
      rw [hchild]
      exact ih (.cons below chain') (below.spells i kid child hkid hchild)

/-! ## Naming -/

/-- Kept texts are those of closed trees that spell their nodes, whatever they stand below. -/
def KeepsSpelled (a : Arena) (kept : Array (Option String)) : Prop :=
  ∀ id text, keptText kept id = some text →
    ∃ t : Spelling, t.text = text ∧ a.Spells [] t id ∧ t.Closed

theorem keepsSpelled_nothing (a : Arena) (size : Nat) :
    a.KeepsSpelled (Array.replicate size none) := by
  intro id text h
  rw [keptText_nothing] at h
  cases h

theorem KeepsSpelled.set {kept : Array (Option String)} (keeps : a.KeepsSpelled kept)
    (hid : id.index < kept.size) {t : Spelling} {text : String} (htext : t.text = text)
    (spells : a.Spells [] t id) (closed : t.Closed) :
    a.KeepsSpelled (kept.setIfInBounds id.index (some text)) := by
  intro other found h
  by_cases hother : other = id
  · subst hother
    rw [keptText_set_self hid] at h
    cases h
    exact ⟨t, htext, spells, closed⟩
  · rw [keptText_set_ne hother] at h
    exact keeps other found h

/-- What naming a node below a stack comes to: the text of a tree that spells the node and refers to
no lower place than is handed on. -/
structure Names (a : Arena) (stack : List NodeId) (id : NodeId) (named : Named) (t : Spelling) :
    Prop where
  text : t.text = named.text
  spells : a.Spells stack t id
  within : t.Within (levelsTo stack named.lowest)

/-- Naming a node spells it and keeps right what is kept. -/
def NamesSpelled (a : Arena) (stack : List NodeId) : Outcome := fun kept id named kept' =>
  a.KeepsSpelled kept → (∃ t, a.Names stack id named t) ∧ a.KeepsSpelled kept'

/-- Nodes that are named one after the other. -/
theorem spelled_namesEach {kept kept' : Array (Option String)} {ids : List NodeId}
    {texts : List String} {lowest : Option Nat}
    (h : NamesEach (a.NamesSpelled stack) kept ids texts lowest kept')
    (keeps : a.KeepsSpelled kept) :
    (∃ ts : List Spelling, Spelling.texts ts = texts ∧ a.SpellsEach stack ts ids ∧
      ∀ t ∈ ts, t.Within (levelsTo stack lowest)) ∧ a.KeepsSpelled kept' := by
  induction h with
  | nil => exact ⟨⟨[], rfl, ⟨rfl, fun i t id hi => by simp at hi⟩, fun t ht => by cases ht⟩, keeps⟩
  | @cons before between after first rest named texts lowest hfirst _ ih =>
    obtain ⟨⟨t, names⟩, keeps'⟩ := hfirst keeps
    obtain ⟨⟨ts, texts, each, within⟩, keeps''⟩ := ih keeps'
    have hlowest := levelsTo_lowerPlace stack named.lowest lowest
    refine ⟨⟨t :: ts, ?_, ⟨congrArg (· + 1) each.length, fun i u child hu hchild => ?_⟩, ?_⟩,
      keeps''⟩
    · exact congrArg₂ List.cons names.text texts
    · cases i with
      | zero =>
        obtain rfl := Option.some.inj hu
        obtain rfl := Option.some.inj hchild
        exact names.spells
      | succ i => exact each.spells i u child hu hchild
    · exact List.forall_mem_cons.mpr ⟨names.within.mono hlowest.1,
        fun u hu => (within u hu).mono hlowest.2⟩

/-- **Naming a node of the arena spells it**, on every stack of nodes that all differ. -/
theorem namesSpelled_nameNode (closed : ∀ id, ∀ child ∈ (a.node id).children, child ∈ a.ids)
    {fuel : Nat} (hid : id ∈ a.ids) (nodup : stack.Nodup) (inside : stack ⊆ a.ids)
    (room : stack.length + fuel = a.size + 1) {kept : Array (Option String)}
    (hsize : kept.size = a.size) :
    a.NamesSpelled stack kept id ((a.nameNode fuel stack id).run kept).1
        ((a.nameNode fuel stack id).run kept).2 ∧
      ((a.nameNode fuel stack id).run kept).2.size = a.size := by
  refine nameNode_rule closed a.NamesSpelled ?_ ?_ ?_ hid nodup inside room hsize
  · -- a text that is found is kept for a tree that means the same on any stack
    intro stack kept id text hkept keeps
    obtain ⟨t, rfl, spells, closed⟩ := keeps id text hkept
    exact ⟨⟨t, rfl, spells.append stack, closed⟩, keeps⟩
  · intro stack kept id up _ hfind keeps
    have hup := getElem?_of_findIdx? hfind
    have hlt := (List.getElem?_eq_some_iff.mp hup).1
    refine ⟨⟨.back (up + 1), rfl, .back hup, .back (Nat.succ_pos up) ?_⟩, keeps⟩
    rw [levelsTo]
    omega
  · intro stack kept id texts lowest kept' _ _ hbounds each keeps
    obtain ⟨⟨ts, htexts, each, within⟩, keeps'⟩ := spelled_namesEach each keeps
    have names : a.Names stack id ⟨(a.node id).describe texts, lowest⟩
        (.node (a.node id).head ts) :=
      ⟨by rw [Spelling.text, htexts, Node.describe_eq], .node each.length each.spells,
        .node fun kid hkid => (within kid hkid).mono (levelsTo_cons id stack lowest)⟩
    refine ⟨⟨_, names⟩, ?_⟩
    by_cases hclosed : levelsTo stack lowest = 0
    · have within := names.within
      rw [hclosed] at within
      have spells := names.spells.take within
      rw [List.take_zero] at spells
      rw [if_pos hclosed]
      exact keeps'.set hbounds names.text spells within
    · rw [if_neg hclosed]
      exact keeps'

/-! ## Identities -/

/-- The names of nodes, each as the root of its own structure, one after the other. -/
def nameRoots (a : Arena) (order : List NodeId) : Naming (List String) :=
  order.mapM fun id => do
    let named ← a.nameNode (a.size + 1) [] id
    pure named.text

/-- A text is that of a closed tree that spells a node. -/
def SpelledOut (a : Arena) (id : NodeId) (text : String) : Prop :=
  ∃ t : Spelling, t.text = text ∧ t.Closed ∧ a.Spells [] t id

theorem SpelledOut.spelled {text : String} (h : a.SpelledOut id text) : a.Spelled id text := by
  obtain ⟨t, htext, closed, spells⟩ := h
  exact ⟨t, htext, closed, spells.headAt_eq .nil⟩

/-- A node's name spells it whatever was named before. -/
theorem spelledOut_nameRoots (closed : ∀ id, ∀ child ∈ (a.node id).children, child ∈ a.ids)
    {order : List NodeId} (inside : ∀ id ∈ order, id ∈ a.ids) {kept : Array (Option String)}
    (hsize : kept.size = a.size) (keeps : a.KeepsSpelled kept) :
    List.Forall₂ a.SpelledOut order ((a.nameRoots order).run kept).1 := by
  induction order generalizing kept with
  | nil => exact .nil
  | cons id order ih =>
    obtain ⟨hid, inside⟩ := List.forall_mem_cons.mp inside
    obtain ⟨spelled, hsize'⟩ := namesSpelled_nameNode closed hid List.nodup_nil
      (List.nil_subset _) (Nat.zero_add _) hsize
    obtain ⟨⟨t, names⟩, keeps'⟩ := spelled keeps
    have within := names.within
    rw [levelsTo_nil] at within
    have hrest := ih inside hsize' keeps'
    rw [nameRoots, List.mapM_cons]
    exact .cons ⟨t, names.text, within, names.spells⟩ hrest

theorem getElem?_ids (hid : id ∈ a.ids) : a.ids[id.index]? = some id := by
  rw [ids, List.getElem?_map, List.getElem?_range (mem_ids.mp hid)]
  rfl

theorem getElem?_identities (id : NodeId) (hid : id ∈ a.ids) :
    a.identities[id.index]? = some (a.assignIdentities.node id).identity := by
  rw [mem_ids] at hid
  have hnode : a.nodes[id.index]? = some a.nodes[id.index] := Array.getElem?_eq_getElem hid
  obtain ⟨text, htext⟩ : ∃ text, a.identities[id.index]? = some text :=
    ⟨_, List.getElem?_eq_getElem (by rw [length_identities]; exact hid)⟩
  have hnamed : a.assignIdentities.nodes[id.index]? =
      some { a.nodes[id.index] with identity := text } := by
    rw [assignIdentities, List.getElem?_toArray, List.getElem?_map,
      (List.getElem?_zip_eq_some (z := (a.nodes[id.index], text))).mpr
        ⟨Array.getElem?_toList.trans hnode, htext⟩]
    rfl
  rw [htext, node, Array.getD_eq_getD_getElem?, hnamed]
  rfl

/-- The identities that nodes are given spell them. -/
theorem spelledOut_assignIdentities (closed : ∀ id, ∀ child ∈ (a.node id).children, child ∈ a.ids)
    (hid : id ∈ a.ids) : a.SpelledOut id (a.assignIdentities.node id).identity := by
  have each := spelledOut_nameRoots closed (fun _ h => h) Array.size_replicate
    (keepsSpelled_nothing a a.size)
  obtain ⟨hi, hid'⟩ := List.getElem?_eq_some_iff.mp (getElem?_ids hid)
  obtain ⟨hj, hname⟩ := List.getElem?_eq_some_iff.mp (getElem?_identities id hid)
  have spelled := each.get hi hj
  rw [List.get_eq_getElem, hid', List.get_eq_getElem] at spelled
  exact hname ▸ spelled

theorem Spelled.of_alike (alike : a.Alike b) {text : String} (h : a.Spelled id text) :
    b.Spelled id text := by
  obtain ⟨t, htext, closed, heads⟩ := h
  exact ⟨t, htext, closed, fun place => (heads place).trans (alike.headAt id place)⟩

theorem eq_of_mergeIndex {object candidate : NodeId} {c : Arena}
    (h : a.mergeIndex object candidate = .ok (c, false)) : c = a := by
  unfold mergeIndex at h
  grind

/-- Where no object goes on with another index signature, all is as before. -/
theorem eq_of_mergeIndexes {aside : List (NodeId × NodeId)} {changed : Bool} {c : Arena}
    (h : a.mergeIndexes changed aside = .ok (c, false)) : changed = false ∧ c = a := by
  induction aside generalizing a changed with
  | nil =>
    cases h
    exact ⟨rfl, rfl⟩
  | cons x rest ih =>
    rw [mergeIndexes] at h
    obtain ⟨⟨b, merged⟩, hfirst, hrest⟩ := Except.bind_eq_ok.mp h
    obtain ⟨hchanged, rfl⟩ := ih hrest
    obtain ⟨rfl, rfl⟩ := Bool.or_eq_false_iff.mp hchanged
    exact ⟨rfl, eq_of_mergeIndex hfirst⟩

/-- The identities of a lowered arena were given to an arena that differs from it in facts only. -/
theorem exists_named_of_lower {g : TypeGraph} {root : TypeId} {maxDepth : Nat}
    (h : lower g root maxDepth = .ok a) : ∃ b : Arena, a.Alike b ∧
      ∀ id, (a.node id).identity = (b.assignIdentities.node id).identity := by
  obtain ⟨⟨root', walked⟩, -, h⟩ := Except.bind_eq_ok.mp h
  dsimp only at h
  obtain ⟨⟨c, merged⟩, hmerge, h⟩ := Except.bind_eq_ok.mp h
  have named (b : Arena) (hb : b.assignIdentities.markShared.assignHeights = a) :
      ∃ b : Arena, a.Alike b ∧
        ∀ id, (a.node id).identity = (b.assignIdentities.node id).identity := by
    subst hb
    refine ⟨b, ?_, fun id => ?_⟩
    · exact (((sameMarks_assignIdentities b).trans (sameMarks_markShared _)).trans
        (sameMarks_assignHeights _)).alike.symm
    · rw [field_assignHeights Node.identity (fun _ _ => rfl),
        field_markShared Node.identity (fun _ _ => rfl)]
  cases merged with
  | true =>
    cases h
    exact named c rfl
  | false =>
    obtain ⟨-, rfl⟩ := eq_of_mergeIndexes hmerge
    cases h
    exact named _ rfl

/-- **The identities of a lowered arena spell its nodes**, and so do the names of its nodes when
they are named in any order. -/
theorem spelled_of_lower {g : TypeGraph} {root : TypeId} {maxDepth : Nat}
    (h : lower g root maxDepth = .ok a) :
    (∀ id ∈ a.ids, a.Spelled id (a.node id).identity) ∧
      ∀ order : List NodeId, (∀ id ∈ order, id ∈ a.ids) → List.Forall₂ a.Spelled order
        ((a.nameRoots order).run (Array.replicate a.size none)).1 := by
  have closed := mem_ids_of_lower h
  refine ⟨fun id hid => ?_, fun order inside =>
    (spelledOut_nameRoots closed inside Array.size_replicate (keepsSpelled_nothing a a.size)).imp
      fun _ _ h => h.spelled⟩
  obtain ⟨b, alike, identity⟩ := exists_named_of_lower h
  rw [identity id]
  refine (spelledOut_assignIdentities (fun id child hchild => ?_) ?_).spelled.of_alike alike.symm
  · rw [Node.children, ← alike.shape] at hchild
    rw [mem_ids, ← alike.size, ← mem_ids]
    exact closed id child hchild
  · rw [mem_ids, ← alike.size, ← mem_ids]
    exact hid

end Arena

/-! ## Two types that refer to each other -/

namespace Staff

/-- A person has an employer, whose staff are persons and who may be part of another employer. -/
def sample : Sample where
  graph := {
    nodes := #[
      ⟨.objectLiteral [⟨1⟩], some "Person"⟩,
      ⟨.property "employer" ⟨2⟩ false false, none⟩,
      ⟨.objectLiteral [⟨3⟩, ⟨5⟩], some "Employer"⟩,
      ⟨.property "staff" ⟨4⟩ false false, none⟩,
      ⟨.array ⟨0⟩, none⟩,
      ⟨.property "parent" ⟨2⟩ true false, none⟩]
    roots := [("Person", ⟨0⟩)] }

/-- The name of the parent, and that of a person once it is kept. -/
def names : List String :=
  let parent := "parent?:\x7bstaff:array<\x7bemployer:$5\x7d>,$2\x7d"
  [parent, "\x7bemployer:\x7bstaff:array<$5>," ++ parent ++ "\x7d\x7d"]

/-- What is computed here: the type is lowered, and what a person is called depends on what was
named before. -/
theorem computed : sample.loads = true ∧
    (sample.arena.node sample.node).identity = "\x7bemployer:\x7bstaff:array<$5>,parent?:$2\x7d\x7d" ∧
    ((sample.arena.nameRoots [⟨5⟩, ⟨0⟩]).run (Array.replicate sample.arena.size none)).1 = names ∧
    ∀ id ∈ [⟨5⟩, ⟨0⟩], id ∈ sample.arena.ids := by
  decide +kernel

theorem names_spell : (sample.arena.node sample.node).identity =
      "\x7bemployer:\x7bstaff:array<$5>,parent?:$2\x7d\x7d" ∧
    (∀ id ∈ sample.arena.ids, sample.arena.Spelled id (sample.arena.node id).identity) ∧
    List.Forall₂ sample.arena.Spelled [⟨5⟩, ⟨0⟩] names := by
  obtain ⟨loads, identity, names, inside⟩ := computed
  obtain ⟨spelled, inOrder⟩ := Arena.spelled_of_lower (Sample.lowered loads)
  exact ⟨identity, spelled, names ▸ inOrder [⟨5⟩, ⟨0⟩] inside⟩

end Staff

end Typeforge
