/-
# `Typeforge.Proofs.Compiling.Failing` — how builds fail

A build fails where it visits a node that no language can say, where it goes too
deep, and where a class to decode has no reviver; it fails for no other reason.
What is proved here is for any set of errors: if the visits of a node's children
fail with errors of the set only, and so does a refusal of the node itself, then
compiling the node does.
-/
import Typeforge.Proofs.Compiling.Built

namespace Typeforge

/-! ## Nodes that no language can say -/

/-- Whether no language can say what a node is. -/
def Node.isRefused (n : Node) : Bool :=
  match n.shape with
  | .atom x => x.isNever
  | .promise _ | .function _ => true
  | _ => false

/-- Whether an error is for a node that no language can say. -/
def CompileError.IsRefusal : CompileError → Prop
  | .never .. | .functionNotData .. | .promiseNotData .. => True
  | _ => False

theorem Atom.isNever_of_check? {x : Atom} (h : x.check? = none) : x.isNever = true := by
  cases x <;> first | rfl | cases h

/-! ## Builds that fail in certain ways only -/

namespace Build

variable {α β : Type} {P : CompileError → Prop}

/-- If the build fails, then with a certain error. -/
def FailsAs (P : CompileError → Prop) (m : Build α) : Prop := ∀ b e, m.run b = .error e → P e

namespace FailsAs

theorem pure (x : α) : FailsAs P (pure x : Build α) := nofun

theorem throw {e : CompileError} (h : P e) : FailsAs P (throw e : Build α) := by
  intro b e' hrun
  cases hrun
  exact h

theorem bind {m : Build α} {f : α → Build β} (hm : m.FailsAs P) (hf : ∀ x, (f x).FailsAs P) :
    (m >>= f).FailsAs P := by
  intro b e hrun
  rw [StateT.run_bind] at hrun
  cases hstep : m.run b with
  | error e' =>
    rw [hstep] at hrun
    cases hrun
    exact hm b e hstep
  | ok out =>
    rw [hstep] at hrun
    exact hf out.1 out.2 e hrun

theorem mapM {f : α → Build β} {xs : List α} (h : ∀ x ∈ xs, (f x).FailsAs P) :
    (xs.mapM f).FailsAs P := by
  induction xs with
  | nil => exact .pure []
  | cons x xs ih =>
    rw [List.mapM_cons]
    refine .bind (h x List.mem_cons_self) fun y => ?_
    exact .bind (ih fun z hz => h z (List.mem_cons_of_mem x hz)) fun ys => .pure (y :: ys)

end FailsAs

end Build

open Build

/-! ## Languages -/

namespace Language

variable {Code : Type} {L : Language Code} {s : Setting} {compile : Compiler Code} {site : Site}
  {P : CompileError → Prop}

theorem failsAs_isDefined {key : FunctionKey} : (isDefined s site key).FailsAs P := by
  intro b e hrun
  unfold isDefined at hrun
  rw [StateT.run_bind] at hrun
  change (if site.defining.contains key || b.defined.any (·.key == key) then
    (Pure.pure true : Build Bool) else _).run b = .error e at hrun
  split at hrun <;> cases hrun

/-- A function under construction is defined. -/
theorem run_isDefined_of_mem {key : FunctionKey} (h : key ∈ site.defining) (b : BuildState) :
    (isDefined s site key).run b = .ok (true, b) := by
  unfold isDefined
  rw [StateT.run_bind]
  change (if site.defining.contains key || b.defined.any (·.key == key) then
    (Pure.pure true : Build Bool) else _).run b = _
  rw [List.contains_iff_mem.mpr h, Bool.true_or, if_pos rfl]
  rfl

/-- Only a function that is not under construction is compiled. -/
theorem failsAs_define {n : Node}
    (h : L.key n ∉ site.defining → (compile (site.enter (L.key n)) n).FailsAs P) :
    (L.define s compile site n).FailsAs P := by
  rw [define_eq]
  by_cases hmem : L.key n ∈ site.defining
  · intro b e hrun
    rw [StateT.run_bind, run_isDefined_of_mem hmem] at hrun
    cases hrun
  · refine .bind failsAs_isDefined fun answer => ?_
    cases answer with
    | true => exact .pure ()
    | false =>
      refine .bind ?_ fun code b e hrun => nomatch hrun
      unfold entryCode
      split
      · exact .pure _
      · exact h hmem

theorem failsAs_visit {id : NodeId}
    (inPlace : s.ownFunction (s.arena.node id) = false → (compile site (s.arena.node id)).FailsAs P)
    (own : s.ownFunction (s.arena.node id) = true → L.key (s.arena.node id) ∉ site.defining →
      (compile (site.enter (L.key (s.arena.node id))) (s.arena.node id)).FailsAs P) :
    (L.visit s (some compile) site id).FailsAs P := by
  unfold visit
  split
  · exact .pure _
  · rename_i heq
    cases heq
    unfold compileAt
    split
    · rename_i hown
      exact .bind (failsAs_define (own hown)) fun _ => .pure _
    · rename_i hown
      exact inPlace (Bool.eq_false_iff.mpr hown)
  · rename_i heq
    cases heq

end Language

/-! ## Nodes -/

namespace Compile

section Nodes

variable {a : Arena} {site : Site} {n : Node} {P : CompileError → Prop}

/-- A node may be refused, if no language can say it, with errors of a set. -/
def Refusable (P : CompileError → Prop) (n : Node) : Prop :=
  n.isRefused = true → ∀ e : CompileError, e.IsRefusal → P e

section Refusable

variable {Code : Type} {target : Target} (h : Refusable P n) (hn : n.isRefused = true)

include h hn

theorem Refusable.never : (site.never target : Build Code).FailsAs P := .throw (h hn _ trivial)

theorem Refusable.functionNotData : (site.functionNotData target : Build Code).FailsAs P :=
  .throw (h hn _ trivial)

theorem Refusable.promiseNotData : (site.promiseNotData target : Build Code).FailsAs P :=
  .throw (h hn _ trivial)

end Refusable

/-- Visits of some nodes, at sites with certain functions under construction, fail in certain ways
only. -/
def Passable {Code : Type} (P : CompileError → Prop) (child : Site → NodeId → Build Code) (defining : List FunctionKey)
    (ids : List NodeId) : Prop :=
  ∀ id ∈ ids, ∀ site : Site, site.defining = defining → (child site id).FailsAs P

namespace Passable

variable {Code : Type} {child : Site → NodeId → Build Code} {defining : List FunctionKey}
  {props members : List NodeId} {index : Option NodeId}

/-- Of the members of an object. -/
theorem property (h : Passable P child defining (props ++ index.toList)) {p : Arena.Property}
    (hp : p ∈ a.properties props) {site : Site} (hsite : site.defining = defining) :
    (child site p.id).FailsAs P := by
  obtain ⟨id, hid, hsome⟩ := List.mem_filterMap.mp hp
  split at hsome
  · cases hsome
    exact h id (List.mem_append_left _ hid) site hsite
  · cases hsome

theorem indexed (h : Passable P child defining (props ++ index.toList)) {id : NodeId}
    {filter : KeyFilter} (hx : a.indexFilter index = some (id, filter)) {site : Site}
    (hsite : site.defining = defining) : (child site id).FailsAs P := by
  obtain ⟨id, rfl, hsome⟩ := Option.bind_eq_some_iff.mp hx
  split at hsome
  · cases hsome
    exact h id (List.mem_append_right _ (List.mem_singleton_self id)) site hsite
  · cases hsome

/-- Of the positions of a tuple. -/
theorem fixed (h : Passable P child defining members) {positions : List NodeId}
    {others : Option NodeId} (hsplit : a.splitTuple members = (positions, others)) {x : NodeId × Nat}
    (hx : x ∈ positions.zipIdx) {site : Site} (hsite : site.defining = defining) :
    (child site x.1).FailsAs P := by
  refine h x.1 ?_ site hsite
  rw [← Arena.splitTuple_append (a := a) members, hsplit]
  exact List.mem_append_left _ (List.fst_mem_of_mem_zipIdx hx)

theorem rest (h : Passable P child defining members) {positions : List NodeId} {id : NodeId}
    (hsplit : a.splitTuple members = (positions, some id)) {site : Site}
    (hsite : site.defining = defining) : (child site id).FailsAs P := by
  refine h id ?_ site hsite
  rw [← Arena.splitTuple_append (a := a) members, hsplit]
  exact List.mem_append_right _ (List.mem_singleton_self id)

end Passable

/-! ### Tests -/

section Checks

variable {child : Site → NodeId → Build Check}

theorem failsAs_unionCheck {members : List NodeId}
    (h : Passable P child site.defining members) : (unionCheck (child site) members).FailsAs P := by
  refine .bind ?_ fun _ => .pure _
  induction members with
  | nil => exact .pure _
  | cons id rest ih =>
    refine .bind (h id List.mem_cons_self site rfl) fun check => ?_
    split
    · exact .pure _
    · exact .bind (ih fun id hid => h id (List.mem_cons_of_mem _ hid)) fun _ => .pure _

theorem failsAs_objectCheck {props : List NodeId} {index : Option NodeId}
    (h : Passable P child site.defining (props ++ index.toList)) :
    (objectCheck a child site props index).FailsAs P := by
  unfold objectCheck
  refine .bind (.mapM fun p hp => h.property hp rfl) fun declared => ?_
  split
  · rename_i hindex
    exact .bind (h.indexed hindex rfl) fun _ => .bind (.pure _) fun _ => .pure _
  · exact .pure _

theorem failsAs_tupleCheck {members : List NodeId} (h : Passable P child site.defining members) :
    (tupleCheck a child site members).FailsAs P := by
  rcases hsplit : a.splitTuple members with ⟨positions, others⟩
  simp only [tupleCheck, hsplit]
  refine .bind (.mapM fun x hx => .bind (h.fixed hsplit hx rfl) fun _ => .pure _) fun elements => ?_
  cases others with
  | some id => exact .bind (h.rest hsplit rfl) fun _ => .bind (.pure _) fun _ => .pure _
  | none => exact .bind (.pure _) fun _ => .pure _

theorem failsAs_checkNode (refusable : Refusable P n) (h : Passable P child site.defining n.children) :
    (checkNode a child site n).FailsAs P := by
  cases hn : n.shape <;> simp only [Node.children, Shape.children, hn] at h <;>
    simp only [checkNode, hn]
  case atom x =>
    split
    · exact .pure _
    · rename_i hx
      exact refusable.never (by rw [Node.isRefused, hn]; exact Atom.isNever_of_check? hx)
  case array item => exact .bind (h item List.mem_cons_self _ rfl) fun _ => .pure _
  case property name id => exact .bind (h id List.mem_cons_self _ rfl) fun _ => .pure _
  case tupleMember id | indexSignature _ id | rest id | parameter _ id _ =>
    exact h id List.mem_cons_self _ rfl
  case promise _ => exact refusable.promiseNotData (by rw [Node.isRefused, hn])
  case object props index className => exact failsAs_objectCheck h
  case tuple members => exact failsAs_tupleCheck h
  case union members => exact failsAs_unionCheck h
  case function _ => exact refusable.functionNotData (by rw [Node.isRefused, hn])

end Checks

variable {check : Site → NodeId → Build Check}

/-! ### Reports -/

section Reports

variable {child : Site → NodeId → Build (List Report)}

theorem failsAs_objectReport {props : List NodeId} {index : Option NodeId}
    {className : Option String} (h : Passable P child site.defining (props ++ index.toList)) :
    (objectReport a child site props index className).FailsAs P := by
  unfold objectReport
  refine .bind (.mapM fun p hp => h.property hp rfl) fun declared => ?_
  split
  · rename_i hindex
    exact .bind (h.indexed hindex rfl) fun _ => .bind (.pure _) fun _ => .pure _
  · exact .pure _

theorem failsAs_tupleReport {members : List NodeId} (h : Passable P child site.defining members) :
    (tupleReport a child site members).FailsAs P := by
  rcases hsplit : a.splitTuple members with ⟨positions, others⟩
  simp only [tupleReport, hsplit]
  refine .bind (.mapM fun x hx => .bind (h.fixed hsplit hx rfl) fun _ => .pure _) fun elements => ?_
  cases others with
  | some id => exact .bind (h.rest hsplit rfl) fun _ => .bind (.pure _) fun _ => .pure _
  | none => exact .bind (.pure _) fun _ => .pure _

theorem failsAs_reportNode (refusable : Refusable P n) (hcheck : Passable P check site.defining n.children)
    (h : Passable P child site.defining n.children) :
    (reportNode a check child site n).FailsAs P := by
  cases hn : n.shape <;> simp only [Node.children, Shape.children, hn] at h hcheck <;>
    simp only [reportNode, hn]
  case atom x =>
    split
    · exact .pure _
    · rename_i hx
      exact refusable.never (by rw [Node.isRefused, hn]; exact Atom.isNever_of_check? hx)
  case array item => exact .bind (h item List.mem_cons_self _ rfl) fun _ => .pure _
  case property name id => exact .bind (h id List.mem_cons_self _ rfl) fun _ => .pure _
  case tupleMember id | indexSignature _ id | rest id | parameter _ id _ =>
    exact h id List.mem_cons_self _ rfl
  case promise _ => exact refusable.promiseNotData (by rw [Node.isRefused, hn])
  case object props index className => exact failsAs_objectReport h
  case tuple members => exact failsAs_tupleReport h
  case union members => exact .bind (failsAs_unionCheck hcheck) fun _ => .pure _
  case function _ => exact refusable.functionNotData (by rw [Node.isRefused, hn])

end Reports

/-! ### Encoders and decoders -/

/-- The arms of a union: for each member a test, and what is done if it holds. -/
theorem failsAs_arms {Code : Type} {child : Site → NodeId → Build Code} {members : List NodeId}
    (hcheck : Passable P check site.defining members) (h : Passable P child site.defining members) :
    (members.mapM fun id => do
      let check ← check site id
      let code ← child site id
      pure (check, code)).FailsAs P :=
  .mapM fun id hid => .bind (hcheck id hid _ rfl) fun _ => .bind (h id hid _ rfl) fun _ => .pure _

section Transforms

variable {child : Site → NodeId → Build (List Transform)}

theorem failsAs_objectTransform {props : List NodeId} {index : Option NodeId}
    (h : Passable P child site.defining (props ++ index.toList)) :
    (objectTransform a child site props index).FailsAs P := by
  unfold objectTransform
  refine .bind (.mapM fun p hp => h.property hp rfl) fun declared => ?_
  split
  · rename_i hindex
    exact .bind (h.indexed hindex rfl) fun _ => .bind (.pure _) fun _ => .pure _
  · exact .pure _

theorem failsAs_tupleTransform {before : NodeId → Nat → List Transform} {members : List NodeId}
    (h : Passable P child site.defining members) :
    (tupleTransform a before child site members).FailsAs P := by
  rcases hsplit : a.splitTuple members with ⟨positions, others⟩
  simp only [tupleTransform, hsplit]
  refine .bind (.mapM fun x hx => .bind (h.fixed hsplit hx rfl) fun _ => .pure _) fun elements => ?_
  cases others with
  | some id => exact .bind (h.rest hsplit rfl) fun _ => .bind (.pure _) fun _ => .pure _
  | none => exact .bind (.pure _) fun _ => .pure _

theorem failsAs_encodeNode (refusable : Refusable P n) (hcheck : Passable P check site.defining n.children)
    (h : Passable P child site.defining n.children) :
    (encodeNode a check child site n).FailsAs P := by
  cases hn : n.shape <;> simp only [Node.children, Shape.children, hn] at h hcheck <;>
    simp only [encodeNode, hn]
  case atom x =>
    split
    · rename_i hx
      exact refusable.never (by rw [Node.isRefused, hn]; exact hx)
    · exact .pure _
  case array item => exact .bind (h item List.mem_cons_self _ rfl) fun _ => .pure _
  case property name id => exact .bind (h id List.mem_cons_self _ rfl) fun _ => .pure _
  case tupleMember id | indexSignature _ id | rest id | parameter _ id _ =>
    exact h id List.mem_cons_self _ rfl
  case promise _ => exact refusable.promiseNotData (by rw [Node.isRefused, hn])
  case object props index className => exact failsAs_objectTransform h
  case tuple members => exact failsAs_tupleTransform h
  case union members => exact .bind (failsAs_arms hcheck h) fun _ => .pure _
  case function _ => exact refusable.functionNotData (by rw [Node.isRefused, hn])

theorem failsAs_revival {s : Setting} (unregistered : ∀ name, P (.unregisteredClass name))
    (className : Option String) : (revival s className).FailsAs P := by
  unfold revival
  split
  · exact .pure _
  · split
    · exact .pure _
    · exact .throw (unregistered _)

theorem failsAs_decodeNode (refusable : Refusable P n) {s : Setting}
    (unregistered : ∀ name, P (.unregisteredClass name)) (h : Passable P child site.defining n.children) :
    (decodeNode s child site n).FailsAs P := by
  cases hn : n.shape <;> simp only [Node.children, Shape.children, hn] at h <;>
    simp only [decodeNode, hn]
  case atom x =>
    split
    · rename_i hx
      exact refusable.never (by rw [Node.isRefused, hn]; exact hx)
    · exact .pure _
  case array item => exact .bind (h item List.mem_cons_self _ rfl) fun _ => .pure _
  case property name id => exact .bind (h id List.mem_cons_self _ rfl) fun _ => .pure _
  case tupleMember id | indexSignature _ id | rest id | parameter _ id _ =>
    exact h id List.mem_cons_self _ rfl
  case promise _ => exact refusable.promiseNotData (by rw [Node.isRefused, hn])
  case object props index className =>
    exact .bind (failsAs_objectTransform h) fun _ => .bind (failsAs_revival unregistered _) fun _ => .pure _
  case tuple members => exact failsAs_tupleTransform h
  case union members => exact .bind (.mapM fun id hid => h id hid _ rfl) fun _ => .pure _
  case function _ => exact refusable.functionNotData (by rw [Node.isRefused, hn])

end Transforms

/-! ### Emitters -/

section Emits

variable {child : Site → NodeId → Build Emit}

theorem failsAs_objectEmit {props : List NodeId} {index : Option NodeId}
    (h : Passable P child site.defining (props ++ index.toList)) :
    (objectEmit a child site props index).FailsAs P := by
  unfold objectEmit
  refine .bind (.mapM fun p hp => .bind (h.property hp rfl) fun _ => .pure _) fun members => ?_
  split
  · rename_i hindex
    exact .bind (h.indexed hindex rfl) fun _ => .bind (.pure _) fun _ => .pure _
  · exact .pure _

theorem failsAs_tupleEmit {members : List NodeId} (h : Passable P child site.defining members) :
    (tupleEmit a child site members).FailsAs P := by
  rcases hsplit : a.splitTuple members with ⟨positions, others⟩
  simp only [tupleEmit, hsplit]
  refine .bind (.mapM fun x hx => h.fixed hsplit hx rfl) fun elements => ?_
  cases others with
  | some id => exact .bind (h.rest hsplit rfl) fun _ => .bind (.pure _) fun _ => .pure _
  | none => exact .bind (.pure _) fun _ => .pure _

theorem failsAs_emitNode (refusable : Refusable P n) (hcheck : Passable P check site.defining n.children)
    (h : Passable P child site.defining n.children) :
    (emitNode a check child site n).FailsAs P := by
  cases hn : n.shape <;> simp only [Node.children, Shape.children, hn] at h hcheck <;>
    simp only [emitNode, hn]
  case atom x =>
    split
    · rename_i hx
      exact refusable.never (by rw [Node.isRefused, hn]; exact hx)
    · exact .pure _
  case array item => exact .bind (h item List.mem_cons_self _ rfl) fun _ => .pure _
  case property name id => exact h id List.mem_cons_self _ rfl
  case tupleMember id | indexSignature _ id | rest id | parameter _ id _ =>
    exact h id List.mem_cons_self _ rfl
  case promise _ => exact refusable.promiseNotData (by rw [Node.isRefused, hn])
  case object props index className => exact failsAs_objectEmit h
  case tuple members => exact failsAs_tupleEmit h
  case union members => exact .bind (failsAs_arms hcheck h) fun _ => .pure _
  case function _ => exact refusable.functionNotData (by rw [Node.isRefused, hn])

end Emits

end Nodes

/-! ## Walks -/

section Walks

variable {s : Setting} {P : CompileError → Prop} {nodes : NodeId → Prop} {id : NodeId}

/-- What a build that fails finds: an error of its walk, or a class without a reviver before it. -/
theorem failsAs_functions {target : Target} (entry : (defineEntry s (s.arena.node id) target).FailsAs P)
    (unregistered : target = .jsonDecode → ∀ name, P (.unregisteredClass name)) {e : CompileError}
    (h : functions s id target = .error e) : P e := by
  have walk : ((defineEntry s (s.arena.node id) target).run {} >>= fun out =>
      pure out.2.defined : Except CompileError (List Function)) = .error e → P e := by
    intro hwalk
    cases hrun : (defineEntry s (s.arena.node id) target).run {} with
    | error e' =>
      rw [hrun] at hwalk
      cases hwalk
      exact entry {} e hrun
    | ok out =>
      rw [hrun] at hwalk
      cases hwalk
  unfold functions at h
  split at h
  · rename_i htarget
    unfold checkRevivers at h
    split at h
    · cases h
      exact unregistered htarget _
    · exact walk h
  · exact walk h

/-- Some nodes that a walk does not leave, and that may be refused, or found too deep. -/
structure Walkable (s : Setting) (P : CompileError → Prop) (nodes : NodeId → Prop) : Prop where
  closed : ∀ id, nodes id → ∀ child ∈ (s.arena.node id).children, nodes child
  refusable : ∀ id, nodes id → Refusable P (s.arena.node id)
  deep : ∀ path, P (.maxDepth s.maxDepth path)

namespace Walkable

/-- Visits of all the nodes fail in certain ways only. -/
def Visits {Code : Type} (P : CompileError → Prop) (nodes : NodeId → Prop)
    (child : Site → NodeId → Build Code) : Prop := ∀ site id, nodes id → (child site id).FailsAs P

variable {Code : Type} {L : Language Code} {compile : Compiler Code}
  {child : Site → NodeId → Build Code}

theorem passable (walk : Walkable s P nodes) (h : Visits P nodes child) (hid : nodes id)
    (defining : List FunctionKey) : Passable P child defining (s.arena.node id).children :=
  fun c hc site _ => h site c (walk.closed id hid c hc)

theorem visits_none (walk : Walkable s P nodes) : Visits P nodes (L.visit s none) := by
  intro site id _
  unfold Language.visit
  split
  · exact .pure _
  · rename_i heq
    cases heq
  · exact .throw (walk.deep _)

theorem visits_some (h : ∀ site id, nodes id → (compile site (s.arena.node id)).FailsAs P) :
    Visits P nodes (L.visit s (some compile)) :=
  fun site id hid => Language.failsAs_visit (fun _ => h site id hid) fun _ _ => h _ id hid

variable (walk : Walkable s P nodes)

include walk

theorem visits_checkAt (depth : Nat) : Visits P nodes (checkAt s depth) := by
  induction depth with
  | zero => exact walk.visits_none
  | succ depth ih =>
    exact visits_some fun _ id hid =>
      failsAs_checkNode (walk.refusable id hid) (walk.passable ih hid _)

theorem visits_reportAt (depth : Nat) : Visits P nodes (reportAt s depth) := by
  induction depth with
  | zero => exact walk.visits_none
  | succ depth ih =>
    exact visits_some fun _ id hid => failsAs_reportNode (walk.refusable id hid)
      (walk.passable (walk.visits_checkAt depth) hid _) (walk.passable ih hid _)

theorem visits_encodeAt (depth : Nat) : Visits P nodes (encodeAt s depth) := by
  induction depth with
  | zero => exact walk.visits_none
  | succ depth ih =>
    exact visits_some fun _ id hid => failsAs_encodeNode (walk.refusable id hid)
      (walk.passable (walk.visits_checkAt depth) hid _) (walk.passable ih hid _)

theorem visits_decodeAt (unregistered : ∀ name, P (.unregisteredClass name)) (depth : Nat) :
    Visits P nodes (decodeAt s depth) := by
  induction depth with
  | zero => exact walk.visits_none
  | succ depth ih =>
    exact visits_some fun _ id hid =>
      failsAs_decodeNode (walk.refusable id hid) unregistered (walk.passable ih hid _)

theorem visits_emitAt (depth : Nat) : Visits P nodes (emitAt s depth) := by
  induction depth with
  | zero => exact walk.visits_none
  | succ depth ih =>
    exact visits_some fun _ id hid => failsAs_emitNode (walk.refusable id hid)
      (walk.passable (walk.visits_checkAt depth) hid _) (walk.passable ih hid _)

theorem failsAs_defineEntry (hid : nodes id) {target : Target}
    (unregistered : target = .jsonDecode → ∀ name, P (.unregisteredClass name)) :
    (defineEntry s (s.arena.node id) target).FailsAs P := by
  have refusable := walk.refusable id hid
  have checks (defining : List FunctionKey) :
      Passable P (checkAt s (defineEntry.depth s)) defining (s.arena.node id).children :=
    walk.passable (walk.visits_checkAt _) hid defining
  cases target with
  | isType => exact Language.failsAs_define fun _ => failsAs_checkNode refusable (checks _)
  | typeErrors =>
    exact Language.failsAs_define fun _ => failsAs_reportNode refusable (checks _)
      (walk.passable (walk.visits_reportAt _) hid _)
  | jsonEncode =>
    exact Language.failsAs_define fun _ => failsAs_encodeNode refusable (checks _)
      (walk.passable (walk.visits_encodeAt _) hid _)
  | jsonDecode =>
    exact Language.failsAs_define fun _ => failsAs_decodeNode refusable (unregistered rfl)
      (walk.passable (walk.visits_decodeAt (unregistered rfl) _) hid _)
  | jsonStringify =>
    exact Language.failsAs_define fun _ => failsAs_emitNode refusable (checks _)
      (walk.passable (walk.visits_emitAt _) hid _)

end Walkable

end Walks

end Compile

end Typeforge
