/-
# `Typeforge.Proofs.Compiling.Build` — what the code of a build may rely on

Code calls functions by identity.  While a build runs, some of the functions
that its code calls are still under construction, some are defined already and
some were registered before the build began; all of them are known.  What is
known only grows, and so a fact about code that holds with what is known at one
time holds at any later time.

`Yields` is the form in which the compilers are proved right: whatever a
compiler gives stands in a relation to what it was given, a relation that may
speak of the known functions.  The rules below take it through the monad; what
is left for each compiler is the shape of its code.
-/
import Mathlib.Order.Monotone.Basic
import Typeforge.Compile.Entry
import Typeforge.Proofs.Results

namespace Typeforge

/-! ## Runs of builds -/

theorem Build.run_bind_eq_ok {α β : Type} {m : Build α} {f : α → Build β} {b b' : BuildState}
    {y : β} : (m >>= f).run b = .ok (y, b') ↔
      ∃ x b₁, m.run b = .ok (x, b₁) ∧ (f x).run b₁ = .ok (y, b') := by
  rw [StateT.run_bind, Except.bind_eq_ok]
  exact Prod.exists

theorem Build.run_pure_eq_ok {α : Type} {x y : α} {b b' : BuildState} :
    (pure x : Build α).run b = .ok (y, b') ↔ x = y ∧ b = b' := by
  rw [StateT.run_pure]
  simp [pure, Except.pure]

/-! ## Known functions -/

/-- A set of functions, by their keys. -/
abbrev Keys := FunctionKey → Prop

/-- The functions that code under construction may call. -/
def Setting.Known (s : Setting) (defining : List FunctionKey) (b : BuildState) : Keys := fun key =>
  key ∈ defining ∨ key ∈ b.defined.map (·.key) ∨ ∃ question, s.registered question key = true

/-! ## What builds yield -/

section Yields

-- `Good known f` says that a function is as it should be when those are the known ones
variable {α β : Type} (s : Setting) (Good : Keys → Function → Prop) (defining : List FunctionKey)

/-- Whatever a build gives stands in a relation to the functions known then; no function is
forgotten, and if all functions defined were good, they still are. -/
def Yields (m : Build α) (R : Keys → α → Prop) : Prop :=
  ∀ b x b', m.run b = .ok (x, b') →
    s.Known defining b ≤ s.Known defining b' ∧
    R (s.Known defining b') x ∧
    ((∀ f ∈ b.defined, Good (s.Known defining b) f) →
      ∀ f ∈ b'.defined, Good (s.Known defining b') f)

variable {s Good defining} {R : Keys → α → Prop} {Q : Keys → β → Prop}

theorem Yields.imp {m : Build α} {R' : Keys → α → Prop} (hm : Yields s Good defining m R)
    (h : ∀ known x, R known x → R' known x) : Yields s Good defining m R' := by
  intro b x b' hrun
  obtain ⟨grows, hx, good⟩ := hm b x b' hrun
  exact ⟨grows, h _ _ hx, good⟩

theorem Yields.pure {x : α} (h : ∀ known, R known x) :
    Yields s Good defining (pure x : Build α) R := by
  intro b y b' hrun
  obtain ⟨rfl, rfl⟩ := Build.run_pure_eq_ok.mp hrun
  exact ⟨le_rfl, h _, id⟩

theorem Yields.throw {e : CompileError} : Yields s Good defining (throw e : Build α) R :=
  fun _ _ _ hrun => nomatch hrun

theorem Yields.bind {m : Build α} {f : α → Build β} (hm : Yields s Good defining m R)
    (mono : ∀ x, Monotone (R · x))
    (hf : ∀ x, Yields s Good defining (f x) fun known y => R known x → Q known y) :
    Yields s Good defining (m >>= f) Q := by
  intro b y b' hrun
  obtain ⟨x, b₁, hrun₁, hrun₂⟩ := Build.run_bind_eq_ok.mp hrun
  obtain ⟨grows₁, hx, good₁⟩ := hm b x b₁ hrun₁
  obtain ⟨grows₂, hy, good₂⟩ := hf x b₁ y b' hrun₂
  exact ⟨grows₁.trans grows₂, hy (mono x grows₂ hx), fun good => good₂ (good₁ good)⟩

theorem monotone_forall₂ {R : α → Keys → β → Prop} (mono : ∀ x y, Monotone (R x · y))
    (xs : List α) (ys : List β) :
    Monotone fun known => List.Forall₂ (fun x y => R x known y) xs ys :=
  fun _ _ hle => List.Forall₂.imp fun _ _ h => mono _ _ hle h

theorem Yields.mapM {R : α → Keys → β → Prop} {f : α → Build β} {xs : List α}
    (mono : ∀ x y, Monotone (R x · y)) (h : ∀ x ∈ xs, Yields s Good defining (f x) (R x)) :
    Yields s Good defining (xs.mapM f)
      fun known ys => List.Forall₂ (fun x y => R x known y) xs ys := by
  induction xs with
  | nil => exact .pure fun _ => .nil
  | cons x xs ih =>
    rw [List.mapM_cons]
    refine .bind (h x List.mem_cons_self) (mono x) fun y => ?_
    refine .bind (ih fun x' hx' => h x' (List.mem_cons_of_mem _ hx')) (monotone_forall₂ mono xs)
      fun ys => ?_
    exact .pure fun _ hys hy => .cons hy hys

theorem Yields.mapM_bind {γ : Type} {R : γ → Keys → α → Prop} {f : γ → Build α} {xs : List γ}
    {k : List α → Build β} (mono : ∀ x y, Monotone (R x · y))
    (h : ∀ x ∈ xs, Yields s Good defining (f x) (R x))
    (hk : ∀ ys, Yields s Good defining (k ys)
      fun known y => List.Forall₂ (fun x y => R x known y) xs ys → Q known y) :
    Yields s Good defining (xs.mapM f >>= k) Q :=
  .bind (.mapM mono h) (monotone_forall₂ mono xs) hk

/-- The known functions of a function under construction are those around it, and itself. -/
theorem Setting.known_cons_le {b : BuildState} {key : FunctionKey} :
    s.Known defining b ≤ s.Known (key :: defining) b := by
  rintro k (h | h)
  · exact .inl (List.mem_cons_of_mem _ h)
  · exact .inr h

/-- Once a function is defined, it is known without being under construction. -/
theorem Setting.known_cons_le_append (s : Setting) (defining : List FunctionKey) (b : BuildState)
    (f : Function) :
    s.Known (f.key :: defining) b ≤ s.Known defining { b with defined := b.defined ++ [f] } := by
  rintro k (h | h | h)
  · rcases List.mem_cons.mp h with rfl | h
    · exact .inr (.inl (by simp))
    · exact .inl h
  · exact .inr (.inl (by rw [List.map_append]; exact List.mem_append_left _ h))
  · exact .inr (.inr h)

theorem yields_isDefined {site : Site} {key : FunctionKey} :
    Yields s Good site.defining (Language.isDefined s site key)
      fun known answer => answer = true → known key := by
  intro b answer b' hrun
  simp only [Language.isDefined, Build.run_bind_eq_ok] at hrun
  obtain ⟨b₀, b₁, hget, hrun⟩ := hrun
  cases hget
  split at hrun
  · rename_i hcond
    obtain ⟨rfl, rfl⟩ := Build.run_pure_eq_ok.mp hrun
    refine ⟨le_rfl, fun _ => ?_, id⟩
    rcases Bool.or_eq_true_iff.mp hcond with h | h
    · exact .inl (List.contains_iff_mem.mp h)
    · obtain ⟨f, hf, hkey⟩ := List.any_eq_true.mp h
      exact .inr (.inl (List.mem_map.mpr ⟨f, hf, beq_iff_eq.mp hkey⟩))
  · obtain ⟨_, _, hset, hrun⟩ := Build.run_bind_eq_ok.mp hrun
    cases hset
    obtain ⟨rfl, rfl⟩ := Build.run_pure_eq_ok.mp hrun
    exact ⟨le_rfl, fun h => .inr (.inr ⟨_, h⟩), id⟩

end Yields

/-! ## Languages -/

namespace Language

variable {Code : Type}

/-- The code that a visit of a node gives: plain code, a call of the node's function, if it may have
one, or what the node is compiled to in place. -/
inductive Visited (L : Language Code) (known : Keys) (inPlace : Node → Code → Prop)
    (path : List PathSegment) (n : Node) : Code → Prop where
  | plain {code} (h : L.plain? n = some code) : Visited L known inPlace path n code
  | called (h : L.plain? n = none) (hknown : known (L.key n)) (own : n.hasBody = true) :
      Visited L known inPlace path n (L.call n.identity path)
  | inPlace {code} (h : L.plain? n = none) (hcode : inPlace n code) :
      Visited L known inPlace path n code

/-- The code of a node's own function. -/
inductive Entered (L : Language Code) (inPlace : Node → Code → Prop) (n : Node) : Code → Prop where
  | plain {code} (h : L.plain? n = some code) : Entered L inPlace n code
  | inPlace {code} (h : L.plain? n = none) (hcode : inPlace n code) : Entered L inPlace n code

variable {L : Language Code}

theorem Visited.imp {known known' : Keys} {inPlace inPlace' : Node → Code → Prop}
    {path : List PathSegment} {n : Node} {code : Code} (hknown : known ≤ known')
    (himp : ∀ code, inPlace n code → inPlace' n code) :
    L.Visited known inPlace path n code → L.Visited known' inPlace' path n code
  | .plain h => .plain h
  | .called h hk own => .called h (hknown _ hk) own
  | .inPlace h hcode => .inPlace h (himp _ hcode)

/-- In a language without plain code a visit calls, or compiles in place. -/
theorem Visited.known_or_inPlace {known : Keys} {inPlace : Node → Code → Prop}
    {path : List PathSegment} {n : Node} {code : Code} (plain : L.plain? n = none) :
    L.Visited known inPlace path n code → known (L.key n) ∨ inPlace n code
  | .plain h => nomatch plain.symm.trans h
  | .called _ hknown _ => .inl hknown
  | .inPlace _ hcode => .inr hcode

/-- Where calls do not depend on the path, the path does not matter. -/
theorem Visited.anywhere {known : Keys} {inPlace : Node → Code → Prop} {path : List PathSegment}
    {n : Node} {code : Code}
    (hcall : ∀ identity path, L.call identity path = L.call identity []) :
    L.Visited known inPlace path n code → L.Visited known inPlace [] n code
  | .plain h => .plain h
  | .called h hk own => hcall n.identity path ▸ .called h hk own
  | .inPlace h hcode => .inPlace h hcode

theorem Entered.imp {inPlace inPlace' : Node → Code → Prop} {n : Node} {code : Code}
    (himp : ∀ code, inPlace n code → inPlace' n code) :
    L.Entered inPlace n code → L.Entered inPlace' n code
  | .plain h => .plain h
  | .inPlace h hcode => .inPlace h (himp _ hcode)

/-- A compiler of nodes, and what it is to be shown to do: the relation that its code stands in
to a node, and that the functions made of the code are good where they are made of certain nodes. -/
structure Compiles (L : Language Code) (s : Setting) (Good : Keys → Function → Prop)
    (Starts : NodeId → Prop) (compile : Compiler Code)
    (InPlace : Keys → Site → Node → Code → Prop) : Prop where
  mono : ∀ site n code, Monotone (InPlace · site n code)
  yields : ∀ site n, Yields s Good site.defining (compile site n) (InPlace · site n)
  good : ∀ known site id code, Starts id → site.path = [] → site.loops = 0 →
    L.Entered (InPlace known site) (s.arena.node id) code →
    Good known (Function.ofBody (s.arena.node id).identity (L.toBody code))

variable {s : Setting} {Good : Keys → Function → Prop} {Starts : NodeId → Prop}
  {compile : Compiler Code} {n : Node} {InPlace : Keys → Site → Node → Code → Prop}

/-- The key of the function made of a node's code. -/
theorem ofBody_key (target : ∀ code, (L.toBody code).target = L.target) (code : Code) :
    (Function.ofBody n.identity (L.toBody code)).key = L.key n := by
  simp only [Function.ofBody, Language.key, target]

/-- The code of a function that is still to be defined. -/
def entryCode (L : Language Code) (compile : Compiler Code) (site : Site) (n : Node) : Build Code :=
  match L.plain? n with
  | some code => pure code
  | none => compile (site.enter (L.key n)) n

theorem define_eq (site : Site) (n : Node) :
    L.define s compile site n = (isDefined s site (L.key n) >>= fun answer =>
      if answer then pure () else L.entryCode compile site n >>= fun code =>
        addFunction (Function.ofBody n.identity (L.toBody code))) := by
  unfold define entryCode
  cases L.plain? n <;> rfl

theorem Compiles.yields_entryCode (h : L.Compiles s Good Starts compile InPlace) (site : Site) (n : Node) :
    Yields s Good (site.enter (L.key n)).defining (L.entryCode compile site n)
      fun known code => L.Entered (InPlace known (site.enter (L.key n))) n code := by
  unfold entryCode
  split
  · rename_i code hplain
    exact .pure fun _ => .plain hplain
  · rename_i hplain
    exact (h.yields _ _).imp fun _ _ hcode => .inPlace hplain hcode

/-- Defining a function makes it known, and all functions defined stay good. -/
theorem Compiles.yields_define (h : L.Compiles s Good Starts compile InPlace)
    (monoGood : ∀ f, Monotone (Good · f)) (target : ∀ code, (L.toBody code).target = L.target)
    (site : Site) {id : NodeId} (start : Starts id) :
    Yields s Good site.defining (L.define s compile site (s.arena.node id))
      fun known _ => known (L.key (s.arena.node id)) := by
  generalize hn : s.arena.node id = n
  rw [define_eq]
  refine .bind yields_isDefined (fun answer _ _ hle hk ha => hle _ (hk ha)) fun answer => ?_
  cases answer with
  | true => exact .pure fun _ hk => hk rfl
  | false =>
    intro b _ b' hrun
    obtain ⟨code, b₁, hcode, hadd⟩ := Build.run_bind_eq_ok.mp hrun
    cases hadd
    obtain ⟨grows, hentered, good⟩ := h.yields_entryCode site n b code b₁ hcode
    have close := s.known_cons_le_append site.defining b₁
      (Function.ofBody n.identity (L.toBody code))
    rw [ofBody_key target] at close
    refine ⟨(Setting.known_cons_le.trans grows).trans close,
      fun _ => close _ (.inl List.mem_cons_self), ?_⟩
    intro hgood f hf
    rcases List.mem_append.mp hf with hf | hf
    · have hgood₁ := good fun f hf => monoGood f Setting.known_cons_le (hgood f hf)
      exact monoGood f close (hgood₁ f hf)
    · rw [List.mem_singleton.mp hf]
      have hgood := h.good (s.Known (site.enter (L.key n)).defining b₁) (site.enter (L.key n)) id
        code start rfl rfl
      rw [hn] at hgood
      exact monoGood _ close (hgood hentered)

/-- What a visit gives where the walk may go on. -/
theorem Compiles.yields_visit (h : L.Compiles s Good Starts compile InPlace)
    (monoGood : ∀ f, Monotone (Good · f)) (target : ∀ code, (L.toBody code).target = L.target)
    (starts : ∀ id, (s.arena.node id).hasBody = true → Starts id) (site : Site) (id : NodeId) :
    Yields s Good site.defining (L.visit s (some compile) site id) fun known code =>
      L.Visited known (InPlace known site) site.path (s.arena.node id) code := by
  unfold Language.visit
  split
  · rename_i hplain
    exact .pure fun _ => .plain hplain
  · rename_i hplain heq
    cases heq
    unfold compileAt
    split
    · rename_i hown
      have hbody := (Bool.and_eq_true_iff.mp hown).1
      refine .bind (h.yields_define monoGood target site (starts id hbody))
        (fun _ _ _ hle => hle _) fun _ => ?_
      exact .pure fun _ hknown => .called hplain hknown hbody
    · exact (h.yields site _).imp fun _ _ hcode => .inPlace hplain hcode
  · rename_i heq
    cases heq

/-- What a visit gives where the walk has gone as deep as it may. -/
theorem yields_visit_none (site : Site) (id : NodeId) :
    Yields s Good site.defining (L.visit s none site id) fun known code =>
      L.Visited known (fun _ _ => False) site.path (s.arena.node id) code := by
  unfold Language.visit
  split
  · rename_i hplain
    exact .pure fun _ => .plain hplain
  · rename_i heq
    cases heq
  · exact .throw

end Language

end Typeforge
