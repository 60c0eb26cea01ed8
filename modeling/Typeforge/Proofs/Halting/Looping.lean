/-
# `Typeforge.Proofs.Halting.Looping` — functions that call themselves first of all

A node that stands for another is compiled to exactly what that one is compiled to,
and has its identity.  If the other one is compiled into a function of its own, this
function has the key of the function that is under construction for the node itself.
So it is taken to be on its way, and a call of it is all that the node is compiled to:
its function calls itself, on the value it was called on, and never comes to an end.

That takes a build for the node itself.  As a part of other types it is compiled in
place, and the call is one of the other node's function.

`Engine.Builds.body?_calling` says so for all five targets.  It asks that functions are
built for the node alone, since with one for the type itself there would be a body to
call; that the other node's function is one of its own, under the same identity; and
that there is code for the target at all.

The test of a union calls itself, too, if the union is its own first member, before it
asks any other member (`Program.checkCall_of_callsFirst`).
-/
import Typeforge.Proofs.Compiling.Built
import Typeforge.Proofs.Compiling.Failing

namespace Typeforge

/-- The body of a function that does nothing but call the function of an identity. -/
def Body.calling (identity : String) : Target → Body
  | .isType => .isType (.call identity)
  | .typeErrors => .typeErrors [.call identity []]
  | .jsonEncode => .jsonEncode [.call identity]
  | .jsonDecode => .jsonDecode [.call identity]
  | .jsonStringify => .jsonStringify (.call identity)

/-- Whether a body is a union's test whose first member is a call of the function of an identity. -/
def Body.callsFirst (identity : String) : Body → Bool
  | .isType (.any (.call first :: _)) => first == identity
  | _ => false

theorem Body.eq_of_callsFirst {body : Body} {identity : String}
    (h : body.callsFirst identity = true) :
    ∃ others, body = .isType (.any (.call identity :: others)) := by
  unfold callsFirst at h
  split at h
  · exact ⟨_, by rw [eq_of_beq h]⟩
  · cases h

/-! ## Runs -/

/-- No other member is asked before the first one has answered. -/
theorem Check.run_any_eq_none {call : String → Value → Option Bool} {identity : String} {v : Value}
    (h : call identity v = none) {others : List Check} :
    (any (.call identity :: others)).run call v = none := by
  rw [run, runAny, run, h]
  rfl

namespace Program

variable {p : Program} {identity : String}

/-- A test that calls itself first comes to no end, whatever other members it has. -/
theorem checkCall_of_callsFirst {body : Body} (hbody : p.body? ⟨identity, .isType⟩ = some body)
    (first : body.callsFirst identity = true) (calls : Nat) (v : Value) :
    p.checkCall calls identity v = none := by
  obtain ⟨others, rfl⟩ := Body.eq_of_callsFirst first
  induction calls with
  | zero => rfl
  | succ calls ih =>
    rw [checkCall, hbody]
    exact Check.run_any_eq_none ih

theorem isType_of_callsFirst {body : Body} (hbody : p.body? ⟨identity, .isType⟩ = some body)
    (first : body.callsFirst identity = true) (v : Value) :
    p.isType identity v = .error .cutOff := by
  have hcall := checkCall_of_callsFirst hbody first (p.steps v) v
  obtain ⟨others, rfl⟩ := Body.eq_of_callsFirst first
  rw [isType, hbody]
  dsimp only
  rw [check, Check.run_any_eq_none hcall]

end Program

namespace Handle

variable {h : Handle} {r : Registry}

/-- Whether what is registered for a handle is a test that calls itself first. -/
def callsFirst (h : Handle) (r : Registry) : Bool :=
  ((h.program r).body? ⟨h.key.identity, .isType⟩).any (·.callsFirst h.key.identity)

theorem checkCall_of_callsFirst (first : h.callsFirst r = true) (calls : Nat) (v : Value) :
    (h.program r).checkCall calls h.key.identity v = none := by
  obtain ⟨body, hbody, first⟩ := (Option.any_eq_true _ _).mp first
  exact Program.checkCall_of_callsFirst hbody first calls v

/-- Of such a test no value is an instance. -/
theorem isType_of_callsFirst (first : h.callsFirst r = true) (v : Value) :
    h.isType r v = false := by
  obtain ⟨body, hbody, first⟩ := (Option.any_eq_true _ _).mp first
  rw [isType, Program.isType_of_callsFirst hbody first]

end Handle

namespace Program

variable {p : Program} {identity : String}

theorem checkCall_of_calling
    (hbody : p.body? ⟨identity, .isType⟩ = some (.calling identity .isType)) (calls : Nat) (v : Value) :
    p.checkCall calls identity v = none := by
  induction calls with
  | zero => rfl
  | succ calls ih =>
    rw [checkCall, hbody]
    exact ih

theorem reportCall_of_calling
    (hbody : p.body? ⟨identity, .typeErrors⟩ = some (.calling identity .typeErrors)) (calls : Nat)
    (base : List PathItem) (v : Value) : p.reportCall calls identity base v = .error .cutOff := by
  induction calls generalizing base with
  | zero => rfl
  | succ calls ih =>
    rw [reportCall, hbody]
    dsimp only [Body.calling]
    rw [Report.runAll, Report.run]
    dsimp only
    rw [ih]
    rfl

theorem transformCall_of_calling {target : Target}
    (hbody : p.body? ⟨identity, target⟩ = some (.calling identity target))
    (changes : target = .jsonEncode ∨ target = .jsonDecode) (calls : Nat) (v : Value) :
    (p.transformCall target calls identity v).stop = some .cutOff := by
  induction calls with
  | zero => rfl
  | succ calls ih =>
    have hrun : (Transform.runAll ⟨p.check, p.revivers, p.transformCall target calls⟩
        [.call identity] v).stop = some .cutOff := by
      rw [Transform.runAll, Transform.run, Changed.andThen, ih]
      exact ih
    rcases changes with rfl | rfl <;> rw [transformCall, hbody] <;> exact hrun

theorem emitCall_of_calling
    (hbody : p.body? ⟨identity, .jsonStringify⟩ = some (.calling identity .jsonStringify))
    (calls : Nat) (v : Value) : p.emitCall calls identity v = .error .cutOff := by
  induction calls with
  | zero => rfl
  | succ calls ih =>
    rw [emitCall, hbody]
    dsimp only [Body.calling]
    rw [Emit.run]
    exact ih

end Program

/-! ## Builds -/

/-- Whether code of a target is compiled for a node at all: plain JSON needs neither encoder nor
decoder. -/
def Target.codes (n : Node) : Target → Bool
  | .isType | .typeErrors => true
  | .jsonEncode | .jsonStringify => n.needsEncode
  | .jsonDecode => n.needsDecode

namespace Language

variable {Code : Type} {L : Language Code} {s : Setting} {b b' : BuildState}

/-- A node whose function is under construction is only called. -/
theorem run_visit_of_defining {compile : Option (Compiler Code)} {site : Site} {id : NodeId}
    {code : Code} (plain : L.plain? (s.arena.node id) = none)
    (own : s.ownFunction (s.arena.node id) = true)
    (defining : L.key (s.arena.node id) ∈ site.defining)
    (hrun : (L.visit s compile site id).run b = .ok (code, b')) :
    code = L.call (s.arena.node id).identity site.path ∧ b' = b := by
  cases compile with
  | none =>
    simp only [visit, plain] at hrun
    cases hrun
  | some compile =>
    simp only [visit, plain, compileAt, own, if_true, define_eq, bind_assoc] at hrun
    rw [StateT.run_bind, run_isDefined_of_mem defining] at hrun
    cases hrun
    exact ⟨rfl, rfl⟩

/-- Where the code of a node is known, and compiling it leaves the build as it was, a build for the
node defines its function and no other. -/
theorem eq_of_run_define {compile : Compiler Code} {n : Node} {code : Code}
    (plain : L.plain? n = none)
    (hcompile : ∀ b code' b', (compile (Site.enter {} (L.key n)) n).run b = .ok (code', b') →
      code' = code ∧ b' = b)
    {done : Unit} (hrun : (L.define s compile {} n).run {} = .ok (done, b')) :
    ∀ f ∈ b'.defined, f = Function.ofBody n.identity (L.toBody code) := by
  rw [define_eq, Build.run_bind_eq_ok] at hrun
  obtain ⟨answer, b₁, hanswer, hrest⟩ := hrun
  obtain ⟨rfl, rfl⟩ : s.registered 0 (L.key n) = answer ∧ { questions := 1 } = b₁ := by
    cases hanswer
    exact ⟨rfl, rfl⟩
  split at hrest
  · cases hrest
    exact fun f hf => absurd hf List.not_mem_nil
  · obtain ⟨code', b₂, hcode, hadd⟩ := Build.run_bind_eq_ok.mp hrest
    rw [entryCode, plain] at hcode
    obtain ⟨rfl, rfl⟩ := hcompile _ _ _ hcode
    cases hadd
    exact fun f hf => List.mem_singleton.mp hf

/-- A build for a node that is compiled as another node of its identity: the other one's function
is taken to be under construction. -/
theorem eq_of_run_define_same {compile : Compiler Code} {child : Site → NodeId → Build Code}
    {id other : NodeId} (plain : L.plain? (s.arena.node id) = none)
    (otherPlain : L.plain? (s.arena.node other) = none)
    (own : s.ownFunction (s.arena.node other) = true)
    (identity : (s.arena.node other).identity = (s.arena.node id).identity)
    (visits : ∃ compile', child = L.visit s compile')
    (same : ∀ site, compile site (s.arena.node id) = child site other) {done : Unit}
    (hrun : (L.define s compile {} (s.arena.node id)).run {} = .ok (done, b')) :
    ∀ f ∈ b'.defined, f = Function.ofBody (s.arena.node id).identity
      (L.toBody (L.call (s.arena.node id).identity [])) := by
  obtain ⟨compile', rfl⟩ := visits
  refine eq_of_run_define plain (fun b code b' hcode => ?_) hrun
  rw [same] at hcode
  have hkey : L.key (s.arena.node other) = L.key (s.arena.node id) :=
    congrArg (FunctionKey.mk · L.target) identity
  rw [← identity]
  exact run_visit_of_defining otherPlain own (hkey ▸ List.mem_cons_self) hcode

end Language

namespace Compile

section StandsFor

variable {a : Arena} {site : Site} {n : Node} {id : NodeId}

/-! A node that stands for another is compiled as that one, by every compiler. -/

theorem checkNode_of_standsFor (h : n.standsFor? = some id) (child : Site → NodeId → Build Check) :
    checkNode a child site n = child site id := by
  unfold Node.standsFor? at h
  split at h <;> cases h <;> simp only [checkNode, *]

theorem reportNode_of_standsFor (h : n.standsFor? = some id) (check : Site → NodeId → Build Check)
    (child : Site → NodeId → Build (List Report)) :
    reportNode a check child site n = child site id := by
  unfold Node.standsFor? at h
  split at h <;> cases h <;> simp only [reportNode, *]

theorem encodeNode_of_standsFor (h : n.standsFor? = some id) (check : Site → NodeId → Build Check)
    (child : Site → NodeId → Build (List Transform)) :
    encodeNode a check child site n = child site id := by
  unfold Node.standsFor? at h
  split at h <;> cases h <;> simp only [encodeNode, *]

theorem decodeNode_of_standsFor {s : Setting} (h : n.standsFor? = some id)
    (child : Site → NodeId → Build (List Transform)) : decodeNode s child site n = child site id := by
  unfold Node.standsFor? at h
  split at h <;> cases h <;> simp only [decodeNode, *]

theorem emitNode_of_standsFor (h : n.standsFor? = some id) (check : Site → NodeId → Build Check)
    (child : Site → NodeId → Build Emit) : emitNode a check child site n = child site id := by
  unfold Node.standsFor? at h
  split at h <;> cases h <;> simp only [emitNode, *]

end StandsFor

/-- **A node that stands for one with a function of its own is compiled to a call of itself**, for
any target that has code for it. -/
theorem eq_calling_of_mem_functions {s : Setting} {id child : NodeId} {target : Target}
    {fs : List Function} (stands : (s.arena.node id).standsFor? = some child)
    (own : s.ownFunction (s.arena.node child) = true)
    (identity : (s.arena.node child).identity = (s.arena.node id).identity)
    (codes : target.codes (s.arena.node id) = true)
    (childCodes : target.codes (s.arena.node child) = true) (h : functions s id target = .ok fs) :
    ∀ f ∈ fs, f = Function.ofBody (s.arena.node id).identity
      (.calling (s.arena.node id).identity target) := by
  have walk : ((defineEntry s (s.arena.node id) target).run {} >>= fun out =>
      pure out.2.defined : Except CompileError (List Function)) = .ok fs := by
    unfold functions at h
    split at h
    · exact (Except.bind_eq_ok.mp h).choose_spec.2
    · exact h
  obtain ⟨⟨done, b⟩, hrun, hpure⟩ := Except.bind_eq_ok.mp walk
  obtain rfl : b.defined = fs := Except.ok.inj hpure
  cases target with
  | isType =>
    have visits : ∃ compile, checkAt s (defineEntry.depth s) = checks.visit s compile := by
      cases defineEntry.depth s <;> exact ⟨_, rfl⟩
    exact Language.eq_of_run_define_same rfl rfl own identity visits
      (fun _ => checkNode_of_standsFor stands _) hrun
  | typeErrors =>
    have visits : ∃ compile, reportAt s (defineEntry.depth s) = reports.visit s compile := by
      cases defineEntry.depth s <;> exact ⟨_, rfl⟩
    exact Language.eq_of_run_define_same rfl rfl own identity visits
      (fun _ => reportNode_of_standsFor stands _ _) hrun
  | jsonEncode =>
    have visits : ∃ compile, encodeAt s (defineEntry.depth s) = encoders.visit s compile := by
      cases defineEntry.depth s <;> exact ⟨_, rfl⟩
    exact Language.eq_of_run_define_same (if_pos codes) (if_pos childCodes) own identity visits
      (fun _ => encodeNode_of_standsFor stands _ _) hrun
  | jsonDecode =>
    have visits : ∃ compile, decodeAt s (defineEntry.depth s) = decoders.visit s compile := by
      cases defineEntry.depth s <;> exact ⟨_, rfl⟩
    exact Language.eq_of_run_define_same (if_pos codes) (if_pos childCodes) own identity visits
      (fun _ => decodeNode_of_standsFor stands _) hrun
  | jsonStringify =>
    have visits : ∃ compile, emitAt s (defineEntry.depth s) = emitters.visit s compile := by
      cases defineEntry.depth s <;> exact ⟨_, rfl⟩
    exact Language.eq_of_run_define_same (if_pos codes) (if_pos childCodes) own identity visits
      (fun _ => emitNode_of_standsFor stands _ _) hrun

end Compile

namespace Engine

variable {e : Engine} {a : Arena} {r : Registry} {handles : List (NodeId × Handle)}

/-- Whatever is built for such a node alone calls itself. -/
theorem Builds.body?_calling {id child : NodeId} (built : e.Builds a r handles)
    (alone : ∀ x ∈ handles, x.1 = id) (stands : (a.node id).standsFor? = some child)
    (own : (e.setting .empty a).ownFunction (a.node child) = true)
    (identity : (a.node child).identity = (a.node id).identity)
    (codes : ∀ x ∈ handles, x.2.key.target.codes (a.node id) = true ∧
      x.2.key.target.codes (a.node child) = true) :
    ∀ x ∈ handles, (x.2.program r).body? x.2.key =
      some (.calling x.2.key.identity x.2.key.target) := by
  have bodies : ∀ f ∈ r.functions, f.body = .calling f.key.identity f.key.target := by
    induction built with
    | fresh => exact fun f hf => absurd hf List.not_mem_nil
    | @build r r' node target h handles past hbuild ih =>
      obtain ⟨rfl, alone⟩ := List.forall_mem_cons.mp alone
      obtain ⟨⟨hcodes, hchild⟩, codes⟩ := List.forall_mem_cons.mp codes
      obtain ⟨rfl, fs, hfs, rfl⟩ := build_eq_ok hbuild
      intro f hf
      rcases Registry.mem_defineAll hf with hf | hf
      · exact ih alone codes f hf
      · have own : (e.setting r a).ownFunction (a.node child) = true := own
        rw [Compile.eq_calling_of_mem_functions stands own identity hcodes hchild hfs f hf]
        cases target <;> rfl
  intro x hx
  obtain ⟨f, hf, hkey, hbody⟩ := Program.exists_body? x.2.revivers (built.compiled.2 x hx).1
  rw [Handle.program, hbody, bodies f hf, hkey]

end Engine

end Typeforge
