/-
# `Typeforge.Proofs.Compiling.Calls` — the functions that code calls

Code names other functions by their identities; a test among other code is always
that of a type, and everything else is called for the target of the code itself.
What a node is compiled to calls known functions only: those that its children
call, and the node's own where the walk has defined it.
-/
import Typeforge.Proofs.Compiling.Code

namespace Typeforge

/-! ## Calls -/

namespace Check

mutual

/-- The identities whose tests a test calls. -/
def calls : Check → List String
  | all checks | any checks => callsAll checks
  | part _ _ check | each _ check | eachKey _ _ check => calls check
  | call identity => [identity]
  | _ => []

def callsAll : List Check → List String
  | [] => []
  | c :: rest => c.calls ++ callsAll rest

end

/-- The keys of the tests that a test calls. -/
def callKeys (c : Check) : List FunctionKey := c.calls.map fun identity => ⟨identity, .isType⟩

end Check

namespace Report

mutual

/-- The keys of the functions that a statement calls. -/
def calls : Report → List FunctionKey
  | expect check _ _ after => check.callKeys ++ callsAll after
  | part _ _ body | each _ body | eachKey _ _ body => callsAll body
  | call identity _ => [⟨identity, .typeErrors⟩]

def callsAll : List Report → List FunctionKey
  | [] => []
  | r :: rest => r.calls ++ callsAll rest

end

end Report

namespace Transform

variable (target : Target)

mutual

/-- The keys of the functions that a change calls, for the target it is made for. -/
def calls : Transform → List FunctionKey
  | part _ _ body | each _ body | eachKey _ _ body => callsAll body
  | tag _ arms => callsTagged arms
  | untag arms => callsArms arms
  | call identity => [⟨identity, target⟩]
  | _ => []

def callsAll : List Transform → List FunctionKey
  | [] => []
  | t :: rest => calls t ++ callsAll rest

def callsTagged : List (Check × List Transform) → List FunctionKey
  | [] => []
  | (check, body) :: rest => check.callKeys ++ callsAll body ++ callsTagged rest

def callsArms : List (List Transform) → List FunctionKey
  | [] => []
  | body :: rest => callsAll body ++ callsArms rest

end

end Transform

namespace Emit

mutual

/-- The keys of the functions that an emitter calls. -/
def calls : Emit → List FunctionKey
  | object members index => callsMembers members ++ callsIndex index
  | array item => item.calls
  | tuple elements rest => callsAll elements ++ callsRest rest
  | union _ arms => callsArms arms
  | call identity => [⟨identity, .jsonStringify⟩]
  | _ => []

def callsAll : List Emit → List FunctionKey
  | [] => []
  | e :: rest => e.calls ++ callsAll rest

def callsMembers : List (MemberEmit Emit) → List FunctionKey
  | [] => []
  | ⟨_, _, emit⟩ :: rest => emit.calls ++ callsMembers rest

def callsIndex : Option (KeyFilter × Emit) → List FunctionKey
  | none => []
  | some (_, emit) => emit.calls

def callsRest : Option Emit → List FunctionKey
  | none => []
  | some emit => emit.calls

def callsArms : List (Check × Emit) → List FunctionKey
  | [] => []
  | (check, emit) :: rest => check.callKeys ++ emit.calls ++ callsArms rest

end

end Emit

/-- The keys of the functions that a body calls. -/
def Body.calls : Body → List FunctionKey
  | isType check => check.callKeys
  | typeErrors body => Report.callsAll body
  | jsonEncode body => Transform.callsAll .jsonEncode body
  | jsonDecode body => Transform.callsAll .jsonDecode body
  | jsonStringify emit => emit.calls

/-- The keys of the functions that a function calls, anywhere in its code. -/
def Function.calls (f : Function) : List FunctionKey := f.body.calls

/-! ## Calls of known functions -/

/-- All of some keys are known. -/
def Keys.Cover (known : Keys) (keys : List FunctionKey) : Prop := ∀ key ∈ keys, known key

namespace Keys

variable {known : Keys} {keys others : List FunctionKey}

theorem Cover.nil : known.Cover [] := fun _ h => absurd h List.not_mem_nil

theorem Cover.singleton {key : FunctionKey} (h : known key) : known.Cover [key] := by
  intro k hk
  rwa [List.mem_singleton.mp hk]

theorem cover_append : known.Cover (keys ++ others) ↔ known.Cover keys ∧ known.Cover others := by
  constructor
  · intro h
    exact ⟨fun k hk => h k (List.mem_append_left _ hk), fun k hk => h k (List.mem_append_right _ hk)⟩
  · rintro ⟨hkeys, hothers⟩ k hk
    rcases List.mem_append.mp hk with hk | hk
    · exact hkeys k hk
    · exact hothers k hk

theorem Cover.append (h : known.Cover keys) (h' : known.Cover others) :
    known.Cover (keys ++ others) := cover_append.mpr ⟨h, h'⟩

end Keys

section Covers

variable {known : Keys}

/-! ### Tests -/

namespace Check

variable {c : Check} {cs : List Check}

theorem cover_callKeys : known.Cover c.callKeys ↔ ∀ i ∈ c.calls, known ⟨i, .isType⟩ :=
  List.forall_mem_map

theorem cover_callsAll (h : ∀ c ∈ cs, known.Cover c.callKeys) :
    ∀ i ∈ callsAll cs, known ⟨i, .isType⟩ := by
  induction cs with
  | nil => exact fun _ hi => absurd hi List.not_mem_nil
  | cons c cs ih =>
    intro i hi
    rcases List.mem_append.mp hi with hi | hi
    · exact cover_callKeys.mp (h c List.mem_cons_self) i hi
    · exact ih (fun d hd => h d (List.mem_cons_of_mem c hd)) i hi

theorem cover_any (h : ∀ c ∈ cs, known.Cover c.callKeys) : known.Cover (any cs).callKeys :=
  cover_callKeys.mpr (cover_callsAll h)

theorem cover_allOf (h : ∀ c ∈ cs, known.Cover c.callKeys) : known.Cover (allOf cs).callKeys := by
  have hfilter : ∀ c ∈ cs.filter (fun c => !c.isAlways), known.Cover c.callKeys :=
    fun c hc => h c (List.mem_of_mem_filter hc)
  unfold allOf
  split
  · exact .nil
  · rename_i c hone
    rw [hone] at hfilter
    exact hfilter c List.mem_cons_self
  · exact cover_callKeys.mpr (cover_callsAll hfilter)

theorem cover_unlessAlways {wrap : Check → Check} (hwrap : ∀ c, (wrap c).calls = c.calls)
    (h : known.Cover c.callKeys) : ∀ d ∈ Compile.unlessAlways c wrap, known.Cover d.callKeys := by
  intro d hd
  unfold Compile.unlessAlways at hd
  split at hd
  · exact absurd hd List.not_mem_nil
  · rw [List.mem_singleton.mp hd, callKeys, hwrap]
    exact h

theorem cover_tupleShape (fixed : Nat) (more : Bool) :
    ∀ c ∈ Compile.tupleShape fixed more, known.Cover c.callKeys := by
  intro c hc
  unfold Compile.tupleShape at hc
  split at hc
  · rw [List.mem_singleton.mp hc]
    exact .nil
  · rcases List.mem_pair.mp hc with rfl | rfl <;> exact .nil

theorem callKeys_of_check? {x : Atom} (h : x.check? = some c) : c.callKeys = [] := by
  cases x <;> simp only [Atom.check?, Option.some.injEq, reduceCtorEq] at h <;> subst h <;> rfl

end Check

namespace Compile

variable {a : Arena} {n : Node}

theorem cover_unionCheck {child : NodeId → Check → Prop} {members : List NodeId} {c : Check}
    (hchild : ∀ id c, child id c → known.Cover c.callKeys) (h : UnionCheck child members c) :
    known.Cover c.callKeys := by
  cases h with
  | always => exact .nil
  | arms h =>
    refine Check.cover_any fun c hc => ?_
    obtain ⟨id, -, hid⟩ := exists_of_forall₂_right h hc
    exact hchild id c hid

/-- The test of a node calls what the tests of its children call. -/
theorem cover_checkNode {child : NodeId → Check → Prop} {c : Check}
    (hchild : ∀ id c, child id c → known.Cover c.callKeys) (h : CheckNode a child n c) :
    known.Cover c.callKeys := by
  cases h with
  | atom _ hc =>
    rw [Check.callKeys_of_check? hc]
    exact .nil
  | array _ hc =>
    refine Check.cover_allOf (List.forall_mem_cons.mpr ⟨.nil, ?_⟩)
    exact Check.cover_unlessAlways (fun _ => rfl) (hchild _ _ hc)
  | property _ hc =>
    exact Check.cover_allOf (Check.cover_unlessAlways (fun _ => rfl) (hchild _ _ hc))
  | standsFor _ hc => exact hchild _ _ hc
  | object _ hdeclared hothers =>
    refine Check.cover_allOf (List.forall_mem_append.mpr ⟨List.forall_mem_cons.mpr ⟨.nil, ?_⟩, ?_⟩)
    · intro c hc
      obtain ⟨p, -, hp⟩ := exists_of_forall₂_right hdeclared hc
      exact hchild p.id c hp
    · cases hothers with
      | absent => exact fun _ hc => absurd hc List.not_mem_nil
      | present _ hc => exact Check.cover_unlessAlways (fun _ => rfl) (hchild _ _ hc)
  | tuple _ _ helements hothers =>
    refine Check.cover_allOf (List.forall_mem_append.mpr
      ⟨List.forall_mem_append.mpr ⟨Check.cover_tupleShape _ _, ?_⟩, ?_⟩)
    · intro c hc
      obtain ⟨out, hout, hc⟩ := List.mem_flatten.mp hc
      obtain ⟨x, -, d, hd, rfl⟩ := exists_of_forall₂_right helements hout
      refine Check.cover_unlessAlways (fun _ => ?_) (hchild _ _ hd) c hc
      rfl
    · cases hothers with
      | absent => exact fun _ hc => absurd hc List.not_mem_nil
      | present _ hc => exact Check.cover_unlessAlways (fun _ => rfl) (hchild _ _ hc)
  | union _ hc => exact cover_unionCheck hchild hc

theorem cover_checkAt {depth : Nat} {id : NodeId} {c : Check} (h : CheckAt a known depth id c) :
    known.Cover c.callKeys := by
  induction depth generalizing id c with
  | zero =>
    cases h with
    | plain h => cases h
    | called _ hknown => exact .singleton hknown
    | inPlace _ h => exact h.elim
  | succ depth ih =>
    cases h with
    | plain h => cases h
    | called _ hknown => exact .singleton hknown
    | inPlace _ h => exact cover_checkNode (fun _ _ => ih) h

end Compile

/-! ### Reports -/

namespace Report

variable {body : List Report}

theorem cover_callsAll (h : ∀ r ∈ body, known.Cover r.calls) : known.Cover (callsAll body) := by
  induction body with
  | nil => exact .nil
  | cons r body ih =>
    exact .append (h r List.mem_cons_self) (ih fun s hs => h s (List.mem_cons_of_mem r hs))

theorem callsAll_append (others : List Report) :
    callsAll (body ++ others) = callsAll body ++ callsAll others := by
  induction body with
  | nil => rfl
  | cons r body ih => rw [List.cons_append, callsAll, callsAll, ih, List.append_assoc]

theorem cover_append {others : List Report} (h : known.Cover (callsAll body))
    (h' : known.Cover (callsAll others)) : known.Cover (callsAll (body ++ others)) := by
  rw [callsAll_append]
  exact .append h h'

theorem cover_flatten {bodies : List (List Report)}
    (h : ∀ body ∈ bodies, known.Cover (callsAll body)) :
    known.Cover (callsAll bodies.flatten) := by
  induction bodies with
  | nil => exact .nil
  | cons body bodies ih =>
    exact cover_append (h body List.mem_cons_self) (ih fun b hb => h b (List.mem_cons_of_mem body hb))

theorem cover_unlessEmpty {wrap : List Report → Report}
    (hwrap : ∀ body, (wrap body).calls = callsAll body) (h : known.Cover (callsAll body)) :
    known.Cover (callsAll (Compile.unlessEmpty body wrap)) := by
  unfold Compile.unlessEmpty
  split
  · exact .nil
  · rw [callsAll, hwrap]
    exact .append h .nil

theorem cover_expect {c : Check} {path : List PathSegment} {expected : String}
    (hc : known.Cover c.callKeys) (h : known.Cover (callsAll body)) :
    known.Cover (callsAll [.expect c path expected body]) := .append (.append hc h) .nil

theorem cover_expectation {c : Check} {path : List PathSegment} {expected : String}
    (hc : known.Cover c.callKeys) : known.Cover (callsAll (Compile.expectation c path expected)) := by
  unfold Compile.expectation
  split
  · exact .nil
  · exact cover_expect hc .nil

end Report

namespace Compile

variable {a : Arena} {n : Node}

/-- The report of a node calls what the tests and reports of its children call. -/
theorem cover_reportNode {check : NodeId → Check → Prop} {child : Site → NodeId → List Report → Prop}
    {site : Site} {body : List Report} (hcheck : ∀ id c, check id c → known.Cover c.callKeys)
    (hchild : ∀ site id body, child site id body → known.Cover (Report.callsAll body))
    (h : ReportNode a check child site n body) : known.Cover (Report.callsAll body) := by
  cases h with
  | atom _ hc =>
    refine Report.cover_expectation ?_
    rw [Check.callKeys_of_check? hc]
    exact .nil
  | array _ hbody =>
    exact Report.cover_expect .nil (Report.cover_unlessEmpty (fun _ => rfl) (hchild _ _ _ hbody))
  | property _ hbody => exact Report.cover_unlessEmpty (fun _ => rfl) (hchild _ _ _ hbody)
  | standsFor _ hbody => exact hchild _ _ _ hbody
  | object _ hdeclared hothers =>
    refine Report.cover_expect .nil (Report.cover_append (Report.cover_flatten ?_) ?_)
    · intro body hbody
      obtain ⟨p, -, hp⟩ := exists_of_forall₂_right hdeclared hbody
      exact hchild _ _ _ hp
    · cases hothers with
      | absent => exact .nil
      | present _ hbody => exact Report.cover_unlessEmpty (fun _ => rfl) (hchild _ _ _ hbody)
  | tuple _ _ helements hothers =>
    refine Report.cover_expect (Check.cover_allOf (Check.cover_tupleShape _ _))
      (Report.cover_append (Report.cover_flatten ?_) ?_)
    · intro out hout
      obtain ⟨x, -, body, hbody, rfl⟩ := exists_of_forall₂_right helements hout
      exact Report.cover_unlessEmpty (fun _ => rfl) (hchild _ _ _ hbody)
    · cases hothers with
      | absent => exact .nil
      | present _ hbody => exact Report.cover_unlessEmpty (fun _ => rfl) (hchild _ _ _ hbody)
  | union _ hc => exact Report.cover_expectation (cover_unionCheck hcheck hc)

theorem cover_reportAt {depth : Nat} {site : Site} {id : NodeId} {body : List Report}
    (h : ReportAt a known depth site id body) : known.Cover (Report.callsAll body) := by
  induction depth generalizing site id body with
  | zero =>
    cases h with
    | plain h => cases h
    | called _ hknown => exact .singleton hknown
    | inPlace _ h => exact h.elim
  | succ depth ih =>
    cases h with
    | plain h => cases h
    | called _ hknown => exact .singleton hknown
    | inPlace _ h => exact cover_reportNode (fun _ _ => cover_checkAt) (fun _ _ _ => ih) h

end Compile

/-! ### Encoders and decoders -/

namespace Transform

variable {target : Target} {body : List Transform}

theorem callsAll_append (others : List Transform) :
    callsAll target (body ++ others) = callsAll target body ++ callsAll target others := by
  induction body with
  | nil => rfl
  | cons t body ih => rw [List.cons_append, callsAll, callsAll, ih, List.append_assoc]

theorem cover_append {others : List Transform} (h : known.Cover (callsAll target body))
    (h' : known.Cover (callsAll target others)) :
    known.Cover (callsAll target (body ++ others)) := by
  rw [callsAll_append]
  exact .append h h'

theorem cover_flatten {bodies : List (List Transform)}
    (h : ∀ body ∈ bodies, known.Cover (callsAll target body)) :
    known.Cover (callsAll target bodies.flatten) := by
  induction bodies with
  | nil => exact .nil
  | cons body bodies ih =>
    exact cover_append (h body List.mem_cons_self) (ih fun b hb => h b (List.mem_cons_of_mem body hb))

theorem cover_unlessEmpty {wrap : List Transform → Transform}
    (hwrap : ∀ body, (wrap body).calls target = callsAll target body)
    (h : known.Cover (callsAll target body)) :
    known.Cover (callsAll target (Compile.unlessEmpty body wrap)) := by
  unfold Compile.unlessEmpty
  split
  · exact .nil
  · rw [callsAll, hwrap]
    exact .append h .nil

/-- Changes that call nothing. -/
theorem cover_silent (h : ∀ t ∈ body, t.calls target = []) : known.Cover (callsAll target body) := by
  induction body with
  | nil => exact .nil
  | cons t body ih =>
    rw [callsAll, h t List.mem_cons_self]
    exact ih fun s hs => h s (List.mem_cons_of_mem t hs)

theorem cover_callsTagged {arms : List (Check × List Transform)}
    (h : ∀ arm ∈ arms, known.Cover arm.1.callKeys ∧ known.Cover (callsAll target arm.2)) :
    known.Cover (callsTagged target arms) := by
  induction arms with
  | nil => exact .nil
  | cons arm arms ih =>
    obtain ⟨hcheck, hbody⟩ := h arm List.mem_cons_self
    exact .append (.append hcheck hbody) (ih fun x hx => h x (List.mem_cons_of_mem arm hx))

theorem cover_callsArms {arms : List (List Transform)}
    (h : ∀ body ∈ arms, known.Cover (callsAll target body)) :
    known.Cover (callsArms target arms) := by
  induction arms with
  | nil => exact .nil
  | cons body arms ih =>
    exact .append (h body List.mem_cons_self) (ih fun x hx => h x (List.mem_cons_of_mem body hx))

end Transform

namespace Compile

variable {a : Arena} {n : Node} {target : Target} {child : NodeId → List Transform → Prop}
  {body : List Transform}

theorem cover_objectTransform {props : List NodeId} {index : Option NodeId}
    (hchild : ∀ id body, child id body → known.Cover (Transform.callsAll target body))
    (h : ObjectTransform a child props index body) :
    known.Cover (Transform.callsAll target body) := by
  obtain ⟨hdeclared, hothers⟩ := h
  refine Transform.cover_append (Transform.cover_flatten fun body hbody => ?_) ?_
  · obtain ⟨p, -, hp⟩ := exists_of_forall₂_right hdeclared hbody
    exact hchild _ _ hp
  · cases hothers with
    | absent => exact .nil
    | present _ hbody => exact Transform.cover_unlessEmpty (fun _ => rfl) (hchild _ _ hbody)

theorem cover_tupleTransform {before : NodeId → Nat → List Transform} {members : List NodeId}
    (hbefore : ∀ id i, known.Cover (Transform.callsAll target (before id i)))
    (hchild : ∀ id body, child id body → known.Cover (Transform.callsAll target body))
    (h : TupleTransform a before child members body) :
    known.Cover (Transform.callsAll target body) := by
  obtain ⟨_, helements, hothers⟩ := h
  refine Transform.cover_append (Transform.cover_flatten fun out hout => ?_) ?_
  · obtain ⟨x, -, body, hbody, rfl⟩ := exists_of_forall₂_right helements hout
    exact Transform.cover_append (hbefore _ _)
      (Transform.cover_unlessEmpty (fun _ => rfl) (hchild _ _ hbody))
  · cases hothers with
    | absent => exact .nil
    | present _ hbody => exact Transform.cover_unlessEmpty (fun _ => rfl) (hchild _ _ hbody)

theorem cover_codecs {codec : Option Codec} {make : Codec → Transform}
    (hmake : ∀ codec, (make codec).calls target = []) :
    known.Cover (Transform.callsAll target (codec.toList.map make)) := by
  refine Transform.cover_silent fun t ht => ?_
  obtain ⟨codec, -, rfl⟩ := List.mem_map.mp ht
  exact hmake codec

/-- The encoder of a node calls what the tests and encoders of its children call. -/
theorem cover_encodeNode {check : NodeId → Check → Prop}
    (hcheck : ∀ id c, check id c → known.Cover c.callKeys)
    (hchild : ∀ id body, child id body → known.Cover (Transform.callsAll target body))
    (h : EncodeNode a check child n body) : known.Cover (Transform.callsAll target body) := by
  cases h with
  | atom => exact cover_codecs fun _ => rfl
  | array _ hbody | property _ hbody =>
    exact Transform.cover_unlessEmpty (fun _ => rfl) (hchild _ _ hbody)
  | standsFor _ hbody => exact hchild _ _ hbody
  | object _ hbody => exact cover_objectTransform hchild hbody
  | tuple _ hbody => exact cover_tupleTransform (fun _ _ => .nil) hchild hbody
  | union _ harms =>
    refine .append (Transform.cover_callsTagged fun arm harm => ?_) .nil
    obtain ⟨id, -, hc, hbody⟩ := exists_of_forall₂_right harms harm
    exact ⟨hcheck _ _ hc, hchild _ _ hbody⟩

/-- The decoder of a node calls what the decoders of its children call. -/
theorem cover_decodeNode
    (hchild : ∀ id body, child id body → known.Cover (Transform.callsAll target body))
    (h : DecodeNode a child n body) : known.Cover (Transform.callsAll target body) := by
  cases h with
  | atom => exact cover_codecs fun _ => rfl
  | array _ hbody | property _ hbody =>
    exact Transform.cover_unlessEmpty (fun _ => rfl) (hchild _ _ hbody)
  | standsFor _ hbody => exact hchild _ _ hbody
  | object _ hbody =>
    refine Transform.cover_append (cover_objectTransform hchild hbody)
      (Transform.cover_silent fun t ht => ?_)
    obtain ⟨name, -, rfl⟩ := List.mem_map.mp ht
    rfl
  | tuple _ hbody =>
    refine cover_tupleTransform (fun id i => Transform.cover_silent fun t ht => ?_) hchild hbody
    unfold absence at ht
    split at ht
    · rw [List.mem_singleton.mp ht]
      rfl
    · exact absurd ht List.not_mem_nil
  | union _ harms =>
    refine .append (Transform.cover_callsArms fun body hbody => ?_) .nil
    obtain ⟨id, -, hid⟩ := exists_of_forall₂_right harms hbody
    exact hchild _ _ hid

theorem nil_of_encoders_plain? {body : List Transform} (h : encoders.plain? n = some body) :
    body = [] := by
  unfold encoders at h
  dsimp only at h
  split at h <;> cases h
  rfl

theorem nil_of_decoders_plain? {body : List Transform} (h : decoders.plain? n = some body) :
    body = [] := by
  unfold decoders at h
  dsimp only at h
  split at h <;> cases h
  rfl

theorem cover_encodeAt {depth : Nat} {id : NodeId} {body : List Transform}
    (h : EncodeAt a known depth id body) : known.Cover (Transform.callsAll .jsonEncode body) := by
  induction depth generalizing id body with
  | zero =>
    cases h with
    | plain h => rw [nil_of_encoders_plain? h]; exact .nil
    | called _ hknown => exact .singleton hknown
    | inPlace _ h => exact h.elim
  | succ depth ih =>
    cases h with
    | plain h => rw [nil_of_encoders_plain? h]; exact .nil
    | called _ hknown => exact .singleton hknown
    | inPlace _ h => exact cover_encodeNode (fun _ _ => cover_checkAt) (fun _ _ => ih) h

theorem cover_decodeAt {depth : Nat} {id : NodeId} {body : List Transform}
    (h : DecodeAt a known depth id body) : known.Cover (Transform.callsAll .jsonDecode body) := by
  induction depth generalizing id body with
  | zero =>
    cases h with
    | plain h => rw [nil_of_decoders_plain? h]; exact .nil
    | called _ hknown => exact .singleton hknown
    | inPlace _ h => exact h.elim
  | succ depth ih =>
    cases h with
    | plain h => rw [nil_of_decoders_plain? h]; exact .nil
    | called _ hknown => exact .singleton hknown
    | inPlace _ h => exact cover_decodeNode (fun _ _ => ih) h

end Compile

/-! ### Emitters -/

namespace Emit

theorem cover_callsAll {emits : List Emit} (h : ∀ e ∈ emits, known.Cover e.calls) :
    known.Cover (callsAll emits) := by
  induction emits with
  | nil => exact .nil
  | cons e emits ih =>
    exact .append (h e List.mem_cons_self) (ih fun x hx => h x (List.mem_cons_of_mem e hx))

theorem cover_callsMembers {members : List (MemberEmit Emit)}
    (h : ∀ m ∈ members, known.Cover m.emit.calls) : known.Cover (callsMembers members) := by
  induction members with
  | nil => exact .nil
  | cons m members ih =>
    exact .append (h m List.mem_cons_self) (ih fun x hx => h x (List.mem_cons_of_mem m hx))

theorem cover_callsArms {arms : List (Check × Emit)}
    (h : ∀ arm ∈ arms, known.Cover arm.1.callKeys ∧ known.Cover arm.2.calls) :
    known.Cover (callsArms arms) := by
  induction arms with
  | nil => exact .nil
  | cons arm arms ih =>
    obtain ⟨hcheck, hemit⟩ := h arm List.mem_cons_self
    exact .append (.append hcheck hemit) (ih fun x hx => h x (List.mem_cons_of_mem arm hx))

end Emit

namespace Compile

variable {a : Arena} {n : Node}

/-- The emitter of a node calls what the tests and emitters of its children call. -/
theorem cover_emitNode {check : NodeId → Check → Prop} {child : NodeId → Emit → Prop} {emit : Emit}
    (hcheck : ∀ id c, check id c → known.Cover c.callKeys)
    (hchild : ∀ id emit, child id emit → known.Cover emit.calls)
    (h : EmitNode a check child n emit) : known.Cover emit.calls := by
  cases h with
  | atom =>
    unfold atomEmit
    split <;> exact .nil
  | array _ hemit =>
    rw [Emit.calls]
    exact hchild _ _ hemit
  | property _ hemit => exact hchild _ _ hemit
  | standsFor _ hemit => exact hchild _ _ hemit
  | object _ hmembers hothers =>
    refine .append (Emit.cover_callsMembers fun m hm => ?_) ?_
    · obtain ⟨p, -, emit, hemit, rfl⟩ := exists_of_forall₂_right hmembers hm
      exact hchild _ _ hemit
    · cases hothers with
      | absent => exact .nil
      | present _ hemit => exact hchild _ _ hemit
  | tuple _ _ helements hothers =>
    refine .append (Emit.cover_callsAll fun e he => ?_) ?_
    · obtain ⟨x, -, hemit⟩ := exists_of_forall₂_right helements he
      exact hchild _ _ hemit
    · cases hothers with
      | absent => exact .nil
      | present _ hemit => exact hchild _ _ hemit
  | union _ harms =>
    refine Emit.cover_callsArms fun arm harm => ?_
    obtain ⟨id, -, hc, hemit⟩ := exists_of_forall₂_right harms harm
    exact ⟨hcheck _ _ hc, hchild _ _ hemit⟩

theorem json_of_emitters_plain? {emit : Emit} (h : emitters.plain? n = some emit) :
    emit = .json := by
  unfold emitters at h
  dsimp only at h
  split at h <;> cases h
  rfl

theorem cover_emitAt {depth : Nat} {id : NodeId} {emit : Emit} (h : EmitAt a known depth id emit) :
    known.Cover emit.calls := by
  induction depth generalizing id emit with
  | zero =>
    cases h with
    | plain h => rw [json_of_emitters_plain? h]; exact .nil
    | called _ hknown => exact .singleton hknown
    | inPlace _ h => exact h.elim
  | succ depth ih =>
    cases h with
    | plain h => rw [json_of_emitters_plain? h]; exact .nil
    | called _ hknown => exact .singleton hknown
    | inPlace _ h => exact cover_emitNode (fun _ _ => cover_checkAt) (fun _ _ => ih) h

/-! ### Functions -/

/-- **A function of a node calls known functions only.** -/
theorem FunctionOf.cover_calls {limit : Nat} {id : NodeId} {f : Function}
    (h : FunctionOf a known limit id f) :
    known.Cover f.calls := by
  cases h with
  | isType _ h =>
    cases h with
    | plain h => cases h
    | inPlace _ h => exact cover_checkNode (fun _ _ => cover_checkAt) h
  | typeErrors _ _ _ h =>
    cases h with
    | plain h => cases h
    | inPlace _ h => exact cover_reportNode (fun _ _ => cover_checkAt) (fun _ _ _ => cover_reportAt) h
  | jsonEncode _ h =>
    cases h with
    | plain h => rw [nil_of_encoders_plain? h]; exact .nil
    | inPlace _ h => exact cover_encodeNode (fun _ _ => cover_checkAt) (fun _ _ => cover_encodeAt) h
  | jsonDecode _ h =>
    cases h with
    | plain h => rw [nil_of_decoders_plain? h]; exact .nil
    | inPlace _ h => exact cover_decodeNode (fun _ _ => cover_decodeAt) h
  | jsonStringify _ h =>
    cases h with
    | plain h => rw [json_of_emitters_plain? h]; exact .nil
    | inPlace _ h => exact cover_emitNode (fun _ _ => cover_checkAt) (fun _ _ => cover_emitAt) h

/-- The body of a function of a node is for the target of its key. -/
theorem FunctionOf.target_eq {limit : Nat} {id : NodeId} {f : Function}
    (h : FunctionOf a known limit id f) :
    f.body.target = f.key.target := by
  cases h <;> rfl

end Compile

end Covers

end Typeforge
