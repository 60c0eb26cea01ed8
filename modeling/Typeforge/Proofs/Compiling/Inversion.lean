/-
# `Typeforge.Proofs.Compiling.Inversion` — compilers produce the code they should

Every compiler of nodes yields code in the relation of its language to the
node, and so does every walk.  A build therefore only ever adds functions of
nodes to the functions there are.

The proofs follow the compilers line by line.  What a child's code relies on
is known when the child is compiled and still known at the end, which is what
the rule for sequences asks for.
-/
import Typeforge.Proofs.Compiling.Code

namespace Typeforge

namespace Compile

/-! ## Compilers of nodes -/

section Nodes

/-- A compiler of the nodes below gives code in a relation, which more known functions do not
break. -/
structure Child {Code : Type} (s : Setting) (Good : Keys → Function → Prop)
    (child : Site → NodeId → Build Code) (R : Keys → Site → NodeId → Code → Prop) : Prop where
  mono : ∀ site id code, Monotone (R · site id code)
  yields : ∀ site id, Yields s Good site.defining (child site id) (R · site id)

variable {s : Setting} {Good : Keys → Function → Prop} {a : Arena} {n : Node} {site : Site}

section Checks

variable {child : Site → NodeId → Build Check} {R : Keys → NodeId → Check → Prop}

theorem yields_unionChecks (h : Child s Good child fun known _ => R known) (members : List NodeId) :
    Yields s Good site.defining (unionChecks (child site) members) fun known arms =>
      match arms with
      | some cs => List.Forall₂ (R known) members cs
      | none => ∃ id ∈ members, ∃ c, R known id c ∧ c.isAlways = true := by
  induction members with
  | nil => exact .pure fun _ => .nil
  | cons id rest ih =>
    refine .bind (h.yields site id) (h.mono site id) fun c => ?_
    split
    · rename_i halways
      exact .pure fun _ hc => ⟨id, List.mem_cons_self, c, hc, halways⟩
    · refine .bind ih (fun arms => ?_) fun arms => ?_
      · cases arms with
        | some cs => exact fun _ _ hle => List.Forall₂.imp fun id c => h.mono site id c hle
        | none =>
          exact fun _ _ hle ⟨id, mem, c, hc, hal⟩ => ⟨id, mem, c, h.mono site id c hle hc, hal⟩
      · refine .pure fun _ harms hc => ?_
        cases arms with
        | some cs => exact .cons hc harms
        | none =>
          obtain ⟨id', mem, c', hc', hal⟩ := harms
          exact ⟨id', List.mem_cons_of_mem _ mem, c', hc', hal⟩

theorem yields_unionCheck (h : Child s Good child fun known _ => R known) (members : List NodeId) :
    Yields s Good site.defining (unionCheck (child site) members)
      fun known c => UnionCheck (R known) members c := by
  refine .bind (yields_unionChecks h members) (fun arms => ?_) fun arms => ?_
  · cases arms with
    | some cs => exact fun _ _ hle => List.Forall₂.imp fun id c => h.mono site id c hle
    | none =>
      exact fun _ _ hle ⟨id, mem, c, hc, hal⟩ => ⟨id, mem, c, h.mono site id c hle hc, hal⟩
  · refine .pure fun known harms => ?_
    cases arms with
    | some cs => exact .arms harms
    | none =>
      obtain ⟨id, mem, c, hc, hal⟩ := harms
      exact .always mem hc hal

theorem yields_objectCheck (h : Child s Good child fun known _ => R known) {props : List NodeId}
    {index : Option NodeId} {className : Option String}
    (hn : n.shape = .object props index className) :
    Yields s Good site.defining (objectCheck a child site props index)
      fun known c => CheckNode a (R known) n c := by
  unfold objectCheck
  refine .mapM_bind (fun p => h.mono site (Arena.Property.id p)) (fun p _ => h.yields site p.id)
    fun declared => ?_
  split
  · rename_i id filter hindex
    refine .bind (h.yields site.loop id) (h.mono site id) fun c => ?_
    rw [pure_bind]
    exact .pure fun _ hc hdeclared => .object hn hdeclared (.present hindex hc)
  · rename_i hindex
    rw [pure_bind]
    exact .pure fun _ hdeclared => .object hn hdeclared (.absent hindex)

theorem yields_tupleCheck (h : Child s Good child fun known _ => R known) {members : List NodeId}
    (hn : n.shape = .tuple members) :
    Yields s Good site.defining (tupleCheck a child site members)
      fun known c => CheckNode a (R known) n c := by
  rcases hsplit : a.splitTuple members with ⟨fixed, rest⟩
  simp only [tupleCheck, hsplit]
  refine .mapM_bind (R := fun (x : NodeId × Nat) known out => ∃ c, R known x.1 c ∧
      out = unlessAlways c (.part (.element x.2) (a.node x.1).optional))
    (fun x _ _ _ hle ⟨c, hc, hout⟩ => ⟨c, h.mono site x.1 c hle hc, hout⟩)
    (fun x _ => ?_) fun elements => ?_
  · exact .bind (h.yields _ x.1) (h.mono site x.1) fun c => .pure fun _ hc => ⟨c, hc, rfl⟩
  cases rest with
  | some id =>
    refine .bind (h.yields site.loop id) (h.mono site id) fun c => ?_
    rw [pure_bind]
    exact .pure fun _ hc helements => .tuple hn hsplit helements (.present rfl hc)
  | none =>
    exact .pure fun _ helements => .tuple hn hsplit helements (.absent rfl)

theorem yields_checkNode (h : Child s Good child fun known _ => R known) (site : Site) (n : Node) :
    Yields s Good site.defining (checkNode a child site n)
      fun known c => CheckNode a (R known) n c := by
  cases hn : n.shape <;> simp only [checkNode, hn]
  case atom x =>
    cases hx : x.check? with
    | some c => exact .pure fun _ => .atom hn hx
    | none => exact .throw
  case array item =>
    exact .bind (h.yields site.loop item) (h.mono site item) fun c =>
      .pure fun _ hc => .array hn hc
  case property name id =>
    exact .bind (h.yields (site.part (.member name)) id) (h.mono site id) fun c =>
      .pure fun _ hc => .property hn hc
  case tupleMember id | indexSignature _ id | rest id | parameter _ id _ =>
    exact (h.yields site id).imp fun _ _ hc => .standsFor (by simp only [Node.standsFor?, hn]) hc
  case promise _ => exact .throw
  case object props index className => exact yields_objectCheck h hn
  case tuple members => exact yields_tupleCheck h hn
  case union members => exact (yields_unionCheck h members).imp fun _ _ hc => .union hn hc
  case function _ => exact .throw

end Checks

variable {check : Site → NodeId → Build Check} {C : Keys → NodeId → Check → Prop}

section Reports

variable {child : Site → NodeId → Build (List Report)}
  {R : Keys → Site → NodeId → List Report → Prop}

theorem yields_objectReport (h : Child s Good child R) {props : List NodeId} {index : Option NodeId}
    {className : Option String} (hn : n.shape = .object props index className) :
    Yields s Good site.defining (objectReport a child site props index className)
      fun known body => ReportNode a (C known) (R known) site n body := by
  unfold objectReport
  refine .mapM_bind (fun p => h.mono site (Arena.Property.id p)) (fun p _ => h.yields site p.id)
    fun declared => ?_
  split
  · rename_i id filter hindex
    refine .bind (h.yields site.loop id) (h.mono site.loop id) fun body => ?_
    rw [pure_bind]
    exact .pure fun _ hbody hdeclared => .object hn hdeclared (.present hindex hbody)
  · rename_i hindex
    rw [pure_bind]
    exact .pure fun _ hdeclared => .object hn hdeclared (.absent hindex)

theorem yields_tupleReport (h : Child s Good child R) {members : List NodeId} (hn : n.shape = .tuple members) :
    Yields s Good site.defining (tupleReport a child site members)
      fun known body => ReportNode a (C known) (R known) site n body := by
  rcases hsplit : a.splitTuple members with ⟨fixed, rest⟩
  simp only [tupleReport, hsplit]
  refine .mapM_bind (R := fun (x : NodeId × Nat) known out =>
      ∃ body, R known (site.part (.element x.2)) x.1 body ∧
        out = unlessEmpty body (.part (.element x.2) (a.node x.1).optional))
    (fun x _ _ _ hle ⟨body, hbody, hout⟩ => ⟨body, h.mono _ x.1 body hle hbody, hout⟩)
    (fun x _ => ?_) fun elements => ?_
  · exact .bind (h.yields (site.part (.element x.2)) x.1) (h.mono _ x.1) fun body =>
      .pure fun _ hbody => ⟨body, hbody, rfl⟩
  cases rest with
  | some id =>
    refine .bind (h.yields site.loop id) (h.mono site.loop id) fun body => ?_
    rw [pure_bind]
    exact .pure fun _ hbody helements => .tuple hn hsplit helements (.present rfl hbody)
  | none =>
    exact .pure fun _ helements => .tuple hn hsplit helements (.absent rfl)

theorem yields_reportNode (hcheck : Child s Good check fun known _ => C known)
    (h : Child s Good child R) (site : Site) (n : Node) :
    Yields s Good site.defining (reportNode a check child site n)
      fun known body => ReportNode a (C known) (R known) site n body := by
  cases hn : n.shape <;> simp only [reportNode, hn]
  case atom x =>
    cases hx : x.check? with
    | some c => exact .pure fun _ => .atom hn hx
    | none => exact .throw
  case array item =>
    exact .bind (h.yields site.loop item) (h.mono site.loop item) fun body =>
      .pure fun _ hbody => .array hn hbody
  case property name id =>
    exact .bind (h.yields (site.part (.member name)) id) (h.mono _ id) fun body =>
      .pure fun _ hbody => .property hn hbody
  case tupleMember id | indexSignature _ id | rest id | parameter _ id _ =>
    exact (h.yields site id).imp fun _ _ hbody =>
      .standsFor (by simp only [Node.standsFor?, hn]) hbody
  case promise _ => exact .throw
  case object props index className => exact yields_objectReport h hn
  case tuple members => exact yields_tupleReport h hn
  case union members =>
    refine .bind (yields_unionCheck hcheck members)
      (fun c _ _ hle => UnionCheck.imp fun id c => hcheck.mono site id c hle) fun c => ?_
    exact .pure fun _ hc => .union hn hc
  case function _ => exact .throw

end Reports

section Transforms

variable {child : Site → NodeId → Build (List Transform)}
  {R : Keys → NodeId → List Transform → Prop}

theorem yields_objectTransform (h : Child s Good child fun known _ => R known)
    (props : List NodeId) (index : Option NodeId) :
    Yields s Good site.defining (objectTransform a child site props index)
      fun known body => ObjectTransform a (R known) props index body := by
  unfold objectTransform
  refine .mapM_bind (fun p => h.mono site (Arena.Property.id p)) (fun p _ => h.yields site p.id)
    fun declared => ?_
  split
  · rename_i id filter hindex
    refine .bind (h.yields site.loop id) (h.mono site id) fun body => ?_
    rw [pure_bind]
    exact .pure fun _ hbody hdeclared => .mk hdeclared (.present hindex hbody)
  · rename_i hindex
    rw [pure_bind]
    exact .pure fun _ hdeclared => .mk hdeclared (.absent hindex)

theorem yields_tupleTransform (h : Child s Good child fun known _ => R known)
    (before : NodeId → Nat → List Transform) (members : List NodeId) :
    Yields s Good site.defining (tupleTransform a before child site members)
      fun known body => TupleTransform a before (R known) members body := by
  rcases hsplit : a.splitTuple members with ⟨fixed, rest⟩
  simp only [tupleTransform, hsplit]
  refine .mapM_bind (R := fun (x : NodeId × Nat) known out => ∃ body, R known x.1 body ∧
      out = before x.1 x.2 ++ unlessEmpty body (.part (.element x.2) (a.node x.1).optional))
    (fun x _ _ _ hle ⟨body, hbody, hout⟩ => ⟨body, h.mono site x.1 body hle hbody, hout⟩)
    (fun x _ => ?_) fun elements => ?_
  · exact .bind (h.yields _ x.1) (h.mono site x.1) fun body =>
      .pure fun _ hbody => ⟨body, hbody, rfl⟩
  cases rest with
  | some id =>
    refine .bind (h.yields site.loop id) (h.mono site id) fun body => ?_
    rw [pure_bind]
    exact .pure fun _ hbody helements => .mk hsplit helements (.present rfl hbody)
  | none =>
    exact .pure fun _ helements => .mk hsplit helements (.absent rfl)

/-- The arms of a union, each a test and code for the same member. -/
theorem yields_arms {Code : Type} {member : Site → NodeId → Build Code}
    {M : Keys → NodeId → Code → Prop} (hcheck : Child s Good check fun known _ => C known)
    (h : Child s Good member fun known _ => M known) (id : NodeId) :
    Yields s Good site.defining
      (do
        let c ← check site id
        let code ← member site id
        pure (c, code))
      fun known arm => C known id arm.1 ∧ M known id arm.2 :=
  .bind (hcheck.yields site id) (hcheck.mono site id) fun _ =>
    .bind (h.yields site id) (h.mono site id) fun _ => .pure fun _ hcode hc => ⟨hc, hcode⟩

theorem monotone_arms {Code : Type} {member : Site → NodeId → Build Code}
    {M : Keys → NodeId → Code → Prop} (hcheck : Child s Good check fun known _ => C known)
    (h : Child s Good member fun known _ => M known) (id : NodeId) (arm : Check × Code) :
    Monotone fun known => C known id arm.1 ∧ M known id arm.2 :=
  fun _ _ hle => And.imp (hcheck.mono {} id _ hle) (h.mono {} id _ hle)

theorem yields_encodeNode (hcheck : Child s Good check fun known _ => C known)
    (h : Child s Good child fun known _ => R known) (site : Site) (n : Node) :
    Yields s Good site.defining (encodeNode a check child site n)
      fun known body => EncodeNode a (C known) (R known) n body := by
  cases hn : n.shape <;> simp only [encodeNode, hn]
  case atom x =>
    split
    · exact .throw
    · rename_i hx
      exact .pure fun _ => .atom hn (Bool.eq_false_iff.mpr hx)
  case array item =>
    exact .bind (h.yields site.loop item) (h.mono site item) fun body =>
      .pure fun _ hbody => .array hn hbody
  case property name id =>
    exact .bind (h.yields (site.part (.member name)) id) (h.mono site id) fun body =>
      .pure fun _ hbody => .property hn hbody
  case tupleMember id | indexSignature _ id | rest id | parameter _ id _ =>
    exact (h.yields site id).imp fun _ _ hbody =>
      .standsFor (by simp only [Node.standsFor?, hn]) hbody
  case promise _ => exact .throw
  case object props index className =>
    exact (yields_objectTransform h props index).imp fun _ _ hbody => .object hn hbody
  case tuple members =>
    exact (yields_tupleTransform h _ members).imp fun _ _ hbody => .tuple hn hbody
  case union members =>
    exact .mapM_bind (monotone_arms hcheck h) (fun id _ => yields_arms hcheck h id) fun arms =>
      .pure fun _ harms => .union hn harms
  case function _ => exact .throw

theorem yields_revival (className : Option String) :
    Yields s Good site.defining (revival s className)
      fun _ body => body = className.toList.map .revive := by
  cases className with
  | none => exact .pure fun _ => rfl
  | some name =>
    unfold revival
    dsimp only
    split
    · exact .pure fun _ => rfl
    · exact .throw

theorem yields_decodeNode (h : Child s Good child fun known _ => R known) (site : Site)
    (n : Node) :
    Yields s Good site.defining (decodeNode s child site n)
      fun known body => DecodeNode s.arena (R known) n body := by
  cases hn : n.shape <;> simp only [decodeNode, hn]
  case atom x =>
    split
    · exact .throw
    · rename_i hx
      exact .pure fun _ => .atom hn (Bool.eq_false_iff.mpr hx)
  case array item =>
    exact .bind (h.yields site.loop item) (h.mono site item) fun body =>
      .pure fun _ hbody => .array hn hbody
  case property name id =>
    exact .bind (h.yields (site.part (.member name)) id) (h.mono site id) fun body =>
      .pure fun _ hbody => .property hn hbody
  case tupleMember id | indexSignature _ id | rest id | parameter _ id _ =>
    exact (h.yields site id).imp fun _ _ hbody =>
      .standsFor (by simp only [Node.standsFor?, hn]) hbody
  case promise _ => exact .throw
  case object props index className =>
    refine .bind (yields_objectTransform h props index)
      (fun body _ _ hle => ObjectTransform.imp fun id c => h.mono site id c hle) fun body => ?_
    refine .bind (yields_revival className) (fun _ _ _ _ => id) fun revived => ?_
    refine .pure fun _ hrevived hbody => ?_
    rw [hrevived]
    exact .object hn hbody
  case tuple members =>
    exact (yields_tupleTransform h _ members).imp fun _ _ hbody => .tuple hn hbody
  case union members =>
    exact .mapM_bind (h.mono site) (fun id _ => h.yields site id) fun arms =>
      .pure fun _ harms => .union hn harms
  case function _ => exact .throw

end Transforms

section Emits

variable {child : Site → NodeId → Build Emit} {R : Keys → NodeId → Emit → Prop}

theorem yields_objectEmit (h : Child s Good child fun known _ => R known) {props : List NodeId}
    {index : Option NodeId} {className : Option String}
    (hn : n.shape = .object props index className) :
    Yields s Good site.defining (objectEmit a child site props index)
      fun known emit => EmitNode a (C known) (R known) n emit := by
  unfold objectEmit
  refine .mapM_bind (R := fun (p : Arena.Property) known (m : MemberEmit Emit) =>
      ∃ emit, R known p.id emit ∧ m = ⟨p.name, p.optional, emit⟩)
    (fun p _ _ _ hle ⟨emit, hemit, hm⟩ => ⟨emit, h.mono site p.id emit hle hemit, hm⟩)
    (fun p _ => ?_) fun members => ?_
  · exact .bind (h.yields site p.id) (h.mono site p.id) fun emit =>
      .pure fun _ hemit => ⟨emit, hemit, rfl⟩
  split
  · rename_i id filter hindex
    refine .bind (h.yields site.loop id) (h.mono site id) fun emit => ?_
    rw [pure_bind]
    exact .pure fun _ hemit hmembers => .object hn hmembers (.present hindex hemit)
  · rename_i hindex
    rw [pure_bind]
    exact .pure fun _ hmembers => .object hn hmembers (.absent hindex)

theorem yields_tupleEmit (h : Child s Good child fun known _ => R known) {members : List NodeId}
    (hn : n.shape = .tuple members) :
    Yields s Good site.defining (tupleEmit a child site members)
      fun known emit => EmitNode a (C known) (R known) n emit := by
  rcases hsplit : a.splitTuple members with ⟨fixed, rest⟩
  simp only [tupleEmit, hsplit]
  refine .mapM_bind (fun x : NodeId × Nat => h.mono site x.1) (fun x _ => h.yields _ x.1)
    fun elements => ?_
  cases rest with
  | some id =>
    refine .bind (h.yields site.loop id) (h.mono site id) fun emit => ?_
    rw [pure_bind]
    exact .pure fun _ hemit helements => .tuple hn hsplit helements (.present rfl hemit)
  | none =>
    exact .pure fun _ helements => .tuple hn hsplit helements (.absent rfl)

theorem yields_emitNode (hcheck : Child s Good check fun known _ => C known)
    (h : Child s Good child fun known _ => R known) (site : Site) (n : Node) :
    Yields s Good site.defining (emitNode a check child site n)
      fun known emit => EmitNode a (C known) (R known) n emit := by
  cases hn : n.shape <;> simp only [emitNode, hn]
  case atom x =>
    split
    · exact .throw
    · rename_i hx
      exact .pure fun _ => .atom hn (Bool.eq_false_iff.mpr hx)
  case array item =>
    exact .bind (h.yields site.loop item) (h.mono site item) fun emit =>
      .pure fun _ hemit => .array hn hemit
  case property name id =>
    exact (h.yields (site.part (.member name)) id).imp fun _ _ hemit => .property hn hemit
  case tupleMember id | indexSignature _ id | rest id | parameter _ id _ =>
    exact (h.yields site id).imp fun _ _ hemit =>
      .standsFor (by simp only [Node.standsFor?, hn]) hemit
  case promise _ => exact .throw
  case object props index className => exact yields_objectEmit h hn
  case tuple members => exact yields_tupleEmit h hn
  case union members =>
    exact .mapM_bind (monotone_arms hcheck h) (fun id _ => yields_arms hcheck h id) fun arms =>
      .pure fun _ harms => .union hn harms
  case function _ => exact .throw

end Emits

end Nodes

/-! ## Walks and builds -/

section Walks

variable {s : Setting} {root : NodeId}

/-- The nodes that a build makes functions of: the one it is for, and such as may have one. -/
def Starts (a : Arena) (root id : NodeId) : Prop := id = root ∨ (a.node id).hasBody = true

/-- All functions of a build are functions of nodes. -/
def Sound (s : Setting) (root : NodeId) (known : Keys) (f : Function) : Prop :=
  ∃ id, Starts s.arena root id ∧ FunctionOf s.arena known (s.maxDepth - 1) id f

theorem Sound.mono (f : Function) : Monotone (Sound s root · f) :=
  fun _ _ hle ⟨id, start, h⟩ => ⟨id, start, FunctionOf.mono _ id f hle h⟩

theorem compiles_checks {depth : Nat} (hdepth : depth ≤ s.maxDepth - 1)
    (h : Child s (Sound s root) (checkAt s depth) fun known _ => CheckAt s.arena known depth) :
    checks.Compiles s (Sound s root) (Starts s.arena root) (checkNode s.arena (checkAt s depth))
      fun known _ => CheckNode s.arena (CheckAt s.arena known depth) where
  mono _ _ _ _ _ hle := CheckNode.imp fun id c => CheckAt.mono depth id c hle
  yields := yields_checkNode h
  good _ _ id _ start _ _ hcode := ⟨id, start, .isType hdepth hcode⟩

theorem child_checkAt {depth : Nat} (hdepth : depth ≤ s.maxDepth) :
    Child s (Sound s root) (checkAt s depth) fun known _ => CheckAt s.arena known depth := by
  refine ⟨fun _ => CheckAt.mono depth, ?_⟩
  induction depth with
  | zero =>
    exact fun site id => (Language.yields_visit_none site id).imp fun _ _ h =>
      h.anywhere fun _ _ => rfl
  | succ depth ih =>
    have compiles := compiles_checks (by omega) ⟨fun _ => CheckAt.mono depth, ih (by omega)⟩
    exact fun site id => (compiles.yields_visit Sound.mono (fun _ => rfl) (fun _ => .inr) site
      id).imp fun _ _ h => h.anywhere fun _ _ => rfl

theorem compiles_reports {depth : Nat} (hdepth : depth ≤ s.maxDepth - 1)
    (h : Child s (Sound s root) (reportAt s depth) fun known => ReportAt s.arena known depth) :
    reports.Compiles s (Sound s root) (Starts s.arena root) (reportNode s.arena (checkAt s depth) (reportAt s depth))
      fun known => ReportNode s.arena (CheckAt s.arena known depth)
        (ReportAt s.arena known depth) where
  mono _ _ _ _ _ hle := ReportNode.imp (fun id c => CheckAt.mono depth id c hle)
    fun site id c => ReportAt.mono depth site id c hle
  yields := yields_reportNode (child_checkAt (by omega)) h
  good _ _ id _ start hpath hloops hcode :=
    ⟨id, start, .typeErrors hdepth hpath hloops hcode⟩

theorem child_reportAt {depth : Nat} (hdepth : depth ≤ s.maxDepth) :
    Child s (Sound s root) (reportAt s depth) fun known => ReportAt s.arena known depth := by
  refine ⟨ReportAt.mono depth, ?_⟩
  induction depth with
  | zero => exact Language.yields_visit_none
  | succ depth ih =>
    have compiles := compiles_reports (by omega) ⟨ReportAt.mono depth, ih (by omega)⟩
    exact compiles.yields_visit Sound.mono (fun _ => rfl) fun _ => .inr

theorem compiles_encoders {depth : Nat} (hdepth : depth ≤ s.maxDepth - 1)
    (h : Child s (Sound s root) (encodeAt s depth) fun known _ => EncodeAt s.arena known depth) :
    encoders.Compiles s (Sound s root) (Starts s.arena root) (encodeNode s.arena (checkAt s depth) (encodeAt s depth))
      fun known _ => EncodeNode s.arena (CheckAt s.arena known depth)
        (EncodeAt s.arena known depth) where
  mono _ _ _ _ _ hle := EncodeNode.imp (fun id c => CheckAt.mono depth id c hle)
    fun id c => EncodeAt.mono depth id c hle
  yields := yields_encodeNode (child_checkAt (by omega)) h
  good _ _ id _ start _ _ hcode := ⟨id, start, .jsonEncode hdepth hcode⟩

theorem child_encodeAt {depth : Nat} (hdepth : depth ≤ s.maxDepth) :
    Child s (Sound s root) (encodeAt s depth) fun known _ => EncodeAt s.arena known depth := by
  refine ⟨fun _ => EncodeAt.mono depth, ?_⟩
  induction depth with
  | zero =>
    exact fun site id => (Language.yields_visit_none site id).imp fun _ _ h =>
      h.anywhere fun _ _ => rfl
  | succ depth ih =>
    have compiles := compiles_encoders (by omega) ⟨fun _ => EncodeAt.mono depth, ih (by omega)⟩
    exact fun site id => (compiles.yields_visit Sound.mono (fun _ => rfl) (fun _ => .inr) site
      id).imp fun _ _ h => h.anywhere fun _ _ => rfl

theorem compiles_decoders {depth : Nat} (hdepth : depth ≤ s.maxDepth - 1)
    (h : Child s (Sound s root) (decodeAt s depth) fun known _ => DecodeAt s.arena known depth) :
    decoders.Compiles s (Sound s root) (Starts s.arena root) (decodeNode s (decodeAt s depth))
      fun known _ => DecodeNode s.arena (DecodeAt s.arena known depth) where
  mono _ _ _ _ _ hle := DecodeNode.imp fun id c => DecodeAt.mono depth id c hle
  yields := yields_decodeNode h
  good _ _ id _ start _ _ hcode := ⟨id, start, .jsonDecode hdepth hcode⟩

theorem child_decodeAt {depth : Nat} (hdepth : depth ≤ s.maxDepth) :
    Child s (Sound s root) (decodeAt s depth) fun known _ => DecodeAt s.arena known depth := by
  refine ⟨fun _ => DecodeAt.mono depth, ?_⟩
  induction depth with
  | zero =>
    exact fun site id => (Language.yields_visit_none site id).imp fun _ _ h =>
      h.anywhere fun _ _ => rfl
  | succ depth ih =>
    have compiles := compiles_decoders (by omega) ⟨fun _ => DecodeAt.mono depth, ih (by omega)⟩
    exact fun site id => (compiles.yields_visit Sound.mono (fun _ => rfl) (fun _ => .inr) site
      id).imp fun _ _ h => h.anywhere fun _ _ => rfl

theorem compiles_emitters {depth : Nat} (hdepth : depth ≤ s.maxDepth - 1)
    (h : Child s (Sound s root) (emitAt s depth) fun known _ => EmitAt s.arena known depth) :
    emitters.Compiles s (Sound s root) (Starts s.arena root) (emitNode s.arena (checkAt s depth) (emitAt s depth))
      fun known _ => EmitNode s.arena (CheckAt s.arena known depth)
        (EmitAt s.arena known depth) where
  mono _ _ _ _ _ hle := EmitNode.imp (fun id c => CheckAt.mono depth id c hle)
    fun id c => EmitAt.mono depth id c hle
  yields := yields_emitNode (child_checkAt (by omega)) h
  good _ _ id _ start _ _ hcode := ⟨id, start, .jsonStringify hdepth hcode⟩

theorem child_emitAt {depth : Nat} (hdepth : depth ≤ s.maxDepth) :
    Child s (Sound s root) (emitAt s depth) fun known _ => EmitAt s.arena known depth := by
  refine ⟨fun _ => EmitAt.mono depth, ?_⟩
  induction depth with
  | zero =>
    exact fun site id => (Language.yields_visit_none site id).imp fun _ _ h =>
      h.anywhere fun _ _ => rfl
  | succ depth ih =>
    have compiles := compiles_emitters (by omega) ⟨fun _ => EmitAt.mono depth, ih (by omega)⟩
    exact fun site id => (compiles.yields_visit Sound.mono (fun _ => rfl) (fun _ => .inr) site
      id).imp fun _ _ h => h.anywhere fun _ _ => rfl

/-- Defining the function of a node makes it known, and adds functions of nodes only. -/
theorem yields_defineEntry (id : NodeId) (target : Target) :
    Yields s (Sound s id) [] (defineEntry s (s.arena.node id) target)
      fun known _ => known ⟨(s.arena.node id).identity, target⟩ := by
  have hdepth : defineEntry.depth s ≤ s.maxDepth := Nat.sub_le _ _
  cases target with
  | isType =>
    exact (compiles_checks le_rfl (child_checkAt hdepth)).yields_define Sound.mono
      (fun _ => rfl) {} (.inl rfl)
  | typeErrors =>
    exact (compiles_reports le_rfl (child_reportAt hdepth)).yields_define Sound.mono
      (fun _ => rfl) {} (.inl rfl)
  | jsonEncode =>
    exact (compiles_encoders le_rfl (child_encodeAt hdepth)).yields_define Sound.mono
      (fun _ => rfl) {} (.inl rfl)
  | jsonDecode =>
    exact (compiles_decoders le_rfl (child_decodeAt hdepth)).yields_define Sound.mono
      (fun _ => rfl) {} (.inl rfl)
  | jsonStringify =>
    exact (compiles_emitters le_rfl (child_emitAt hdepth)).yields_define Sound.mono
      (fun _ => rfl) {} (.inl rfl)

/-- The functions that a set of functions may call, when others are registered. -/
def known (s : Setting) (fs : List Function) : Keys := fun key =>
  key ∈ fs.map (·.key) ∨ ∃ question, s.registered question key = true

/-- The functions of a build are functions of the node it is for and of nodes that may have one; they
call one another and functions registered before; among these is the one the build is for. -/
theorem functions_sound {id : NodeId} {target : Target} {fs : List Function}
    (h : functions s id target = .ok fs) :
    known s fs ⟨(s.arena.node id).identity, target⟩ ∧
      ∀ f ∈ fs, Sound s id (known s fs) f := by
  have build : ∃ b, (defineEntry s (s.arena.node id) target).run {} = .ok ((), b) ∧
      b.defined = fs := by
    unfold functions at h
    split at h
    · obtain ⟨_, -, h⟩ := Except.bind_eq_ok.mp h
      obtain ⟨⟨_, b⟩, hrun, hb⟩ := Except.bind_eq_ok.mp h
      exact ⟨b, hrun, Except.ok.inj hb⟩
    · obtain ⟨⟨_, b⟩, hrun, hb⟩ := Except.bind_eq_ok.mp h
      exact ⟨b, hrun, Except.ok.inj hb⟩
  obtain ⟨b, hrun, rfl⟩ := build
  obtain ⟨-, hknown, sound⟩ := yields_defineEntry id target {} () b hrun
  have hle : s.Known [] b ≤ known s b.defined := fun key hkey => hkey.resolve_left List.not_mem_nil
  refine ⟨hle _ hknown, fun f hf => Sound.mono f hle (sound ?_ f hf)⟩
  exact fun _ hmem => absurd hmem List.not_mem_nil

end Walks

end Compile

end Typeforge
