/-
# `Typeforge.Proofs.Compiling.Code` — the code that nodes are compiled to

For each of the five languages, a relation between a node and code for it: the
node's own code, over code for its children.  The relations say what the
compilers produce and leave out how: there is no state in them, no order of
definitions, and only the set of functions that may be called.

`CheckAt known depth id c` and its like follow the walk: the code of a child is
found one level deeper, up to a depth.
-/
import Typeforge.Proofs.Compiling.Build
import Typeforge.Proofs.Types.Unfolding

namespace Typeforge

namespace Compile

/-- What is made of an optional part. -/
inductive Others {α γ δ : Type} (x : Option α) (child : α → γ → Prop) (wrap : α → γ → δ)
    (absent : δ) : δ → Prop where
  | absent (h : x = none) : Others x child wrap absent absent
  | present {y c} (h : x = some y) (hc : child y c) : Others x child wrap absent (wrap y c)

theorem Others.imp {α γ δ : Type} {x : Option α} {child child' : α → γ → Prop}
    {wrap : α → γ → δ} {absent out : δ} (himp : ∀ y c, child y c → child' y c) :
    Others x child wrap absent out → Others x child' wrap absent out
  | .absent h => .absent h
  | .present h hc => .present h (himp _ _ hc)

section Nodes

variable (a : Arena)

/-! ## Tests -/

/-- The test of a union: of all members, or the one that always holds when some member does. -/
inductive UnionCheck (child : NodeId → Check → Prop) (members : List NodeId) : Check → Prop where
  | always {id c} (mem : id ∈ members) (hc : child id c) (h : c.isAlways = true) :
      UnionCheck child members .always
  | arms {cs} (h : List.Forall₂ child members cs) : UnionCheck child members (.any cs)

/-- The test of a node, over those of its children. -/
inductive CheckNode (child : NodeId → Check → Prop) (n : Node) : Check → Prop where
  | atom {x c} (h : n.shape = .atom x) (hc : x.check? = some c) : CheckNode child n c
  | array {item c} (h : n.shape = .array item) (hc : child item c) :
      CheckNode child n (.allOf (.is .array :: unlessAlways c (.each 0)))
  | property {name id c} (h : n.shape = .property name id) (hc : child id c) :
      CheckNode child n (.allOf (unlessAlways c (.part (.member name) n.optional)))
  | standsFor {id c} (h : n.standsFor? = some id) (hc : child id c) : CheckNode child n c
  | object {props index className declared others} (h : n.shape = .object props index className)
      (hdeclared : List.Forall₂ (fun p c => child p.id c) (a.properties props) declared)
      (hothers : Others (a.indexFilter index) (fun x c => child x.1 c)
        (fun x c => unlessAlways c (.eachKey x.2 (declaredNames (a.properties props)))) [] others) :
      CheckNode child n (.allOf (.is .object :: declared ++ others))
  | tuple {members fixed rest elements others} (h : n.shape = .tuple members)
      (hsplit : a.splitTuple members = (fixed, rest))
      (helements : List.Forall₂ (fun x out => ∃ c, child x.1 c ∧
          out = unlessAlways c (.part (.element x.2) (a.node x.1).optional))
        fixed.zipIdx elements)
      (hothers : Others rest child
        (fun _ c => unlessAlways c (.each fixed.length)) [] others) :
      CheckNode child n
        (.allOf (tupleShape fixed.length rest.isSome ++ elements.flatten ++ others))
  | union {members c} (h : n.shape = .union members) (hc : UnionCheck child members c) :
      CheckNode child n c

/-! ## Reports -/

/-- The report of a node at a site, over the tests and reports of its children. -/
inductive ReportNode (check : NodeId → Check → Prop) (child : Site → NodeId → List Report → Prop)
    (site : Site) (n : Node) : List Report → Prop where
  | atom {x c} (h : n.shape = .atom x) (hc : x.check? = some c) :
      ReportNode check child site n (expectation c site.path x.expected)
  | array {item body} (h : n.shape = .array item) (hbody : child site.loop item body) :
      ReportNode check child site n
        [.expect (.is .array) site.path "array" (unlessEmpty body (.each 0))]
  | property {name id body} (h : n.shape = .property name id)
      (hbody : child (site.part (.member name)) id body) :
      ReportNode check child site n (unlessEmpty body (.part (.member name) n.optional))
  | standsFor {id body} (h : n.standsFor? = some id) (hbody : child site id body) :
      ReportNode check child site n body
  | object {props index className declared others} (h : n.shape = .object props index className)
      (hdeclared : List.Forall₂ (fun p body => child site p.id body) (a.properties props) declared)
      (hothers : Others (a.indexFilter index) (fun x body => child site.loop x.1 body)
        (fun x body => unlessEmpty body (.eachKey x.2 (declaredNames (a.properties props)))) []
        others) :
      ReportNode check child site n
        [.expect (.is .object) site.path (className.getD "object") (declared.flatten ++ others)]
  | tuple {members fixed rest elements others} (h : n.shape = .tuple members)
      (hsplit : a.splitTuple members = (fixed, rest))
      (helements : List.Forall₂ (fun x out => ∃ body, child (site.part (.element x.2)) x.1 body ∧
          out = unlessEmpty body (.part (.element x.2) (a.node x.1).optional))
        fixed.zipIdx elements)
      (hothers : Others rest (child site.loop)
        (fun _ body => unlessEmpty body (.each fixed.length)) [] others) :
      ReportNode check child site n
        [.expect (.allOf (tupleShape fixed.length rest.isSome)) site.path "tuple"
          (elements.flatten ++ others)]
  | union {members c} (h : n.shape = .union members) (hc : UnionCheck check members c) :
      ReportNode check child site n (expectation c site.path "union")

/-! ## Encoders and decoders -/

/-- The changes of an object's members. -/
inductive ObjectTransform (child : NodeId → List Transform → Prop) (props : List NodeId)
    (index : Option NodeId) : List Transform → Prop where
  | mk {declared others}
      (hdeclared : List.Forall₂ (fun p body => child p.id body) (a.properties props) declared)
      (hothers : Others (a.indexFilter index) (fun x body => child x.1 body)
        (fun x body => unlessEmpty body (.eachKey x.2 (declaredNames (a.properties props)))) []
        others) :
      ObjectTransform child props index (declared.flatten ++ others)

/-- The changes of a tuple's elements, `before` first in each fixed position. -/
inductive TupleTransform (before : NodeId → Nat → List Transform)
    (child : NodeId → List Transform → Prop) (members : List NodeId) : List Transform → Prop where
  | mk {fixed rest elements others} (hsplit : a.splitTuple members = (fixed, rest))
      (helements : List.Forall₂ (fun x out => ∃ body, child x.1 body ∧
          out = before x.1 x.2 ++ unlessEmpty body (.part (.element x.2) (a.node x.1).optional))
        fixed.zipIdx elements)
      (hothers : Others rest child
        (fun _ body => unlessEmpty body (.each fixed.length)) [] others) :
      TupleTransform before child members (elements.flatten ++ others)

/-- The encoder of a node, over the tests and encoders of its children. -/
inductive EncodeNode (check : NodeId → Check → Prop) (child : NodeId → List Transform → Prop)
    (n : Node) : List Transform → Prop where
  | atom {x} (h : n.shape = .atom x) (never : x.isNever = false) :
      EncodeNode check child n (x.codec?.toList.map .encode)
  | array {item body} (h : n.shape = .array item) (hbody : child item body) :
      EncodeNode check child n (unlessEmpty body (.each 0))
  | property {name id body} (h : n.shape = .property name id) (hbody : child id body) :
      EncodeNode check child n (unlessEmpty body (.part (.member name) n.optional))
  | standsFor {id body} (h : n.standsFor? = some id) (hbody : child id body) :
      EncodeNode check child n body
  | object {props index className body} (h : n.shape = .object props index className)
      (hbody : ObjectTransform a child props index body) : EncodeNode check child n body
  | tuple {members body} (h : n.shape = .tuple members)
      (hbody : TupleTransform a (fun _ _ => []) child members body) : EncodeNode check child n body
  | union {members arms} (h : n.shape = .union members)
      (harms : List.Forall₂ (fun id arm => check id arm.1 ∧ child id arm.2) members arms) :
      EncodeNode check child n [.tag n.identity arms]

/-- The decoder of a node, over those of its children. -/
inductive DecodeNode (child : NodeId → List Transform → Prop) (n : Node) :
    List Transform → Prop where
  | atom {x} (h : n.shape = .atom x) (never : x.isNever = false) :
      DecodeNode child n (x.codec?.toList.map .decode)
  | array {item body} (h : n.shape = .array item) (hbody : child item body) :
      DecodeNode child n (unlessEmpty body (.each 0))
  | property {name id body} (h : n.shape = .property name id) (hbody : child id body) :
      DecodeNode child n (unlessEmpty body (.part (.member name) n.optional))
  | standsFor {id body} (h : n.standsFor? = some id) (hbody : child id body) :
      DecodeNode child n body
  | object {props index className body} (h : n.shape = .object props index className)
      (hbody : ObjectTransform a child props index body) :
      DecodeNode child n (body ++ className.toList.map .revive)
  | tuple {members body} (h : n.shape = .tuple members)
      (hbody : TupleTransform a (absence a) child members body) : DecodeNode child n body
  | union {members arms} (h : n.shape = .union members)
      (harms : List.Forall₂ child members arms) : DecodeNode child n [.untag arms]

/-! ## Emitters -/

/-- The emitter of an atom. -/
def atomEmit (x : Atom) : Emit :=
  match x.codec? with
  | some codec => .encoded codec
  | none => .json

/-- The emitter of a node, over the tests and emitters of its children. -/
inductive EmitNode (check : NodeId → Check → Prop) (child : NodeId → Emit → Prop) (n : Node) :
    Emit → Prop where
  | atom {x} (h : n.shape = .atom x) (never : x.isNever = false) :
      EmitNode check child n (atomEmit x)
  | array {item emit} (h : n.shape = .array item) (hemit : child item emit) :
      EmitNode check child n (.array emit)
  | property {name id emit} (h : n.shape = .property name id) (hemit : child id emit) :
      EmitNode check child n emit
  | standsFor {id emit} (h : n.standsFor? = some id) (hemit : child id emit) :
      EmitNode check child n emit
  | object {props index className members others} (h : n.shape = .object props index className)
      (hmembers : List.Forall₂ (fun p m => ∃ emit, child p.id emit ∧
        m = ⟨p.name, p.optional, emit⟩) (a.properties props) members)
      (hothers : Others (a.indexFilter index) (fun x emit => child x.1 emit)
        (fun x emit => some (x.2, emit)) none others) :
      EmitNode check child n (.object members others)
  | tuple {members fixed rest elements others} (h : n.shape = .tuple members)
      (hsplit : a.splitTuple members = (fixed, rest))
      (helements : List.Forall₂ (fun x emit => child x.1 emit)
        fixed.zipIdx elements)
      (hothers : Others rest child (fun _ emit => some emit) none others) :
      EmitNode check child n (.tuple elements others)
  | union {members arms} (h : n.shape = .union members)
      (harms : List.Forall₂ (fun id arm => check id arm.1 ∧ child id arm.2) members arms) :
      EmitNode check child n (.union n.identity arms)

end Nodes

/-! ## The walk -/

section Walks

variable (a : Arena) (known : Keys)

/-- What a visit at a depth gives; nothing is compiled in place where the walk has gone as deep as
it may. -/
def CheckAt : Nat → NodeId → Check → Prop
  | 0, id => checks.Visited known (fun _ _ => False) [] (a.node id)
  | depth + 1, id => checks.Visited known (CheckNode a (CheckAt depth)) [] (a.node id)

def ReportAt : Nat → Site → NodeId → List Report → Prop
  | 0, site, id => reports.Visited known (fun _ _ => False) site.path (a.node id)
  | depth + 1, site, id =>
    reports.Visited known (ReportNode a (CheckAt a known depth) (ReportAt depth) site) site.path
      (a.node id)

def EncodeAt : Nat → NodeId → List Transform → Prop
  | 0, id => encoders.Visited known (fun _ _ => False) [] (a.node id)
  | depth + 1, id =>
    encoders.Visited known (EncodeNode a (CheckAt a known depth) (EncodeAt depth)) [] (a.node id)

def DecodeAt : Nat → NodeId → List Transform → Prop
  | 0, id => decoders.Visited known (fun _ _ => False) [] (a.node id)
  | depth + 1, id => decoders.Visited known (DecodeNode a (DecodeAt depth)) [] (a.node id)

def EmitAt : Nat → NodeId → Emit → Prop
  | 0, id => emitters.Visited known (fun _ _ => False) [] (a.node id)
  | depth + 1, id =>
    emitters.Visited known (EmitNode a (CheckAt a known depth) (EmitAt depth)) [] (a.node id)

/-- The functions that nodes are compiled to, with children no deeper than a limit. -/
inductive FunctionOf (limit : Nat) : NodeId → Function → Prop where
  | isType {id depth code} (hdepth : depth ≤ limit)
      (h : checks.Entered (CheckNode a (CheckAt a known depth)) (a.node id) code) :
      FunctionOf limit id (.ofBody (a.node id).identity (.isType code))
  | typeErrors {id depth code site} (hdepth : depth ≤ limit) (hpath : site.path = [])
      (hloops : site.loops = 0)
      (h : reports.Entered (ReportNode a (CheckAt a known depth) (ReportAt a known depth) site)
        (a.node id) code) :
      FunctionOf limit id (.ofBody (a.node id).identity (.typeErrors code))
  | jsonEncode {id depth code} (hdepth : depth ≤ limit)
      (h : encoders.Entered (EncodeNode a (CheckAt a known depth) (EncodeAt a known depth))
        (a.node id) code) :
      FunctionOf limit id (.ofBody (a.node id).identity (.jsonEncode code))
  | jsonDecode {id depth code} (hdepth : depth ≤ limit)
      (h : decoders.Entered (DecodeNode a (DecodeAt a known depth)) (a.node id) code) :
      FunctionOf limit id (.ofBody (a.node id).identity (.jsonDecode code))
  | jsonStringify {id depth code} (hdepth : depth ≤ limit)
      (h : emitters.Entered (EmitNode a (CheckAt a known depth) (EmitAt a known depth))
        (a.node id) code) :
      FunctionOf limit id (.ofBody (a.node id).identity (.jsonStringify code))

end Walks

/-! ## More known functions -/

section Imp

variable {a : Arena}

theorem UnionCheck.imp {child child' : NodeId → Check → Prop} {members : List NodeId} {c : Check}
    (himp : ∀ id c, child id c → child' id c) :
    UnionCheck child members c → UnionCheck child' members c
  | .always mem hc h => .always mem (himp _ _ hc) h
  | .arms h => .arms (h.imp himp)

theorem CheckNode.imp {child child' : NodeId → Check → Prop} {n : Node} {c : Check}
    (himp : ∀ id c, child id c → child' id c) :
    CheckNode a child n c → CheckNode a child' n c
  | .atom h hc => .atom h hc
  | .array h hc => .array h (himp _ _ hc)
  | .property h hc => .property h (himp _ _ hc)
  | .standsFor h hc => .standsFor h (himp _ _ hc)
  | .object h hdeclared hothers =>
    .object h (hdeclared.imp fun _ _ => himp _ _) (hothers.imp fun _ _ => himp _ _)
  | .tuple h hsplit helements hothers =>
    .tuple h hsplit (helements.imp fun _ _ ⟨c, hc, hout⟩ => ⟨c, himp _ _ hc, hout⟩) (hothers.imp himp)
  | .union h hc => .union h (hc.imp himp)

theorem ReportNode.imp {check check' : NodeId → Check → Prop}
    {child child' : Site → NodeId → List Report → Prop} {site : Site} {n : Node}
    {body : List Report} (hcheck : ∀ id c, check id c → check' id c)
    (himp : ∀ site id c, child site id c → child' site id c) :
    ReportNode a check child site n body → ReportNode a check' child' site n body
  | .atom h hc => .atom h hc
  | .array h hbody => .array h (himp _ _ _ hbody)
  | .property h hbody => .property h (himp _ _ _ hbody)
  | .standsFor h hbody => .standsFor h (himp _ _ _ hbody)
  | .object h hdeclared hothers =>
    .object h (hdeclared.imp fun _ _ => himp _ _ _) (hothers.imp fun _ _ => himp _ _ _)
  | .tuple h hsplit helements hothers =>
    .tuple h hsplit (helements.imp fun _ _ ⟨c, hc, hout⟩ => ⟨c, himp _ _ _ hc, hout⟩)
      (hothers.imp (himp _))
  | .union h hc => .union h (hc.imp hcheck)

theorem ObjectTransform.imp {child child' : NodeId → List Transform → Prop}
    {props : List NodeId} {index : Option NodeId} {body : List Transform}
    (himp : ∀ id c, child id c → child' id c) :
    ObjectTransform a child props index body → ObjectTransform a child' props index body
  | .mk hdeclared hothers =>
    .mk (hdeclared.imp fun _ _ => himp _ _) (hothers.imp fun _ _ => himp _ _)

theorem TupleTransform.imp {before : NodeId → Nat → List Transform}
    {child child' : NodeId → List Transform → Prop} {members : List NodeId}
    {body : List Transform} (himp : ∀ id c, child id c → child' id c) :
    TupleTransform a before child members body → TupleTransform a before child' members body
  | .mk hsplit helements hothers =>
    .mk hsplit (helements.imp fun _ _ ⟨c, hc, hout⟩ => ⟨c, himp _ _ hc, hout⟩) (hothers.imp himp)

theorem EncodeNode.imp {check check' : NodeId → Check → Prop}
    {child child' : NodeId → List Transform → Prop} {n : Node} {body : List Transform}
    (hcheck : ∀ id c, check id c → check' id c) (himp : ∀ id c, child id c → child' id c) :
    EncodeNode a check child n body → EncodeNode a check' child' n body
  | .atom h never => .atom h never
  | .array h hbody => .array h (himp _ _ hbody)
  | .property h hbody => .property h (himp _ _ hbody)
  | .standsFor h hbody => .standsFor h (himp _ _ hbody)
  | .object h hbody => .object h (hbody.imp himp)
  | .tuple h hbody => .tuple h (hbody.imp himp)
  | .union h harms => .union h (harms.imp fun _ _ => And.imp (hcheck _ _) (himp _ _))

theorem DecodeNode.imp {child child' : NodeId → List Transform → Prop} {n : Node}
    {body : List Transform} (himp : ∀ id c, child id c → child' id c) :
    DecodeNode a child n body → DecodeNode a child' n body
  | .atom h never => .atom h never
  | .array h hbody => .array h (himp _ _ hbody)
  | .property h hbody => .property h (himp _ _ hbody)
  | .standsFor h hbody => .standsFor h (himp _ _ hbody)
  | .object h hbody => .object h (hbody.imp himp)
  | .tuple h hbody => .tuple h (hbody.imp himp)
  | .union h harms => .union h (harms.imp himp)

theorem EmitNode.imp {check check' : NodeId → Check → Prop} {child child' : NodeId → Emit → Prop}
    {n : Node} {emit : Emit} (hcheck : ∀ id c, check id c → check' id c)
    (himp : ∀ id c, child id c → child' id c) :
    EmitNode a check child n emit → EmitNode a check' child' n emit
  | .atom h never => .atom h never
  | .array h hemit => .array h (himp _ _ hemit)
  | .property h hemit => .property h (himp _ _ hemit)
  | .standsFor h hemit => .standsFor h (himp _ _ hemit)
  | .object h hmembers hothers =>
    .object h (hmembers.imp fun _ _ ⟨c, hc, hm⟩ => ⟨c, himp _ _ hc, hm⟩)
      (hothers.imp fun _ _ => himp _ _)
  | .tuple h hsplit helements hothers =>
    .tuple h hsplit (helements.imp fun _ _ => himp _ _) (hothers.imp himp)
  | .union h harms => .union h (harms.imp fun _ _ => And.imp (hcheck _ _) (himp _ _))

theorem CheckAt.mono (depth : Nat) (id : NodeId) (c : Check) :
    Monotone (CheckAt a · depth id c) := by
  induction depth generalizing id c with
  | zero => exact fun _ _ hle => Language.Visited.imp hle fun _ h => h
  | succ depth ih =>
    exact fun _ _ hle => Language.Visited.imp hle fun _ => CheckNode.imp fun id c => ih id c hle

theorem ReportAt.mono (depth : Nat) (site : Site) (id : NodeId) (body : List Report) :
    Monotone (ReportAt a · depth site id body) := by
  induction depth generalizing site id body with
  | zero => exact fun _ _ hle => Language.Visited.imp hle fun _ h => h
  | succ depth ih =>
    exact fun _ _ hle => Language.Visited.imp hle fun _ =>
      ReportNode.imp (fun id c => CheckAt.mono depth id c hle) fun site id c => ih site id c hle

theorem EncodeAt.mono (depth : Nat) (id : NodeId) (body : List Transform) :
    Monotone (EncodeAt a · depth id body) := by
  induction depth generalizing id body with
  | zero => exact fun _ _ hle => Language.Visited.imp hle fun _ h => h
  | succ depth ih =>
    exact fun _ _ hle => Language.Visited.imp hle fun _ =>
      EncodeNode.imp (fun id c => CheckAt.mono depth id c hle) fun id c => ih id c hle

theorem DecodeAt.mono (depth : Nat) (id : NodeId) (body : List Transform) :
    Monotone (DecodeAt a · depth id body) := by
  induction depth generalizing id body with
  | zero => exact fun _ _ hle => Language.Visited.imp hle fun _ h => h
  | succ depth ih =>
    exact fun _ _ hle => Language.Visited.imp hle fun _ => DecodeNode.imp fun id c => ih id c hle

theorem EmitAt.mono (depth : Nat) (id : NodeId) (emit : Emit) :
    Monotone (EmitAt a · depth id emit) := by
  induction depth generalizing id emit with
  | zero => exact fun _ _ hle => Language.Visited.imp hle fun _ h => h
  | succ depth ih =>
    exact fun _ _ hle => Language.Visited.imp hle fun _ =>
      EmitNode.imp (fun id c => CheckAt.mono depth id c hle) fun id c => ih id c hle

/-- A function of a node stays one when more functions are known. -/
theorem FunctionOf.mono (limit : Nat) (id : NodeId) (f : Function) :
    Monotone (FunctionOf a · limit id f) := by
  rintro known known' hle (⟨hd, h⟩ | ⟨hd, hp, hl, h⟩ | ⟨hd, h⟩ | ⟨hd, h⟩ | ⟨hd, h⟩)
  · exact .isType hd (h.imp fun _ => CheckNode.imp fun id c => CheckAt.mono _ id c hle)
  · exact .typeErrors hd hp hl (h.imp fun _ => ReportNode.imp
      (fun id c => CheckAt.mono _ id c hle) fun site id c => ReportAt.mono _ site id c hle)
  · exact .jsonEncode hd (h.imp fun _ => EncodeNode.imp
      (fun id c => CheckAt.mono _ id c hle) fun id c => EncodeAt.mono _ id c hle)
  · exact .jsonDecode hd (h.imp fun _ => DecodeNode.imp fun id c => DecodeAt.mono _ id c hle)
  · exact .jsonStringify hd (h.imp fun _ => EmitNode.imp
      (fun id c => CheckAt.mono _ id c hle) fun id c => EmitAt.mono _ id c hle)

/-- A function of a node stays one when children may be deeper. -/
theorem FunctionOf.deepen {known : Keys} {limit limit' : Nat} {id : NodeId} {f : Function}
    (hle : limit ≤ limit') : FunctionOf a known limit id f → FunctionOf a known limit' id f
  | .isType hd h => .isType (hd.trans hle) h
  | .typeErrors hd hp hl h => .typeErrors (hd.trans hle) hp hl h
  | .jsonEncode hd h => .jsonEncode (hd.trans hle) h
  | .jsonDecode hd h => .jsonDecode (hd.trans hle) h
  | .jsonStringify hd h => .jsonStringify (hd.trans hle) h

end Imp

end Compile

end Typeforge
