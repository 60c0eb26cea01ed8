/-
# `Typeforge.Proofs.Stored.Compiled` — what types are compiled to can be stored

Of what a compiler puts into code, three things might not come back from a text: a number
literal that is no decimal, a position in a tuple beyond sixty-four bits, and the number of a
loop beyond eight.  The first two are the type's; loops are numbered up to 255 by every site.
Where the literals and tuples of an arena can be stored, so can all code for its nodes.
-/
import Typeforge.Proofs.Compiling.Calls
import Typeforge.Proofs.Stored.Code

namespace Typeforge

/-! ## Types -/

/-- Whether the literals of an atom can be stored. -/
def Atom.isStorable : Atom → Bool
  | literal value => value.isStorable
  | enumeration members => members.all (·.2.isStorable)
  | _ => true

/-- Whether the code for a shape of its own can be stored: its literals, and its positions. -/
def Shape.isStorable : Shape → Bool
  | atom x => x.isStorable
  | tuple members => decide (members.length < Nat.pow 2 64)
  | _ => true

/-- Types with literals that are decimals and tuples no longer than memory has room for. -/
def Arena.Storable (a : Arena) : Prop := ∀ id, (a.node id).shape.isStorable = true

namespace Compile

variable {a : Arena} {n : Node}

/-- The positions of a tuple can be stored. -/
theorem lt_of_splitTuple {members fixed : List NodeId} {rest : Option NodeId}
    (storable : n.shape.isStorable = true) (h : n.shape = .tuple members)
    (hsplit : a.splitTuple members = (fixed, rest)) : fixed.length < Nat.pow 2 64 := by
  rw [h] at storable
  refine lt_of_le_of_lt ?_ (of_decide_eq_true storable)
  have happend := Arena.splitTuple_append (a := a) members
  rw [hsplit] at happend
  rw [← happend, List.length_append]
  exact Nat.le_add_right _ _

section Lists

variable {α : Type} {P : α → Prop}

theorem forall_mem_flatten {xss : List (List α)} (h : ∀ xs ∈ xss, ∀ x ∈ xs, P x) :
    ∀ x ∈ xss.flatten, P x := by
  intro x hx
  obtain ⟨xs, hxs, hx⟩ := List.mem_flatten.mp hx
  exact h xs hxs x hx

theorem forall_mem_unlessEmpty {body : List α} {wrap : List α → α}
    (h : (∀ x ∈ body, P x) → P (wrap body)) (hbody : ∀ x ∈ body, P x) :
    ∀ x ∈ unlessEmpty body wrap, P x := by
  unfold unlessEmpty
  split
  · exact List.forall_mem_nil P
  · exact List.forall_mem_singleton.mpr (h hbody)

end Lists

end Compile

/-! ## Tests -/

namespace Check

variable {c : Check} {cs : List Check}

theorem listStorable_iff : listStorable cs = true ↔ ∀ c ∈ cs, c.isStorable = true := by
  induction cs with
  | nil => exact iff_of_true rfl (List.forall_mem_nil _)
  | cons c cs ih => rw [listStorable, Bool.and_eq_true, ih, List.forall_mem_cons]

theorem isStorable_allOf (h : ∀ c ∈ cs, c.isStorable = true) : (allOf cs).isStorable = true := by
  have hfilter : ∀ c ∈ cs.filter (fun c => !c.isAlways), c.isStorable = true :=
    fun c hc => h c (List.mem_of_mem_filter hc)
  unfold allOf
  split
  · rfl
  · rename_i c hone
    rw [hone] at hfilter
    exact hfilter c List.mem_cons_self
  · exact listStorable_iff.mpr hfilter

theorem isStorable_unlessAlways {wrap : Check → Check}
    (hwrap : c.isStorable = true → (wrap c).isStorable = true) (h : c.isStorable = true) :
    ∀ d ∈ Compile.unlessAlways c wrap, d.isStorable = true := by
  intro d hd
  unfold Compile.unlessAlways at hd
  split at hd
  · exact absurd hd List.not_mem_nil
  · rw [List.mem_singleton.mp hd]
    exact hwrap h

theorem isStorable_tupleShape {fixed : Nat} (more : Bool) (h : fixed < Nat.pow 2 64) :
    ∀ c ∈ Compile.tupleShape fixed more, c.isStorable = true := by
  unfold Compile.tupleShape
  split
  · exact List.forall_mem_singleton.mpr rfl
  · exact List.forall_mem_cons.mpr ⟨rfl, List.forall_mem_singleton.mpr (decide_eq_true h)⟩

theorem isStorable_of_check? {x : Atom} (storable : x.isStorable = true) (h : x.check? = some c) :
    c.isStorable = true := by
  cases x with
  | literal value =>
    cases h
    exact storable
  | enumeration members =>
    cases h
    rw [isStorable, List.all_map]
    exact storable
  | never => cases h
  | _ =>
    cases h
    rfl

end Check

namespace Compile

variable {a : Arena} {n : Node} {known : Keys}

theorem isStorable_unionCheck {child : NodeId → Check → Prop} {members : List NodeId} {c : Check}
    (hchild : ∀ id c, child id c → c.isStorable = true) (h : UnionCheck child members c) :
    c.isStorable = true := by
  cases h with
  | always => rfl
  | arms h =>
    refine Check.listStorable_iff.mpr fun c hc => ?_
    obtain ⟨id, -, hid⟩ := exists_of_forall₂_right h hc
    exact hchild id c hid

/-- The test of a node can be stored, if those of its children can. -/
theorem isStorable_checkNode {child : NodeId → Check → Prop} {c : Check}
    (storable : n.shape.isStorable = true) (hchild : ∀ id c, child id c → c.isStorable = true)
    (h : CheckNode a child n c) : c.isStorable = true := by
  cases h with
  | atom h hc =>
    rw [h] at storable
    exact Check.isStorable_of_check? storable hc
  | array _ hc =>
    refine Check.isStorable_allOf (List.forall_mem_cons.mpr ⟨rfl, ?_⟩)
    exact Check.isStorable_unlessAlways (fun h => h) (hchild _ _ hc)
  | property _ hc =>
    exact Check.isStorable_allOf (Check.isStorable_unlessAlways (fun h => h) (hchild _ _ hc))
  | standsFor _ hc => exact hchild _ _ hc
  | object _ hdeclared hothers =>
    refine Check.isStorable_allOf
      (List.forall_mem_append.mpr ⟨List.forall_mem_cons.mpr ⟨rfl, ?_⟩, ?_⟩)
    · intro c hc
      obtain ⟨p, -, hp⟩ := exists_of_forall₂_right hdeclared hc
      exact hchild p.id c hp
    · cases hothers with
      | absent => exact List.forall_mem_nil _
      | present _ hc => exact Check.isStorable_unlessAlways (fun h => h) (hchild _ _ hc)
  | tuple h hsplit helements hothers =>
    have hfixed := lt_of_splitTuple storable h hsplit
    refine Check.isStorable_allOf (List.forall_mem_append.mpr
      ⟨List.forall_mem_append.mpr ⟨Check.isStorable_tupleShape _ hfixed, ?_⟩, ?_⟩)
    · refine forall_mem_flatten fun out hout => ?_
      obtain ⟨x, hx, d, hd, rfl⟩ := exists_of_forall₂_right helements hout
      refine Check.isStorable_unlessAlways (fun h => ?_) (hchild _ _ hd)
      have hi := (List.snd_lt_of_mem_zipIdx hx).trans hfixed
      exact Bool.and_eq_true_iff.mpr ⟨decide_eq_true hi, h⟩
    · cases hothers with
      | absent => exact List.forall_mem_nil _
      | present _ hc =>
        exact Check.isStorable_unlessAlways
          (fun h => Bool.and_eq_true_iff.mpr ⟨decide_eq_true hfixed, h⟩) (hchild _ _ hc)
  | union _ hc => exact isStorable_unionCheck hchild hc

theorem isStorable_checkAt (storable : a.Storable) {depth : Nat} {id : NodeId} {c : Check}
    (h : CheckAt a known depth id c) : c.isStorable = true := by
  induction depth generalizing id c with
  | zero =>
    cases h with
    | plain h => cases h
    | called => rfl
    | inPlace _ h => exact h.elim
  | succ depth ih =>
    cases h with
    | plain h => cases h
    | called => rfl
    | inPlace _ h => exact isStorable_checkNode (storable id) (fun _ _ => ih) h

end Compile

/-! ## Reports -/

namespace Site

/-- Whether the path from a function's value can be stored. -/
def isStorable (site : Site) : Bool := site.path.all PathSegment.isStorable

variable {site : Site}

theorem isStorable_of_path (h : site.path = []) : site.isStorable = true := by
  rw [isStorable, h]
  rfl

theorem isStorable_part {access : Access} (h : site.isStorable = true)
    (haccess : access.isStorable = true) : (site.part access).isStorable = true := by
  unfold isStorable part
  rw [List.all_append, Bool.and_eq_true, List.all_cons, List.all_nil, Bool.and_true]
  refine ⟨h, ?_⟩
  cases access with
  | member name => rfl
  | element i => exact haccess

/-- Loops beyond the last number share it. -/
theorem isStorable_loop (h : site.isStorable = true) : site.loop.isStorable = true := by
  unfold isStorable loop
  rw [List.all_append, Bool.and_eq_true, List.all_cons, List.all_nil, Bool.and_true]
  exact ⟨h, decide_eq_true (Nat.lt_succ_of_le (Nat.min_le_right _ _))⟩

end Site

namespace Report

variable {body : List Report}

theorem listStorable_iff : listStorable body = true ↔ ∀ r ∈ body, r.isStorable = true := by
  induction body with
  | nil => exact iff_of_true rfl (List.forall_mem_nil _)
  | cons r body ih => rw [listStorable, Bool.and_eq_true, ih, List.forall_mem_cons]

theorem isStorable_expect {c : Check} {path : List PathSegment} {expected : String}
    (hc : c.isStorable = true) (hpath : path.all PathSegment.isStorable = true)
    (h : ∀ r ∈ body, r.isStorable = true) : (expect c path expected body).isStorable = true := by
  rw [isStorable, hc, hpath, listStorable_iff.mpr h]
  rfl

theorem isStorable_expectation {c : Check} {path : List PathSegment} {expected : String}
    (hc : c.isStorable = true) (hpath : path.all PathSegment.isStorable = true) :
    ∀ r ∈ Compile.expectation c path expected, r.isStorable = true := by
  unfold Compile.expectation
  split
  · exact List.forall_mem_nil _
  · exact List.forall_mem_singleton.mpr (isStorable_expect hc hpath (List.forall_mem_nil _))

end Report

namespace Compile

variable {a : Arena} {n : Node} {known : Keys}

/-- The report of a node can be stored, if the tests and reports of its children can, and the path
to it. -/
theorem isStorable_reportNode {check : NodeId → Check → Prop}
    {child : Site → NodeId → List Report → Prop} {site : Site} {body : List Report}
    (storable : n.shape.isStorable = true) (hsite : site.isStorable = true)
    (hcheck : ∀ id c, check id c → c.isStorable = true)
    (hchild : ∀ site id body, site.isStorable = true → child site id body →
      ∀ r ∈ body, r.isStorable = true)
    (h : ReportNode a check child site n body) : ∀ r ∈ body, r.isStorable = true := by
  have hloop := Site.isStorable_loop hsite
  cases h with
  | atom h hc =>
    rw [h] at storable
    exact Report.isStorable_expectation (Check.isStorable_of_check? storable hc) hsite
  | array _ hbody =>
    refine List.forall_mem_singleton.mpr (Report.isStorable_expect rfl hsite ?_)
    exact forall_mem_unlessEmpty Report.listStorable_iff.mpr (hchild _ _ _ hloop hbody)
  | property _ hbody =>
    exact forall_mem_unlessEmpty Report.listStorable_iff.mpr
      (hchild _ _ _ (Site.isStorable_part hsite rfl) hbody)
  | standsFor _ hbody => exact hchild _ _ _ hsite hbody
  | object _ hdeclared hothers =>
    refine List.forall_mem_singleton.mpr (Report.isStorable_expect rfl hsite
      (List.forall_mem_append.mpr ⟨forall_mem_flatten fun body hbody => ?_, ?_⟩))
    · obtain ⟨p, -, hp⟩ := exists_of_forall₂_right hdeclared hbody
      exact hchild _ _ _ hsite hp
    · cases hothers with
      | absent => exact List.forall_mem_nil _
      | present _ hbody =>
        exact forall_mem_unlessEmpty Report.listStorable_iff.mpr (hchild _ _ _ hloop hbody)
  | tuple h hsplit helements hothers =>
    have hfixed := lt_of_splitTuple storable h hsplit
    have hshape (more : Bool) := Check.isStorable_allOf (Check.isStorable_tupleShape more hfixed)
    refine List.forall_mem_singleton.mpr (Report.isStorable_expect (hshape _) hsite
      (List.forall_mem_append.mpr ⟨forall_mem_flatten fun out hout => ?_, ?_⟩))
    · obtain ⟨x, hx, body, hbody, rfl⟩ := exists_of_forall₂_right helements hout
      have hi : (Access.element x.2).isStorable = true :=
        decide_eq_true ((List.snd_lt_of_mem_zipIdx hx).trans hfixed)
      exact forall_mem_unlessEmpty
        (fun h => Bool.and_eq_true_iff.mpr ⟨hi, Report.listStorable_iff.mpr h⟩)
        (hchild _ _ _ (Site.isStorable_part hsite hi) hbody)
    · cases hothers with
      | absent => exact List.forall_mem_nil _
      | present _ hbody =>
        exact forall_mem_unlessEmpty (fun h => Bool.and_eq_true_iff.mpr
          ⟨decide_eq_true hfixed, Report.listStorable_iff.mpr h⟩) (hchild _ _ _ hloop hbody)
  | union _ hc => exact Report.isStorable_expectation (isStorable_unionCheck hcheck hc) hsite

theorem isStorable_reportAt (storable : a.Storable) {depth : Nat} {site : Site} {id : NodeId}
    {body : List Report} (hsite : site.isStorable = true) (h : ReportAt a known depth site id body) :
    ∀ r ∈ body, r.isStorable = true := by
  induction depth generalizing site id body with
  | zero =>
    cases h with
    | plain h => cases h
    | called => exact List.forall_mem_singleton.mpr hsite
    | inPlace _ h => exact h.elim
  | succ depth ih =>
    cases h with
    | plain h => cases h
    | called => exact List.forall_mem_singleton.mpr hsite
    | inPlace _ h =>
      exact isStorable_reportNode (storable id) hsite (fun _ _ => isStorable_checkAt storable)
        (fun _ _ _ => ih) h

end Compile

/-! ## Encoders and decoders -/

namespace Transform

variable {body : List Transform}

theorem listStorable_iff : listStorable body = true ↔ ∀ t ∈ body, t.isStorable = true := by
  induction body with
  | nil => exact iff_of_true rfl (List.forall_mem_nil _)
  | cons t body ih => rw [listStorable, Bool.and_eq_true, ih, List.forall_mem_cons]

theorem armsStorable_iff {arms : List (Check × List Transform)} : armsStorable arms = true ↔
    ∀ arm ∈ arms, arm.1.isStorable = true ∧ ∀ t ∈ arm.2, t.isStorable = true := by
  induction arms with
  | nil => exact iff_of_true rfl (List.forall_mem_nil _)
  | cons arm arms ih =>
    rw [armsStorable, Bool.and_eq_true, Bool.and_eq_true, listStorable_iff, ih, List.forall_mem_cons]

theorem bodiesStorable_iff {bodies : List (List Transform)} :
    bodiesStorable bodies = true ↔ ∀ body ∈ bodies, ∀ t ∈ body, t.isStorable = true := by
  induction bodies with
  | nil => exact iff_of_true rfl (List.forall_mem_nil _)
  | cons body bodies ih =>
    rw [bodiesStorable, Bool.and_eq_true, listStorable_iff, ih, List.forall_mem_cons]

end Transform

namespace Compile

variable {a : Arena} {n : Node} {known : Keys} {child : NodeId → List Transform → Prop}
  {body : List Transform}

theorem isStorable_objectTransform {props : List NodeId} {index : Option NodeId}
    (hchild : ∀ id body, child id body → ∀ t ∈ body, t.isStorable = true)
    (h : ObjectTransform a child props index body) : ∀ t ∈ body, t.isStorable = true := by
  obtain ⟨hdeclared, hothers⟩ := h
  refine List.forall_mem_append.mpr ⟨forall_mem_flatten fun body hbody => ?_, ?_⟩
  · obtain ⟨p, -, hp⟩ := exists_of_forall₂_right hdeclared hbody
    exact hchild _ _ hp
  · cases hothers with
    | absent => exact List.forall_mem_nil _
    | present _ hbody =>
      exact forall_mem_unlessEmpty Transform.listStorable_iff.mpr (hchild _ _ hbody)

theorem isStorable_tupleTransform {before : NodeId → Nat → List Transform} {members : List NodeId}
    (storable : n.shape.isStorable = true) (h : n.shape = .tuple members)
    (hbefore : ∀ id i, i < Nat.pow 2 64 → ∀ t ∈ before id i, t.isStorable = true)
    (hchild : ∀ id body, child id body → ∀ t ∈ body, t.isStorable = true)
    (hbody : TupleTransform a before child members body) : ∀ t ∈ body, t.isStorable = true := by
  obtain ⟨hsplit, helements, hothers⟩ := hbody
  have hfixed := lt_of_splitTuple storable h hsplit
  refine List.forall_mem_append.mpr ⟨forall_mem_flatten fun out hout => ?_, ?_⟩
  · obtain ⟨x, hx, body, hbody, rfl⟩ := exists_of_forall₂_right helements hout
    have hi := (List.snd_lt_of_mem_zipIdx hx).trans hfixed
    refine List.forall_mem_append.mpr ⟨hbefore _ _ hi, ?_⟩
    exact forall_mem_unlessEmpty (fun h => Bool.and_eq_true_iff.mpr
      ⟨decide_eq_true hi, Transform.listStorable_iff.mpr h⟩) (hchild _ _ hbody)
  · cases hothers with
    | absent => exact List.forall_mem_nil _
    | present _ hbody =>
      exact forall_mem_unlessEmpty (fun h => Bool.and_eq_true_iff.mpr
        ⟨decide_eq_true hfixed, Transform.listStorable_iff.mpr h⟩) (hchild _ _ hbody)

/-- The encoder of a node can be stored, if the tests and encoders of its children can. -/
theorem isStorable_encodeNode {check : NodeId → Check → Prop} (storable : n.shape.isStorable = true)
    (hcheck : ∀ id c, check id c → c.isStorable = true)
    (hchild : ∀ id body, child id body → ∀ t ∈ body, t.isStorable = true)
    (h : EncodeNode a check child n body) : ∀ t ∈ body, t.isStorable = true := by
  cases h with
  | atom => exact List.forall_mem_map.mpr fun _ _ => rfl
  | array _ hbody | property _ hbody =>
    exact forall_mem_unlessEmpty Transform.listStorable_iff.mpr (hchild _ _ hbody)
  | standsFor _ hbody => exact hchild _ _ hbody
  | object _ hbody => exact isStorable_objectTransform hchild hbody
  | tuple h hbody =>
    exact isStorable_tupleTransform storable h (fun _ _ _ => List.forall_mem_nil _) hchild hbody
  | union _ harms =>
    refine List.forall_mem_singleton.mpr (Transform.armsStorable_iff.mpr fun arm harm => ?_)
    obtain ⟨id, -, hc, hbody⟩ := exists_of_forall₂_right harms harm
    exact ⟨hcheck _ _ hc, hchild _ _ hbody⟩

/-- The decoder of a node can be stored, if the decoders of its children can. -/
theorem isStorable_decodeNode (storable : n.shape.isStorable = true)
    (hchild : ∀ id body, child id body → ∀ t ∈ body, t.isStorable = true)
    (h : DecodeNode a child n body) : ∀ t ∈ body, t.isStorable = true := by
  cases h with
  | atom => exact List.forall_mem_map.mpr fun _ _ => rfl
  | array _ hbody | property _ hbody =>
    exact forall_mem_unlessEmpty Transform.listStorable_iff.mpr (hchild _ _ hbody)
  | standsFor _ hbody => exact hchild _ _ hbody
  | object _ hbody =>
    exact List.forall_mem_append.mpr
      ⟨isStorable_objectTransform hchild hbody, List.forall_mem_map.mpr fun _ _ => rfl⟩
  | tuple h hbody =>
    refine isStorable_tupleTransform storable h (fun id i hi => ?_) hchild hbody
    unfold absence
    split
    · exact List.forall_mem_singleton.mpr (decide_eq_true hi)
    · exact List.forall_mem_nil _
  | union _ harms =>
    refine List.forall_mem_singleton.mpr (Transform.bodiesStorable_iff.mpr fun body hbody => ?_)
    obtain ⟨id, -, hid⟩ := exists_of_forall₂_right harms hbody
    exact hchild _ _ hid

theorem isStorable_encodeAt (storable : a.Storable) {depth : Nat} {id : NodeId}
    (h : EncodeAt a known depth id body) : ∀ t ∈ body, t.isStorable = true := by
  induction depth generalizing id body with
  | zero =>
    cases h with
    | plain h => exact nil_of_encoders_plain? h ▸ List.forall_mem_nil _
    | called => exact List.forall_mem_singleton.mpr rfl
    | inPlace _ h => exact h.elim
  | succ depth ih =>
    cases h with
    | plain h => exact nil_of_encoders_plain? h ▸ List.forall_mem_nil _
    | called => exact List.forall_mem_singleton.mpr rfl
    | inPlace _ h =>
      exact isStorable_encodeNode (storable id) (fun _ _ => isStorable_checkAt storable)
        (fun _ _ => ih) h

theorem isStorable_decodeAt (storable : a.Storable) {depth : Nat} {id : NodeId}
    (h : DecodeAt a known depth id body) : ∀ t ∈ body, t.isStorable = true := by
  induction depth generalizing id body with
  | zero =>
    cases h with
    | plain h => exact nil_of_decoders_plain? h ▸ List.forall_mem_nil _
    | called => exact List.forall_mem_singleton.mpr rfl
    | inPlace _ h => exact h.elim
  | succ depth ih =>
    cases h with
    | plain h => exact nil_of_decoders_plain? h ▸ List.forall_mem_nil _
    | called => exact List.forall_mem_singleton.mpr rfl
    | inPlace _ h => exact isStorable_decodeNode (storable id) (fun _ _ => ih) h

end Compile

/-! ## Emitters -/

namespace Emit

theorem listStorable_iff {emits : List Emit} :
    listStorable emits = true ↔ ∀ e ∈ emits, e.isStorable = true := by
  induction emits with
  | nil => exact iff_of_true rfl (List.forall_mem_nil _)
  | cons e emits ih => rw [listStorable, Bool.and_eq_true, ih, List.forall_mem_cons]

theorem membersStorable_iff {members : List (MemberEmit Emit)} :
    membersStorable members = true ↔ ∀ m ∈ members, m.emit.isStorable = true := by
  induction members with
  | nil => exact iff_of_true rfl (List.forall_mem_nil _)
  | cons m members ih => rw [membersStorable, Bool.and_eq_true, ih, List.forall_mem_cons]

theorem armsStorable_iff {arms : List (Check × Emit)} : armsStorable arms = true ↔
    ∀ arm ∈ arms, arm.1.isStorable = true ∧ arm.2.isStorable = true := by
  induction arms with
  | nil => exact iff_of_true rfl (List.forall_mem_nil _)
  | cons arm arms ih => rw [armsStorable, Bool.and_eq_true, Bool.and_eq_true, ih, List.forall_mem_cons]

end Emit

namespace Compile

variable {a : Arena} {n : Node} {known : Keys} {emit : Emit}

/-- The emitter of a node can be stored, if the tests and emitters of its children can. -/
theorem isStorable_emitNode {check : NodeId → Check → Prop} {child : NodeId → Emit → Prop}
    (hcheck : ∀ id c, check id c → c.isStorable = true)
    (hchild : ∀ id emit, child id emit → emit.isStorable = true)
    (h : EmitNode a check child n emit) : emit.isStorable = true := by
  cases h with
  | atom =>
    unfold atomEmit
    split <;> rfl
  | array _ hemit =>
    rw [Emit.isStorable]
    exact hchild _ _ hemit
  | property _ hemit | standsFor _ hemit => exact hchild _ _ hemit
  | object _ hmembers hothers =>
    refine Bool.and_eq_true_iff.mpr ⟨Emit.membersStorable_iff.mpr fun m hm => ?_, ?_⟩
    · obtain ⟨p, -, emit, hemit, rfl⟩ := exists_of_forall₂_right hmembers hm
      exact hchild _ _ hemit
    · cases hothers with
      | absent => rfl
      | present _ hemit => exact hchild _ _ hemit
  | tuple _ _ helements hothers =>
    refine Bool.and_eq_true_iff.mpr ⟨Emit.listStorable_iff.mpr fun e he => ?_, ?_⟩
    · obtain ⟨x, -, hemit⟩ := exists_of_forall₂_right helements he
      exact hchild _ _ hemit
    · cases hothers with
      | absent => rfl
      | present _ hemit => exact hchild _ _ hemit
  | union _ harms =>
    refine Emit.armsStorable_iff.mpr fun arm harm => ?_
    obtain ⟨id, -, hc, hemit⟩ := exists_of_forall₂_right harms harm
    exact ⟨hcheck _ _ hc, hchild _ _ hemit⟩

theorem isStorable_emitAt (storable : a.Storable) {depth : Nat} {id : NodeId}
    (h : EmitAt a known depth id emit) : emit.isStorable = true := by
  induction depth generalizing id emit with
  | zero =>
    cases h with
    | plain h => rw [json_of_emitters_plain? h]; rfl
    | called => rfl
    | inPlace _ h => exact h.elim
  | succ depth ih =>
    cases h with
    | plain h => rw [json_of_emitters_plain? h]; rfl
    | called => rfl
    | inPlace _ h =>
      exact isStorable_emitNode (fun _ _ => isStorable_checkAt storable) (fun _ _ => ih) h

/-! ## Functions -/

/-- **All functions of a type that can be stored can be stored.** -/
theorem FunctionOf.isStorable (storable : a.Storable) {limit : Nat} {id : NodeId} {f : Function}
    (h : FunctionOf a known limit id f) : f.body.isStorable = true := by
  cases h with
  | isType _ h =>
    cases h with
    | plain h => cases h
    | inPlace _ h =>
      exact isStorable_checkNode (storable id) (fun _ _ => isStorable_checkAt storable) h
  | typeErrors _ hpath _ h =>
    refine Report.listStorable_iff.mpr ?_
    cases h with
    | plain h => cases h
    | inPlace _ h =>
      exact isStorable_reportNode (storable id) (Site.isStorable_of_path hpath)
        (fun _ _ => isStorable_checkAt storable) (fun _ _ _ => isStorable_reportAt storable) h
  | jsonEncode _ h =>
    refine Transform.listStorable_iff.mpr ?_
    cases h with
    | plain h => exact nil_of_encoders_plain? h ▸ List.forall_mem_nil _
    | inPlace _ h =>
      exact isStorable_encodeNode (storable id) (fun _ _ => isStorable_checkAt storable)
        (fun _ _ => isStorable_encodeAt storable) h
  | jsonDecode _ h =>
    refine Transform.listStorable_iff.mpr ?_
    cases h with
    | plain h => exact nil_of_decoders_plain? h ▸ List.forall_mem_nil _
    | inPlace _ h =>
      exact isStorable_decodeNode (storable id) (fun _ _ => isStorable_decodeAt storable) h
  | jsonStringify _ h =>
    cases h with
    | plain h => rw [json_of_emitters_plain? h]; rfl
    | inPlace _ h =>
      exact isStorable_emitNode (fun _ _ => isStorable_checkAt storable)
        (fun _ _ => isStorable_emitAt storable) h

end Compile

end Typeforge
