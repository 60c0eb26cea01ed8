/-
# `Typeforge.Proofs.Stored.Code` — stored code comes back

A function is stored with all its code, statement inside statement, and comes back as it
was.  Places in arrays have sixty-four bits and loops are counted in eight; a number
literal has to be a decimal.  What is left is the depth: a decoder goes as deep as a
document may be nested, so each fragment comes back where the decoder may go deeper than
the document does.
-/
import Typeforge.Code.Json
import Typeforge.Proofs.Stored.Literals

namespace Typeforge

open Decode

/-! ## What can be stored -/

namespace Access

/-- Whether a place can be stored. -/
def isStorable : Access → Bool
  | member _ => true
  | element i => decide (i < Nat.pow 2 64)

end Access

namespace PathSegment

/-- Whether a step of a path can be stored. -/
def isStorable : PathSegment → Bool
  | key _ => true
  | index i => decide (i < Nat.pow 2 64)
  | loop depth => decide (depth < 256)

end PathSegment

namespace Check

mutual

/-- Whether the numbers of a check can be stored. -/
def isStorable : Check → Bool
  | always | is _ | finiteNumber | call _ => true
  | equals literal => literal.isStorable
  | anyOf literals => literals.all Literal.isStorable
  | maxLength n => decide (n < Nat.pow 2 64)
  | all checks | any checks => listStorable checks
  | part access _ check => access.isStorable && check.isStorable
  | each start check => decide (start < Nat.pow 2 64) && check.isStorable
  | eachKey _ _ check => check.isStorable

def listStorable : List Check → Bool
  | [] => true
  | c :: rest => c.isStorable && listStorable rest

end

end Check

namespace Report

mutual

/-- Whether the numbers of a report can be stored. -/
def isStorable : Report → Bool
  | expect check path _ after =>
    check.isStorable && path.all PathSegment.isStorable && listStorable after
  | part access _ body => access.isStorable && listStorable body
  | each start body => decide (start < Nat.pow 2 64) && listStorable body
  | eachKey _ _ body => listStorable body
  | call _ path => path.all PathSegment.isStorable

def listStorable : List Report → Bool
  | [] => true
  | r :: rest => r.isStorable && listStorable rest

end

end Report

namespace Transform

mutual

/-- Whether the numbers of a transform can be stored. -/
def isStorable : Transform → Bool
  | encode _ | decode _ | revive _ | call _ => true
  | part access _ body => access.isStorable && listStorable body
  | absent access => access.isStorable
  | each start body => decide (start < Nat.pow 2 64) && listStorable body
  | eachKey _ _ body => listStorable body
  | tag _ arms => armsStorable arms
  | untag arms => bodiesStorable arms

def listStorable : List Transform → Bool
  | [] => true
  | t :: rest => t.isStorable && listStorable rest

def armsStorable : List (Check × List Transform) → Bool
  | [] => true
  | (check, body) :: rest => check.isStorable && listStorable body && armsStorable rest

def bodiesStorable : List (List Transform) → Bool
  | [] => true
  | body :: rest => listStorable body && bodiesStorable rest

end

end Transform

namespace Emit

mutual

/-- Whether the numbers of an emitter can be stored. -/
def isStorable : Emit → Bool
  | json | encoded _ | call _ => true
  | object members index => membersStorable members && indexStorable index
  | array item => item.isStorable
  | tuple elements rest => listStorable elements && restStorable rest
  | union _ arms => armsStorable arms

def membersStorable : List (MemberEmit Emit) → Bool
  | [] => true
  | ⟨_, _, emit⟩ :: rest => emit.isStorable && membersStorable rest

def indexStorable : Option (KeyFilter × Emit) → Bool
  | none => true
  | some (_, emit) => emit.isStorable

def listStorable : List Emit → Bool
  | [] => true
  | e :: rest => e.isStorable && listStorable rest

def restStorable : Option Emit → Bool
  | none => true
  | some e => e.isStorable

def armsStorable : List (Check × Emit) → Bool
  | [] => true
  | (check, e) :: rest => check.isStorable && e.isStorable && armsStorable rest

end

end Emit

/-- Whether the numbers of a body can be stored. -/
def Body.isStorable : Body → Bool
  | isType check => check.isStorable
  | typeErrors body => Report.listStorable body
  | jsonEncode body | jsonDecode body => Transform.listStorable body
  | jsonStringify emit => emit.isStorable

/-! ## Names -/

theorem Codec.restores (c : Codec) : Restores Codec.ofJson c.toJson c := by
  cases c <;> exact restores_oneOf rfl

theorem Target.restores (t : Target) : Restores Target.decode t.toJson t := by
  cases t <;> exact restores_oneOf rfl

theorem KeyFilter.restores (f : KeyFilter) : Restores KeyFilter.decode f.toJson f := by
  cases f <;> exact restores_oneOf rfl

theorem Kind.restores (k : Kind) : Restores Kind.decode k.toJson k := by
  cases k <;> exact restores_oneOf rfl

theorem FunctionKey.restores (k : FunctionKey) : Restores FunctionKey.decode k.toJson k :=
  (Fills.record (.member (restores_string _) (fun _ => rfl)
    (.member k.target.restores (fun _ => rfl) .nil)) rfl).bind rfl

/-! ## Parts and paths -/

theorem Access.restores {a : Access} (h : a.isStorable = true) :
    Restores Access.decode a.toJson a := by
  cases a with
  | member name => exact restores_named rfl rfl ((restores_string name).map member)
  | element i => exact restores_named rfl rfl ((restores_nat64 (of_decide_eq_true h)).map element)

theorem PathSegment.restores {s : PathSegment} (h : s.isStorable = true) :
    Restores PathSegment.decode s.toJson s := by
  cases s with
  | key name => exact restores_named rfl rfl ((restores_string name).map key)
  | index i => exact restores_named rfl rfl ((restores_nat64 (of_decide_eq_true h)).map index)
  | loop depth =>
    exact restores_named rfl rfl
      ((restores_natBelow (of_decide_eq_true h)
        (Nat.pow_le_pow_right two_pos (by omega : 8 ≤ 64))).map loop)

theorem restores_path {path : List PathSegment} (h : path.all PathSegment.isStorable = true) :
    Restores (Decode.list PathSegment.decode) (pathToJson path) path :=
  restores_list_map fun _ hs => PathSegment.restores (List.all_eq_true.mp h _ hs)

theorem restores_strings (names : List String) :
    Restores (Decode.list Decode.string) (.array (names.map .string)) names :=
  restores_list_map fun name _ => restores_string name

/-! ## Statements about parts -/

section Parts

variable {α : Type} {decode : Decoder α} {content : α} {j : Json} {contentName : String}

/-- What a statement applies to a part is stored under one of two names. -/
theorem fill_content (named : contentName = "check" ∨ contentName = "body") (d : PartDraft α)
    (source : Source) : PartDraft.fill decode d contentName source =
      decode source >>= fun c => pure { d with content := some c } := by
  rcases named with rfl | rfl <;> rfl

theorem restores_part {access : Access} (haccess : access.isStorable = true) (optional : Bool)
    (named : contentName = "check" ∨ contentName = "body") (h : Restores decode j content) :
    Restores (PartDraft.part contentName decode)
      (.object [("access", access.toJson), ("optional", .bool optional), (contentName, j)])
      (access, optional, content) := by
  have admitted :
      admits ["access", "optional", contentName] [] ["access", "optional", contentName] = true := by
    rcases named with rfl | rfl <;> rfl
  exact (Fills.record (.member (Access.restores haccess) (fun _ => rfl)
    (.member (restores_bool optional) (fun _ => rfl)
      (.member h (fill_content named _) .nil))) admitted).bind rfl

theorem restores_each {start : Nat} (hstart : start < Nat.pow 2 64)
    (named : contentName = "check" ∨ contentName = "body") (h : Restores decode j content) :
    Restores (PartDraft.each contentName decode)
      (.object [("from", .ofNat start), (contentName, j)]) (start, content) := by
  have admitted : admits ["from", contentName] [] ["from", contentName] = true := by
    rcases named with rfl | rfl <;> rfl
  exact (Fills.record (.member (restores_nat64 hstart) (fun _ => rfl)
    (.member h (fill_content named _) .nil)) admitted).bind rfl

theorem restores_eachKey (filter : KeyFilter) (skip : List String)
    (named : contentName = "check" ∨ contentName = "body") (h : Restores decode j content) :
    Restores (PartDraft.eachKey contentName decode)
      (.object [("filter", filter.toJson), ("skip", .array (skip.map .string)), (contentName, j)])
      (filter, skip, content) := by
  have admitted : admits ["filter", "skip", contentName] [] ["filter", "skip", contentName] = true := by
    rcases named with rfl | rfl <;> rfl
  exact (Fills.record (.member filter.restores (fun _ => rfl)
    (.member (restores_strings skip) (fun _ => rfl)
      (.member h (fill_content named _) .nil))) admitted).bind rfl

end Parts

/-! ## Depth -/

/-- The content of an alternative is less deep than the alternative. -/
theorem Json.depth_le_of_named {name : String} {j : Json} {d : Nat}
    (h : (Json.named name j).depth < d + 1) : j.depth ≤ d := by
  have hnamed : (Json.named name j).depth = j.depth + 1 := congrArg Nat.succ (Nat.max_zero _)
  omega

/-! ## Checks -/

namespace Check

mutual

/-- A check comes back, and so do the checks in it. -/
theorem restores : ∀ (c : Check) {fuel : Nat}, c.isStorable = true → c.toJson.depth < fuel →
    Restores (decodeWithin fuel) c.toJson c
  | _, 0, _, hd => absurd hd (Nat.not_lt_zero _)
  | always, _ + 1, _, _ => restores_bare rfl
  | is kind, _ + 1, _, _ => restores_named rfl rfl (kind.restores.map is)
  | finiteNumber, _ + 1, _, _ => restores_bare rfl
  | equals _, _ + 1, h, _ => restores_named rfl rfl ((Literal.restores_decode h).map equals)
  | anyOf _, _ + 1, h, _ =>
    restores_named rfl rfl ((restores_list_map fun _ hl =>
      Literal.restores_decode (List.all_eq_true.mp h _ hl)).map anyOf)
  | maxLength _, _ + 1, h, _ =>
    restores_named rfl rfl ((restores_nat64 (of_decide_eq_true h)).map maxLength)
  | all checks, _ + 1, h, hd =>
    restores_named rfl rfl
      ((restores_list (forall₂_restores checks h (Json.depth_le_of_named hd))).map all)
  | any checks, _ + 1, h, hd =>
    restores_named rfl rfl
      ((restores_list (forall₂_restores checks h (Json.depth_le_of_named hd))).map any)
  | part _ isOptional c, _ + 1, h, hd => by
    have hdepths := Json.depth_le_of_named hd
    simp only [Json.depth_object_cons_le] at hdepths
    obtain ⟨haccess, hc⟩ := Bool.and_eq_true_iff.mp h
    exact restores_named rfl rfl
      ((restores_part haccess isOptional (.inl rfl) (restores c hc hdepths.2.2.1)).bind rfl)
  | each _ c, _ + 1, h, hd => by
    have hdepths := Json.depth_le_of_named hd
    simp only [Json.depth_object_cons_le] at hdepths
    obtain ⟨hstart, hc⟩ := Bool.and_eq_true_iff.mp h
    exact restores_named rfl rfl
      ((restores_each (of_decide_eq_true hstart) (.inl rfl) (restores c hc hdepths.2.1)).bind rfl)
  | eachKey filter skip c, _ + 1, h, hd => by
    have hdepths := Json.depth_le_of_named hd
    simp only [Json.depth_object_cons_le] at hdepths
    exact restores_named rfl rfl
      ((restores_eachKey filter skip (.inl rfl) (restores c h hdepths.2.2.1)).bind rfl)
  | call identity, _ + 1, _, _ => restores_named rfl rfl ((restores_string identity).map call)

theorem forall₂_restores : ∀ (checks : List Check) {fuel : Nat}, listStorable checks = true →
    (Json.array (listToJson checks)).depth ≤ fuel →
    List.Forall₂ (Restores (decodeWithin fuel)) (listToJson checks) checks
  | [], _, _, _ => .nil
  | c :: rest, _, h, hd => by
    obtain ⟨hc, hrest⟩ := Bool.and_eq_true_iff.mp h
    obtain ⟨hdc, hdrest⟩ := Json.depth_array_cons_le.mp hd
    exact .cons (restores c hc hdc) (forall₂_restores rest hrest hdrest)

end

/-- A check inside other code is read as deep as a document may be nested. -/
theorem restores_decode {c : Check} {d : Nat} (h : c.isStorable = true) (hd : c.toJson.depth < d)
    (shallow : d ≤ Json.depthLimit + 1) : Restores decode c.toJson c :=
  c.restores h (hd.trans_le shallow)

end Check

/-! ## Reports -/

namespace Report

mutual

/-- A report comes back, and so do the reports in it. -/
theorem restores : ∀ (r : Report) {fuel : Nat}, r.isStorable = true → r.toJson.depth < fuel →
    fuel ≤ Json.depthLimit + 1 → Restores (decodeWithin fuel) r.toJson r
  | _, 0, _, hd, _ => absurd hd (Nat.not_lt_zero _)
  | expect c path expected after, _ + 1, h, hd, shallow => by
    have hdepths := Json.depth_le_of_named hd
    simp only [Json.depth_object_cons_le] at hdepths
    obtain ⟨h, hafter⟩ := Bool.and_eq_true_iff.mp h
    obtain ⟨hc, hpath⟩ := Bool.and_eq_true_iff.mp h
    have shallow := (Nat.le_succ _).trans shallow
    exact restores_named rfl rfl ((Fills.record
      (.member (Check.restores_decode hc hdepths.1 shallow) (fun _ => rfl)
        (.member (restores_path hpath) (fun _ => rfl)
          (.member (restores_string expected) (fun _ => rfl)
            (.member (restores_list (forall₂_restores after hafter hdepths.2.2.2.1.le shallow))
              (fun _ => rfl) .nil)))) rfl).bind rfl)
  | part _ isOptional body, _ + 1, h, hd, shallow => by
    have hdepths := Json.depth_le_of_named hd
    simp only [Json.depth_object_cons_le] at hdepths
    obtain ⟨haccess, hbody⟩ := Bool.and_eq_true_iff.mp h
    have hlist := restores_list
      (forall₂_restores body hbody hdepths.2.2.1.le ((Nat.le_succ _).trans shallow))
    exact restores_named rfl rfl ((restores_part haccess isOptional (.inr rfl) hlist).bind rfl)
  | each _ body, _ + 1, h, hd, shallow => by
    have hdepths := Json.depth_le_of_named hd
    simp only [Json.depth_object_cons_le] at hdepths
    obtain ⟨hstart, hbody⟩ := Bool.and_eq_true_iff.mp h
    have hlist := restores_list
      (forall₂_restores body hbody hdepths.2.1.le ((Nat.le_succ _).trans shallow))
    exact restores_named rfl rfl
      ((restores_each (of_decide_eq_true hstart) (.inr rfl) hlist).bind rfl)
  | eachKey filter skip body, _ + 1, h, hd, shallow => by
    have hdepths := Json.depth_le_of_named hd
    simp only [Json.depth_object_cons_le] at hdepths
    have hlist := restores_list
      (forall₂_restores body h hdepths.2.2.1.le ((Nat.le_succ _).trans shallow))
    exact restores_named rfl rfl ((restores_eachKey filter skip (.inr rfl) hlist).bind rfl)
  | call identity _, _ + 1, h, _, _ =>
    restores_named rfl rfl ((Fills.record (.member (restores_string identity) (fun _ => rfl)
      (.member (restores_path h) (fun _ => rfl) .nil)) rfl).bind rfl)

theorem forall₂_restores : ∀ (body : List Report) {fuel : Nat}, listStorable body = true →
    (Json.array (listToJson body)).depth ≤ fuel → fuel ≤ Json.depthLimit + 1 →
    List.Forall₂ (Restores (decodeWithin fuel)) (listToJson body) body
  | [], _, _, _, _ => .nil
  | r :: rest, _, h, hd, shallow => by
    obtain ⟨hr, hrest⟩ := Bool.and_eq_true_iff.mp h
    obtain ⟨hdr, hdrest⟩ := Json.depth_array_cons_le.mp hd
    exact .cons (restores r hr hdr shallow) (forall₂_restores rest hrest hdrest shallow)

end

end Report

/-! ## Transforms -/

namespace Transform

mutual

/-- A transform comes back, and so do the transforms in it. -/
theorem restores : ∀ (t : Transform) {fuel : Nat}, t.isStorable = true → t.toJson.depth < fuel →
    fuel ≤ Json.depthLimit + 1 → Restores (decodeWithin fuel) t.toJson t
  | _, 0, _, hd, _ => absurd hd (Nat.not_lt_zero _)
  | encode codec, _ + 1, _, _, _ => restores_named rfl rfl (codec.restores.map encode)
  | decode codec, _ + 1, _, _, _ => restores_named rfl rfl (codec.restores.map decode)
  | part _ isOptional body, _ + 1, h, hd, shallow => by
    have hdepths := Json.depth_le_of_named hd
    simp only [Json.depth_object_cons_le] at hdepths
    obtain ⟨haccess, hbody⟩ := Bool.and_eq_true_iff.mp h
    have hlist := restores_list
      (forall₂_restores body hbody hdepths.2.2.1.le ((Nat.le_succ _).trans shallow))
    exact restores_named rfl rfl ((restores_part haccess isOptional (.inr rfl) hlist).bind rfl)
  | absent _, _ + 1, h, _, _ => restores_named rfl rfl ((Access.restores h).map absent)
  | each _ body, _ + 1, h, hd, shallow => by
    have hdepths := Json.depth_le_of_named hd
    simp only [Json.depth_object_cons_le] at hdepths
    obtain ⟨hstart, hbody⟩ := Bool.and_eq_true_iff.mp h
    have hlist := restores_list
      (forall₂_restores body hbody hdepths.2.1.le ((Nat.le_succ _).trans shallow))
    exact restores_named rfl rfl
      ((restores_each (of_decide_eq_true hstart) (.inr rfl) hlist).bind rfl)
  | eachKey filter skip body, _ + 1, h, hd, shallow => by
    have hdepths := Json.depth_le_of_named hd
    simp only [Json.depth_object_cons_le] at hdepths
    have hlist := restores_list
      (forall₂_restores body h hdepths.2.2.1.le ((Nat.le_succ _).trans shallow))
    exact restores_named rfl rfl ((restores_eachKey filter skip (.inr rfl) hlist).bind rfl)
  | tag union arms, _ + 1, h, hd, shallow => by
    have hdepths := Json.depth_le_of_named hd
    simp only [Json.depth_object_cons_le] at hdepths
    have hlist := restores_list
      (forall₂_restores_arms arms h hdepths.2.1.le ((Nat.le_succ _).trans shallow))
    exact restores_named rfl rfl ((Fills.record (.member (restores_string union) (fun _ => rfl)
      (.member hlist (fun _ => rfl) .nil)) rfl).bind rfl)
  | untag arms, _ + 1, h, hd, shallow => by
    have hdepths := Json.depth_le_of_named hd
    simp only [Json.depth_object_cons_le] at hdepths
    have hlist := restores_list
      (forall₂_restores_bodies arms h hdepths.1.le ((Nat.le_succ _).trans shallow))
    exact restores_named rfl rfl
      ((Fills.record (.member hlist (fun _ => rfl) .nil) rfl).bind rfl)
  | revive className, _ + 1, _, _, _ =>
    restores_named rfl rfl ((restores_string className).map revive)
  | call identity, _ + 1, _, _, _ => restores_named rfl rfl ((restores_string identity).map call)

theorem forall₂_restores : ∀ (body : List Transform) {fuel : Nat}, listStorable body = true →
    (Json.array (listToJson body)).depth ≤ fuel → fuel ≤ Json.depthLimit + 1 →
    List.Forall₂ (Restores (decodeWithin fuel)) (listToJson body) body
  | [], _, _, _, _ => .nil
  | t :: rest, _, h, hd, shallow => by
    obtain ⟨ht, hrest⟩ := Bool.and_eq_true_iff.mp h
    obtain ⟨hdt, hdrest⟩ := Json.depth_array_cons_le.mp hd
    exact .cons (restores t ht hdt shallow) (forall₂_restores rest hrest hdrest shallow)

theorem forall₂_restores_arms : ∀ (arms : List (Check × List Transform)) {fuel : Nat},
    armsStorable arms = true → (Json.array (armsToJson arms)).depth ≤ fuel →
    fuel ≤ Json.depthLimit + 1 →
    List.Forall₂ (Restores (decodeArm (decodeWithin fuel))) (armsToJson arms) arms
  | [], _, _, _, _ => .nil
  | (c, body) :: rest, _, h, hd, shallow => by
    obtain ⟨h, hrest⟩ := Bool.and_eq_true_iff.mp h
    obtain ⟨hc, hbody⟩ := Bool.and_eq_true_iff.mp h
    obtain ⟨hdarm, hdrest⟩ := Json.depth_array_cons_le.mp hd
    have hdepths := hdarm.le
    simp only [Json.depth_object_cons_le] at hdepths
    have hlist := restores_list (forall₂_restores body hbody hdepths.2.1.le shallow)
    exact .cons ((Fills.record
        (.member (Check.restores_decode hc hdepths.1 shallow) (fun _ => rfl)
          (.member hlist (fun _ => rfl) .nil)) rfl).bind rfl)
      (forall₂_restores_arms rest hrest hdrest shallow)

theorem forall₂_restores_bodies : ∀ (arms : List (List Transform)) {fuel : Nat},
    bodiesStorable arms = true → (Json.array (bodiesToJson arms)).depth ≤ fuel →
    fuel ≤ Json.depthLimit + 1 →
    List.Forall₂ (Restores (Decode.list (decodeWithin fuel))) (bodiesToJson arms) arms
  | [], _, _, _, _ => .nil
  | body :: rest, _, h, hd, shallow => by
    obtain ⟨hbody, hrest⟩ := Bool.and_eq_true_iff.mp h
    obtain ⟨hdbody, hdrest⟩ := Json.depth_array_cons_le.mp hd
    exact .cons (restores_list (forall₂_restores body hbody hdbody.le shallow))
      (forall₂_restores_bodies rest hrest hdrest shallow)

end

end Transform

/-! ## Emitters -/

namespace Emit

/-- An emitter is never stored as null, which stands for none. -/
theorem toJson_ne_null (e : Emit) : e.toJson ≠ .null := by
  cases e <;> exact nofun

mutual

/-- An emitter comes back, and so do the emitters in it. -/
theorem restores : ∀ (e : Emit) {fuel : Nat}, e.isStorable = true → e.toJson.depth < fuel →
    fuel ≤ Json.depthLimit + 1 → Restores (decodeWithin fuel) e.toJson e
  | _, 0, _, hd, _ => absurd hd (Nat.not_lt_zero _)
  | json, _ + 1, _, _, _ => restores_bare rfl
  | encoded codec, _ + 1, _, _, _ => restores_named rfl rfl (codec.restores.map encoded)
  | object members index, _ + 1, h, hd, shallow => by
    have hdepths := Json.depth_le_of_named hd
    simp only [Json.depth_object_cons_le] at hdepths
    obtain ⟨hmembers, hindex⟩ := Bool.and_eq_true_iff.mp h
    have shallow := (Nat.le_succ _).trans shallow
    have hlist := restores_list (forall₂_restores_members members hmembers hdepths.1.le shallow)
    exact restores_named rfl rfl ((Fills.record (.member hlist (fun _ => rfl)
      (.member (restores_index index hindex hdepths.2.1.le shallow) (fun _ => rfl) .nil)) rfl).bind rfl)
  | array item, _ + 1, h, hd, shallow => by
    have hdepths := Json.depth_le_of_named hd
    simp only [Json.depth_object_cons_le] at hdepths
    have hitem := restores item h hdepths.1 ((Nat.le_succ _).trans shallow)
    exact restores_named rfl rfl
      ((Fills.record (.member hitem (fun _ => rfl) .nil) rfl).bind rfl)
  | tuple elements rest, _ + 1, h, hd, shallow => by
    have hdepths := Json.depth_le_of_named hd
    simp only [Json.depth_object_cons_le] at hdepths
    obtain ⟨helements, hrest⟩ := Bool.and_eq_true_iff.mp h
    have shallow := (Nat.le_succ _).trans shallow
    have hlist := restores_list (forall₂_restores elements helements hdepths.1.le shallow)
    exact restores_named rfl rfl ((Fills.record (.member hlist (fun _ => rfl)
      (.member (restores_rest rest hrest hdepths.2.1 shallow) (fun _ => rfl) .nil)) rfl).bind rfl)
  | union name arms, _ + 1, h, hd, shallow => by
    have hdepths := Json.depth_le_of_named hd
    simp only [Json.depth_object_cons_le] at hdepths
    have hlist := restores_list
      (forall₂_restores_arms arms h hdepths.2.1.le ((Nat.le_succ _).trans shallow))
    exact restores_named rfl rfl ((Fills.record (.member (restores_string name) (fun _ => rfl)
      (.member hlist (fun _ => rfl) .nil)) rfl).bind rfl)
  | call identity, _ + 1, _, _, _ => restores_named rfl rfl ((restores_string identity).map call)

theorem forall₂_restores_members : ∀ (members : List (MemberEmit Emit)) {fuel : Nat},
    membersStorable members = true → (Json.array (membersToJson members)).depth ≤ fuel →
    fuel ≤ Json.depthLimit + 1 →
    List.Forall₂ (Restores (decodeMember (decodeWithin fuel))) (membersToJson members) members
  | [], _, _, _, _ => .nil
  | ⟨name, isOptional, e⟩ :: rest, _, h, hd, shallow => by
    obtain ⟨he, hrest⟩ := Bool.and_eq_true_iff.mp h
    obtain ⟨hdmember, hdrest⟩ := Json.depth_array_cons_le.mp hd
    have hdepths := hdmember.le
    simp only [Json.depth_object_cons_le] at hdepths
    exact .cons ((Fills.record (.member (restores_string name) (fun _ => rfl)
        (.member (restores_bool isOptional) (fun _ => rfl)
          (.member (restores e he hdepths.2.2.1 shallow) (fun _ => rfl) .nil))) rfl).bind rfl)
      (forall₂_restores_members rest hrest hdrest shallow)

theorem restores_index : ∀ (index : Option (KeyFilter × Emit)) {fuel : Nat},
    indexStorable index = true → (indexToJson index).depth ≤ fuel → fuel ≤ Json.depthLimit + 1 →
    Restores (optional (decodeIndex (decodeWithin fuel))) (indexToJson index) index
  | none, _, _, _, _ => restores_none _
  | some (filter, e), _, h, hd, shallow => by
    have hdepths := hd
    rw [indexToJson] at hdepths
    simp only [Json.depth_object_cons_le] at hdepths
    exact restores_some ((Fills.record (.member filter.restores (fun _ => rfl)
      (.member (restores e h hdepths.2.1 shallow) (fun _ => rfl) .nil)) rfl).bind rfl) nofun

theorem forall₂_restores : ∀ (elements : List Emit) {fuel : Nat}, listStorable elements = true →
    (Json.array (listToJson elements)).depth ≤ fuel → fuel ≤ Json.depthLimit + 1 →
    List.Forall₂ (Restores (decodeWithin fuel)) (listToJson elements) elements
  | [], _, _, _, _ => .nil
  | e :: rest, _, h, hd, shallow => by
    obtain ⟨he, hrest⟩ := Bool.and_eq_true_iff.mp h
    obtain ⟨hde, hdrest⟩ := Json.depth_array_cons_le.mp hd
    exact .cons (restores e he hde shallow) (forall₂_restores rest hrest hdrest shallow)

theorem restores_rest : ∀ (rest : Option Emit) {fuel : Nat}, restStorable rest = true →
    (restToJson rest).depth < fuel → fuel ≤ Json.depthLimit + 1 →
    Restores (optional (decodeWithin fuel)) (restToJson rest) rest
  | none, _, _, _, _ => restores_none _
  | some e, _, h, hd, shallow => restores_some (restores e h hd shallow) e.toJson_ne_null

theorem forall₂_restores_arms : ∀ (arms : List (Check × Emit)) {fuel : Nat},
    armsStorable arms = true → (Json.array (armsToJson arms)).depth ≤ fuel →
    fuel ≤ Json.depthLimit + 1 →
    List.Forall₂ (Restores (pair Check.decode (decodeWithin fuel))) (armsToJson arms) arms
  | [], _, _, _, _ => .nil
  | (c, e) :: rest, _, h, hd, shallow => by
    obtain ⟨h, hrest⟩ := Bool.and_eq_true_iff.mp h
    obtain ⟨hc, he⟩ := Bool.and_eq_true_iff.mp h
    obtain ⟨hdarm, hdrest⟩ := Json.depth_array_cons_le.mp hd
    have hdepths := hdarm.le
    simp only [Json.depth_array_cons_le] at hdepths
    exact .cons (restores_pair (Check.restores_decode hc hdepths.1 shallow)
        (restores e he hdepths.2.1 shallow))
      (forall₂_restores_arms rest hrest hdrest shallow)

end

end Emit

/-! ## Functions -/

namespace Body

theorem restores {b : Body} (h : b.isStorable = true) (hd : b.toJson.depth ≤ Json.depthLimit) :
    Restores decode b.toJson b := by
  have hdepths := hd
  rw [toJson] at hdepths
  simp only [Json.depth_object_cons_le] at hdepths
  have shallow := hdepths.2.1.trans (Nat.lt_succ_self _)
  cases b with
  | isType c => exact restores_tagged (by decide) rfl ((c.restores h shallow).map isType)
  | typeErrors body =>
    exact restores_tagged (by decide) rfl
      ((restores_list (Report.forall₂_restores body h shallow.le le_rfl)).map typeErrors)
  | jsonEncode body =>
    exact restores_tagged (by decide) rfl
      ((restores_list (Transform.forall₂_restores body h shallow.le le_rfl)).map jsonEncode)
  | jsonDecode body =>
    exact restores_tagged (by decide) rfl
      ((restores_list (Transform.forall₂_restores body h shallow.le le_rfl)).map jsonDecode)
  | jsonStringify e =>
    exact restores_tagged (by decide) rfl ((e.restores h shallow le_rfl).map jsonStringify)

end Body

theorem Function.restores {f : Function} (h : f.body.isStorable = true)
    (hd : f.toJson.depth ≤ Json.depthLimit) : Restores Function.decode f.toJson f := by
  have hdepths := hd
  rw [toJson] at hdepths
  simp only [Json.depth_object_cons_le] at hdepths
  exact (Fills.record (.member f.key.restores (fun _ => rfl)
    (.member (restores_strings f.params) (fun _ => rfl)
      (.member (Body.restores h hdepths.2.2.1.le) (fun _ => rfl) .nil))) rfl).bind rfl

end Typeforge
