/-
# `Typeforge.Proofs.Documents.Plain` — plain JSON, as a document and as text

A value is carried to JSON in two ways that know nothing of each other: one
builds a document, the other writes text.  What is written denotes what is
built; both leave the same members out, and both stop at big integers.

Which big integer stops a document is said without either of the two: it is the
first one that is found when the value is gone through part by part.
-/
import Typeforge.Proofs.Documents.Numerals

namespace Typeforge

namespace Value

open Json

mutual

/-- Whether the members of an object have different names, at all depths. -/
def hasNames : Value → Bool
  | array items => itemsHaveNames items
  | object members => decide (members.map Prod.fst).Nodup && membersHaveNames members
  | _ => true

def itemsHaveNames : List Value → Bool
  | [] => true
  | v :: rest => v.hasNames && itemsHaveNames rest

def membersHaveNames : List (String × Value) → Bool
  | [] => true
  | (_, v) :: rest => v.hasNames && membersHaveNames rest

end

theorem hasNames_of_mem_items {items : List Value} {v : Value} (h : itemsHaveNames items = true)
    (hv : v ∈ items) : v.hasNames = true := by
  induction items with
  | nil => cases hv
  | cons w rest ih =>
    obtain ⟨hw, hrest⟩ := Bool.and_eq_true_iff.mp h
    rcases List.mem_cons.mp hv with rfl | hv
    · exact hw
    · exact ih hrest hv

theorem hasNames_of_mem_members {members : List (String × Value)} {m : String × Value}
    (h : membersHaveNames members = true) (hm : m ∈ members) : m.2.hasNames = true := by
  induction members with
  | nil => cases hm
  | cons n rest ih =>
    obtain ⟨hn, hrest⟩ := Bool.and_eq_true_iff.mp h
    rcases List.mem_cons.mp hm with rfl | hm
    · exact hn
    · exact ih hrest hm

/-! ## Pieces with commas between them -/

/-- Pieces with commas between them, after something that stands before the first one. -/
def joined (comma : String) : List String → String
  | [] => ""
  | text :: texts => comma ++ ",".intercalate (text :: texts)

theorem joined_cons (comma text : String) (texts : List String) :
    joined comma (text :: texts) = comma ++ (text ++ joined "," texts) := by
  cases texts with
  | nil => rw [joined, joined, String.append_empty, String.intercalate_singleton]
  | cons next texts => rw [joined, joined, String.intercalate_cons_cons, String.append_assoc]

theorem joined_empty (texts : List String) : joined "" texts = ",".intercalate texts := by
  cases texts with
  | nil => rfl
  | cons text texts => exact String.empty_append

/-! ## Document and text -/

/-- What the plain JSON of a value is. -/
inductive Plain (v : Value) : Prop where
  | present {j : Json} {text : String} (document : v.toJsonSlot = .ok (some j))
      (stays : v.isOmitted = false) (written : v.jsonText = .ok text) (denotes : j.DenotedBy text)
  | absent (document : v.toJsonSlot = .ok none) (omitted : v.isOmitted = true)
      (written : v.jsonText = .ok "null")
  | refused {e : RunError} {n : Int} (document : v.toJsonSlot = .error e)
      (stays : v.isOmitted = false) (written : v.jsonText.stop = some (.bigIntNotSerializable n))

/-- What the plain JSON of items is. -/
inductive PlainItems (items : List Value) : Prop where
  | present {js : List Json} {texts : List String} (document : toJsonItems items = .ok js)
      (written : ∀ comma, jsonItems comma items = .ok (joined comma texts))
      (denotes : List.Forall₂ DenotedBy js texts)
  | refused {e : RunError} (document : toJsonItems items = .error e)
      (written : ∀ comma, ∃ n, (jsonItems comma items).stop = some (.bigIntNotSerializable n))

/-- What the plain JSON of members is. -/
inductive PlainMembers (members : List (String × Value)) : Prop where
  | present {js : List (String × Json)} {texts : List String}
      (document : toJsonMembers members = .ok js)
      (written : ∀ comma, jsonMembers comma members = .ok (joined comma texts))
      (denotes : List.Forall₂ MemberDenotedBy js texts)
      (names : (js.map Prod.fst).Sublist (members.map Prod.fst))
  | refused {e : RunError} (document : toJsonMembers members = .error e)
      (written : ∀ comma, ∃ n, (jsonMembers comma members).stop = some (.bigIntNotSerializable n))

end Value

namespace Written

theorem append_ok (a b : String) : Written.ok a ++ Written.ok b = .ok (a ++ b) := rfl

theorem stop_ok_append (a : String) (w : Written) : (Written.ok a ++ w).stop = w.stop := rfl

/-- Of two pieces the first one that stops is the last. -/
theorem stop_append_eq (w w' : Written) : (w ++ w').stop = w.stop.or w'.stop := by
  show (w.andThen w').stop = _
  rw [andThen]
  cases hstop : w.stop with
  | none => rfl
  | some e => exact hstop

theorem stop_append {w : Written} {e : RunError} (h : w.stop = some e) (w' : Written) :
    (w ++ w').stop = some e := by
  rw [stop_append_eq, h]
  rfl

end Written

namespace Value

open Json

mutual

/-- **The plain text of a value denotes its plain document.** -/
theorem plain : ∀ v : Value, v.hasNames = true → v.Plain
  | undefined, _ | function _, _ | symbol _, _ => .absent rfl rfl rfl
  | null, _ => .present rfl rfl rfl denotedBy_null
  | bool b, _ => .present rfl rfl rfl (denotedBy_bool b)
  | number x, _ => .present rfl rfl rfl (denotedBy_number x)
  | string s, _ => .present rfl rfl rfl (denotedBy_string s)
  | bigint _, _ => .refused rfl rfl rfl
  | regexp _, _ => .present rfl rfl rfl (denotedBy_object .nil .nil)
  | date i, _ => .present rfl rfl rfl (denotedBy_string i.text)
  | array items, h => by
    rcases plainItems items h with ⟨document, written, denotes⟩ | ⟨document, written⟩
    · refine .present (by rw [toJsonSlot, document]; rfl) rfl ?_ (denotedBy_array denotes)
      rw [jsonText, written, joined_empty]
      rfl
    · obtain ⟨n, hn⟩ := written ""
      exact .refused (by rw [toJsonSlot, document]; rfl) rfl
        (Written.stop_append (w := .ok "[" ++ jsonItems "" items) hn _)
  | object members, h => by
    obtain ⟨hnames, h⟩ := Bool.and_eq_true_iff.mp h
    rcases plainMembers members h with ⟨document, written, denotes, names⟩ | ⟨document, written⟩
    · refine .present (by rw [toJsonSlot, document]; rfl) rfl ?_
        (denotedBy_object denotes (names.nodup (of_decide_eq_true hnames)))
      rw [jsonText, written, joined_empty]
      rfl
    · obtain ⟨n, hn⟩ := written ""
      exact .refused (by rw [toJsonSlot, document]; rfl) rfl
        (Written.stop_append (w := .ok "\x7b" ++ jsonMembers "" members) hn _)

theorem plainItems : ∀ items : List Value, itemsHaveNames items = true → PlainItems items
  | [], _ => .present rfl (fun _ => rfl) .nil
  | v :: rest, h => by
    obtain ⟨hv, hrest⟩ := Bool.and_eq_true_iff.mp h
    -- a value that is left out stands in an array as null
    have first : (∃ slot text, v.toJsonSlot = .ok slot ∧ v.jsonText = .ok text ∧
        (slot.getD .null).DenotedBy text) ∨
        ∃ e n, v.toJsonSlot = .error e ∧ v.jsonText.stop = some (.bigIntNotSerializable n) := by
      rcases plain v hv with ⟨document, -, written, denotes⟩ | ⟨document, -, written⟩ |
        ⟨document, -, written⟩
      · exact .inl ⟨_, _, document, written, denotes⟩
      · exact .inl ⟨_, _, document, written, denotedBy_null⟩
      · exact .inr ⟨_, _, document, written⟩
    rcases first with ⟨slot, text, document, written, denotes⟩ | ⟨e, n, document, written⟩
    · rcases plainItems rest hrest with ⟨documents, writtens, denote⟩ | ⟨documents, writtens⟩
      · refine .present (by rw [toJsonItems, document, documents]; rfl) (fun comma => ?_)
          (.cons denotes denote)
        rw [jsonItems, written, writtens, Written.append_ok, Written.append_ok, String.append_assoc,
          joined_cons]
      · refine .refused (by rw [toJsonItems, document, documents]; rfl) fun comma => ?_
        obtain ⟨n, hn⟩ := writtens ","
        exact ⟨n, by rw [jsonItems, written, Written.append_ok, Written.stop_ok_append, hn]⟩
    · refine .refused (by rw [toJsonItems, document]; rfl) fun comma => ⟨n, ?_⟩
      rw [jsonItems]
      exact Written.stop_append (w := .ok comma ++ v.jsonText) written _

theorem plainMembers :
    ∀ members : List (String × Value), membersHaveNames members = true → PlainMembers members
  | [], _ => .present rfl (fun _ => rfl) .nil .slnil
  | (k, v) :: rest, h => by
    obtain ⟨hv, hrest⟩ := Bool.and_eq_true_iff.mp h
    rcases plain v hv with @⟨j, text, document, stays, written, denotes⟩ |
      ⟨document, omitted, -⟩ | @⟨e, n, document, stays, written⟩
    · rcases plainMembers rest hrest with @⟨js, texts, documents, writtens, denote, names⟩ |
        ⟨documents, writtens⟩
      · have names : (((k, j) :: js).map Prod.fst).Sublist (((k, v) :: rest).map Prod.fst) :=
          List.Sublist.cons_cons k names
        refine .present (by rw [toJsonMembers, document, documents]; rfl) (fun comma => ?_)
          (.cons ⟨_, rfl, denotes⟩ denote) names
        rw [jsonMembers, stays, if_neg Bool.false_ne_true, written, writtens, joined_cons]
        simp only [Written.append_ok, String.append_assoc]
      · refine .refused (by rw [toJsonMembers, document, documents]; rfl) fun comma => ?_
        obtain ⟨n, hn⟩ := writtens ","
        refine ⟨n, ?_⟩
        rw [jsonMembers, stays, if_neg Bool.false_ne_true, written, Written.append_ok,
          Written.stop_ok_append, hn]
    · rcases plainMembers rest hrest with ⟨documents, writtens, denote, names⟩ |
        ⟨documents, writtens⟩
      · refine .present (by rw [toJsonMembers, document, documents]; rfl) (fun comma => ?_) denote
          (names.cons k)
        rw [jsonMembers, omitted, if_pos rfl, writtens]
      · refine .refused (by rw [toJsonMembers, document, documents]; rfl) fun comma => ?_
        rw [jsonMembers, omitted, if_pos rfl]
        exact writtens comma
    · refine .refused (by rw [toJsonMembers, document]; rfl) fun comma => ⟨n, ?_⟩
      rw [jsonMembers, stays, if_neg Bool.false_ne_true]
      exact Written.stop_append (w := .ok (comma ++ quoted k ++ ":") ++ v.jsonText) written _

end

end Value

/-! ## What stops a document -/

theorem Except.bind_eq_error {ε α β : Type} {x : Except ε α} {f : α → Except ε β} {e : ε} :
    (x >>= f) = .error e ↔ x = .error e ∨ ∃ a, x = .ok a ∧ f a = .error e := by
  cases x <;> simp [bind, Except.bind]

/-- Whether a computation fails with the first of some big integers, and has a result if there is
none. -/
inductive StopsAt {α : Type} : Option Int → Except RunError α → Prop where
  | failed (n : Int) : StopsAt (some n) (.error (.bigIntNotSerializable n))
  | done (a : α) : StopsAt none (.ok a)

namespace StopsAt

variable {α β : Type} {first second : Option Int} {x : Except RunError α} {f : α → Except RunError β}

theorem bind (hx : StopsAt first x) (hf : ∀ a, StopsAt second (f a)) :
    StopsAt (first.or second) (x >>= f) := by
  cases hx with
  | failed n => exact .failed n
  | done a => exact hf a

/-- What is done with a result does not fail. -/
theorem bind_done {g : α → β} (hx : StopsAt first x) : StopsAt first (x >>= fun a => .ok (g a)) := by
  have h : StopsAt (first.or none) _ := hx.bind fun a => .done (g a)
  rwa [Option.or_none] at h

theorem eq_error {n : Int} (h : StopsAt (some n) x) : x = .error (.bigIntNotSerializable n) := by
  cases h
  rfl

theorem exists_bigint {e : RunError} (h : StopsAt first (.error e : Except RunError α)) :
    ∃ n, e = .bigIntNotSerializable n := by
  cases h with
  | failed n => exact ⟨n, rfl⟩

end StopsAt

namespace Value

mutual

/-- The first big integer that stands in a value. -/
def firstBigint? : Value → Option Int
  | bigint n => some n
  | array items => itemsFirstBigint? items
  | object members => membersFirstBigint? members
  | _ => none

def itemsFirstBigint? : List Value → Option Int
  | [] => none
  | v :: rest => v.firstBigint?.or (itemsFirstBigint? rest)

def membersFirstBigint? : List (String × Value) → Option Int
  | [] => none
  | (_, v) :: rest => v.firstBigint?.or (membersFirstBigint? rest)

end

mutual

/-- **The document of a value fails with its first big integer.** -/
theorem stopsAt_toJsonSlot : ∀ v : Value, StopsAt v.firstBigint? v.toJsonSlot
  | undefined | null | bool _ | number _ | string _ | symbol _ | regexp _ | date _ | function _ =>
    .done _
  | bigint n => .failed n
  | array items => (stopsAt_toJsonItems items).bind_done
  | object members => (stopsAt_toJsonMembers members).bind_done

theorem stopsAt_toJsonItems : ∀ items : List Value,
    StopsAt (itemsFirstBigint? items) (toJsonItems items)
  | [] => .done _
  | v :: rest => (stopsAt_toJsonSlot v).bind fun _ => (stopsAt_toJsonItems rest).bind_done

theorem stopsAt_toJsonMembers : ∀ members : List (String × Value),
    StopsAt (membersFirstBigint? members) (toJsonMembers members)
  | [] => .done _
  | (k, v) :: rest => by
    refine (stopsAt_toJsonSlot v).bind fun slot => ?_
    cases slot with
    | some j => exact (stopsAt_toJsonMembers rest).bind_done
    | none => exact (stopsAt_toJsonMembers rest).bind_done (g := id)

end

theorem stopsAt_toJson (v : Value) : StopsAt v.firstBigint? v.toJson :=
  (stopsAt_toJsonSlot v).bind_done

/-- Only a big integer has no document. -/
theorem eq_of_toJsonSlot {e : RunError} (v : Value) (h : v.toJsonSlot = .error e) :
    ∃ n, e = .bigIntNotSerializable n := by
  have hstops := v.stopsAt_toJsonSlot
  rw [h] at hstops
  exact hstops.exists_bigint

end Value

end Typeforge
