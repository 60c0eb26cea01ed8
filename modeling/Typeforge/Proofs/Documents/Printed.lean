/-
# `Typeforge.Proofs.Documents.Printed` — the text of a document is read as the document

A document is printed in one line, and what is read from the text is just what was
printed: an integer is read as the integer, a real as the same double, members keep
their order and their names.  Two things stand in the way.  Some numbers have no text,
the ones beyond sixty-four bits and the ones that are no decimal; and the reader goes
down to `Json.depthLimit` only.

A decoder finds in such a text what it finds in the document itself.
-/
import Typeforge.Json.Decode
import Typeforge.Proofs.Documents.Numerals

namespace Typeforge

/-- Whether a number has a text that it is read from: an integer in sixty-four bits, or a decimal. -/
def JsonNumber.isPrintable : JsonNumber → Bool
  | integer n => Json.fitsInteger n
  | real x => x.isFinite

namespace Json

mutual

/-- Whether all numbers of a document have texts. -/
def isPrintable : Json → Bool
  | number n => n.isPrintable
  | array items => itemsPrintable items
  | object members => membersPrintable members
  | _ => true

def itemsPrintable : List Json → Bool
  | [] => true
  | j :: rest => j.isPrintable && itemsPrintable rest

def membersPrintable : List (String × Json) → Bool
  | [] => true
  | (_, j) :: rest => j.isPrintable && membersPrintable rest

end

/-! ## Texts -/

theorem itemsText_eq (items : List Json) : itemsText items = ",".intercalate (items.map text) := by
  induction items with
  | nil => rfl
  | cons j rest ih =>
    cases rest with
    | nil => exact String.intercalate_singleton.symm
    | cons k rest =>
      rw [itemsText, ih, List.map_cons, List.map_cons, List.map_cons, String.intercalate_cons_cons]
      exact List.cons_ne_nil _ _

/-- The text of a member. -/
def memberText (member : String × Json) : String := quoted member.1 ++ ":" ++ member.2.text

theorem membersText_eq (members : List (String × Json)) :
    membersText members = ",".intercalate (members.map memberText) := by
  induction members with
  | nil => rfl
  | cons m rest ih =>
    cases rest with
    | nil => exact String.intercalate_singleton.symm
    | cons n rest =>
      obtain ⟨k, j⟩ := m
      rw [membersText, ih, List.map_cons, List.map_cons, List.map_cons,
        String.intercalate_cons_cons]
      · rfl
      · exact List.cons_ne_nil _ _

theorem text_array (items : List Json) : (array items).text = Emit.bracketed (items.map text) := by
  rw [text, itemsText_eq, Emit.bracketed]

theorem text_object (members : List (String × Json)) :
    (object members).text = Emit.braced (members.map memberText) := by
  rw [text, membersText_eq, Emit.braced]

theorem toList_memberText (member : String × Json) :
    (memberText member).toList = memberChars member.1 member.2.text.toList := by
  rw [memberText, String.toList_append, String.toList_append, toList_quoted, List.append_assoc]
  rfl

/-! ## Reading what was printed -/

theorem reads_numberText {n : JsonNumber} (h : n.isPrintable = true) :
    Reads n.text.toList (.number n) := by
  cases n with
  | integer n => exact reads_integerText h
  | real x =>
    have finite : x.isFinite = true := h
    rw [JsonNumber.text, if_pos finite]
    exact reads_document finite

mutual

/-- What is read off the text of a document is the document. -/
theorem reads_text : ∀ (j : Json), j.isPrintable = true → Reads j.text.toList (.ofJson j)
  | null, _ => reads_null
  | bool b, _ => reads_bool b
  | number _, h => reads_numberText h
  | string s, _ => reads_string s
  | array items, h => by
    rw [text_array, toList_bracketed]
    exact reads_array (forall₂_reads items h)
  | object members, h => by
    rw [text_object, toList_braced]
    exact reads_object (forall₂_memberReads members h)

theorem forall₂_reads : ∀ (items : List Json), itemsPrintable items = true →
    List.Forall₂ Reads ((items.map text).map String.toList) (RawJson.itemsOfJson items)
  | [], _ => .nil
  | j :: rest, h =>
    .cons (reads_text j (Bool.and_eq_true_iff.mp h).1) (forall₂_reads rest (Bool.and_eq_true_iff.mp h).2)

theorem forall₂_memberReads : ∀ (members : List (String × Json)), membersPrintable members = true →
    List.Forall₂ MemberReads ((members.map memberText).map String.toList)
      (RawJson.membersOfJson members)
  | [], _ => .nil
  | (k, j) :: rest, h =>
    .cons ⟨_, toList_memberText (k, j), reads_text j (Bool.and_eq_true_iff.mp h).1⟩
      (forall₂_memberReads rest (Bool.and_eq_true_iff.mp h).2)

end

/-- Of a printed document, the reader finds what it goes deep enough for. -/
theorem readFront_text_cut {j : Json} (printable : j.isPrintable = true) :
    readFront j.text = .ok (.cut depthLimit (.ofJson j)) := by
  have hread := (reads_text j printable).within depthLimit j.text.length String.length_toList.le
    [] nofun
  rw [List.append_nil] at hread
  rw [readFront, hread]
  rfl

/-- The reader gives back the document that was printed. -/
theorem readFront_text {j : Json} (printable : j.isPrintable = true)
    (shallow : j.depth ≤ depthLimit) : readFront j.text = .ok (.ofJson j) := by
  rw [readFront_text_cut printable, RawJson.cut_eq _ shallow]

end Json

namespace RawJson

mutual

/-- All of a document can be read. -/
theorem fault?_ofJson : ∀ j : Json, (ofJson j).fault? = none
  | .null | .bool _ | .number _ | .string _ => rfl
  | .array items => itemsFault?_ofJson items
  | .object members => membersFault?_ofJson members

theorem itemsFault?_ofJson : ∀ items : List Json, itemsFault? (itemsOfJson items) = none
  | [] => rfl
  | j :: rest => by
    rw [itemsOfJson, itemsFault?, fault?_ofJson j, itemsFault?_ofJson rest]
    rfl

theorem membersFault?_ofJson : ∀ members : List (String × Json),
    membersFault? (membersOfJson members) = none
  | [] => rfl
  | (k, j) :: rest => by
    rw [membersOfJson, membersFault?, fault?_ofJson j, membersFault?_ofJson rest]
    rfl

end

end RawJson

namespace Decode

/-- **A decoder finds in the text of a document what it finds in the document.** -/
theorem text_eq {α : Type} (decode : Decoder α) {j : Json} (printable : j.isPrintable = true)
    (shallow : j.depth ≤ Json.depthLimit) : text decode j.text = decode (.ofJson j) := by
  rw [text, Json.readFront_text printable shallow]
  dsimp only
  rw [RawJson.fault?_ofJson, Source.ofJson]
  cases decode ⟨.ofJson j, false⟩ <;> rfl

/-- A decoder that needs what the reader does not go deep enough for finds nothing in the text. -/
theorem text_ne_ok {α : Type} {decode : Decoder α} {j : Json} (printable : j.isPrintable = true)
    (fails : (decode ⟨.cut Json.depthLimit (.ofJson j), false⟩).isOk = false) (a : α) :
    text decode j.text ≠ .ok a := by
  rw [text, Json.readFront_text_cut printable]
  dsimp only
  cases hdecode : decode ⟨.cut Json.depthLimit (.ofJson j), false⟩ with
  | ok b =>
    rw [hdecode] at fails
    cases fails
  | error e =>
    intro h
    split at h <;> cases h

end Decode

end Typeforge
