/-
# `Typeforge.Proofs.PathTexts` — printed paths are unambiguous

The text of a path is the texts of its steps, one after the other, with nothing between
them that says how long each is.  Still no two paths have the same text.  A step in
brackets ends where it says it does: a name in quotation marks is read back whatever it
holds, and digits end at the bracket.  A name without brackets says no such thing; it ends
where the next step begins, since no step begins with a character that a name without
brackets may have.

So the steps can be read off the front of a text one by one, and `errorPathText_eq_iff` holds
of all paths.
-/
import Typeforge.Code.Path
import Typeforge.Proofs.Documents.Numerals

namespace Typeforge

/-! ## One step -/

/-- Whether a character may stand in an identifier, behind the first. -/
def isIdentifierPart (c : Char) : Bool := isIdentifierStart c || c.isDigit

theorem isIdentifierPart_of_isIdentifier {name : String} (h : isIdentifier name = true) :
    ∀ c ∈ name.toList, isIdentifierPart c = true := by
  rw [isIdentifier] at h
  cases hname : name.toList with
  | nil => exact fun c hc => absurd hc List.not_mem_nil
  | cons first others =>
    rw [hname] at h
    obtain ⟨hfirst, hothers⟩ := Bool.and_eq_true_iff.mp h
    refine List.forall_mem_cons.mpr ⟨?_, List.all_eq_true.mp hothers⟩
    rw [isIdentifierPart, hfirst, Bool.true_or]

theorem toList_memberText_identifier {name : String} (h : isIdentifier name = true) :
    (memberText name).toList = '.' :: name.toList := by
  rw [memberText, if_pos h, String.toList_append]
  rfl

theorem toList_memberText_quoted {name : String} (h : isIdentifier name = false) :
    (memberText name).toList = '[' :: (quotedChars name.toList ++ [']']) := by
  rw [memberText, h, if_neg Bool.false_ne_true, String.toList_append, String.toList_append,
    Json.toList_quoted]
  rfl

theorem toList_elementText (i : Nat) :
    (elementText i).toList = '[' :: (Nat.toDigits 10 i ++ [']']) := by
  rw [elementText, integerText, if_neg (Int.not_lt.mpr (Int.natCast_nonneg i))]
  simp

namespace PathItem

/-- The step at the front of a text, and the text behind it. -/
def read? : List Char → Option (PathItem × List Char)
  | '.' :: cs =>
    some (key (String.ofList (cs.takeWhile isIdentifierPart)), cs.dropWhile isIdentifierPart)
  | '[' :: '"' :: cs =>
    match Json.readString cs.length cs with
    | .ok (some name, rest) => some (key name, rest.tail)
    | _ => none
  | '[' :: cs => some (index (digitsValue (spanDigits cs).1), (spanDigits cs).2.tail)
  | _ => none

/-- What may stand behind a step: nothing, or another one. -/
def Follows (rest : List Char) : Prop := ∀ c ∈ rest.head?, c = '.' ∨ c = '['

variable {name : String} {rest : List Char}

theorem read?_identifier (h : isIdentifier name = true) (follows : Follows rest) :
    read? ((memberText name).toList ++ rest) = some (key name, rest) := by
  have hends : ∀ c ∈ rest.head?, isIdentifierPart c = false := by
    intro c hc
    rcases follows c hc with rfl | rfl <;> decide
  obtain ⟨htake, hdrop⟩ := run_append (isIdentifierPart_of_isIdentifier h) hends
  rw [toList_memberText_identifier h, List.cons_append, read?, htake, hdrop, String.ofList_toList]

theorem read?_quoted (h : isIdentifier name = false) :
    read? ((memberText name).toList ++ rest) = some (key name, rest) := by
  have htext : (memberText name).toList ++ rest =
      '[' :: '"' :: (name.toList.flatMap quotedChar ++ '"' :: ']' :: rest) := by
    rw [toList_memberText_quoted h, quotedChars]
    simp
  have hbound : (quotedChars name.toList).length ≤
      (name.toList.flatMap quotedChar ++ '"' :: ']' :: rest).length := by
    simp only [quotedChars, List.length_append, List.length_cons, List.length_nil]
    omega
  rw [htext, read?, Json.readString_quoted name hbound]
  rfl

theorem read?_element (i : Nat) :
    read? ((elementText i).toList ++ rest) = some (index i, rest) := by
  have htext : (elementText i).toList ++ rest = '[' :: (Nat.toDigits 10 i ++ ']' :: rest) := by
    rw [toList_elementText]
    simp
  have hspan : spanDigits (Nat.toDigits 10 i ++ ']' :: rest) = (Nat.toDigits 10 i, ']' :: rest) :=
    spanDigits_append (isDigit_toDigits i) (by rintro _ ⟨⟩; decide)
  rw [htext, read?, hspan, digitsValue_toDigits]
  · rfl
  · -- no digit is taken for a quotation mark
    intro cs hquote
    obtain ⟨c, digits, hdigits⟩ := List.exists_cons_of_ne_nil (toDigits_ne_nil i)
    rw [hdigits, List.cons_append] at hquote
    have hc := isDigit_toDigits i c (hdigits ▸ List.mem_cons_self)
    rw [(List.cons.inj hquote).1] at hc
    cases hc

/-- **A step is read off the front of any text it may stand before.** -/
theorem read?_text (p : PathItem) (follows : Follows rest) :
    read? (p.text.toList ++ rest) = some (p, rest) := by
  cases p with
  | index i => exact read?_element i
  | key name =>
    cases h : isIdentifier name with
    | true => exact read?_identifier h follows
    | false => exact read?_quoted h

/-- A step begins with a point or a bracket. -/
theorem exists_head_text (p : PathItem) :
    ∃ c cs, p.text.toList = c :: cs ∧ (c = '.' ∨ c = '[') := by
  cases p with
  | index i => exact ⟨_, _, toList_elementText i, .inr rfl⟩
  | key name =>
    cases h : isIdentifier name with
    | true => exact ⟨_, _, toList_memberText_identifier h, .inl rfl⟩
    | false => exact ⟨_, _, toList_memberText_quoted h, .inr rfl⟩

end PathItem

/-! ## All steps -/

/-- The characters of a path's steps. -/
def stepChars (path : List PathItem) : List Char := path.flatMap fun p => p.text.toList

theorem toList_errorPathText (path : List PathItem) :
    (errorPathText path).toList = '$' :: stepChars path := by
  rw [errorPathText, String.toList_append, String.toList_join, stepChars, List.flatMap_map]
  rfl

theorem follows_stepChars (path : List PathItem) : PathItem.Follows (stepChars path) := by
  cases path with
  | nil => exact fun c hc => absurd hc (by simp [stepChars])
  | cons p path =>
    obtain ⟨c, cs, htext, hc⟩ := p.exists_head_text
    rw [stepChars, List.flatMap_cons, htext]
    rintro _ ⟨⟩
    exact hc

/-- Of equal texts the same steps are read. -/
theorem stepChars_inj {p q : List PathItem} (h : stepChars p = stepChars q) : p = q := by
  induction p generalizing q with
  | nil =>
    cases q with
    | nil => rfl
    | cons second others =>
      obtain ⟨c, cs, htext, -⟩ := second.exists_head_text
      rw [stepChars, stepChars, List.flatMap_cons, htext] at h
      cases h
  | cons first path ih =>
    have hfirst := first.read?_text (follows_stepChars path)
    cases q with
    | nil =>
      obtain ⟨c, cs, htext, -⟩ := first.exists_head_text
      rw [stepChars, stepChars, List.flatMap_cons, htext] at h
      cases h
    | cons second others =>
      have hsecond := second.read?_text (follows_stepChars others)
      have hread : some (first, stepChars path) = some (second, stepChars others) :=
        hfirst.symm.trans ((congrArg PathItem.read? h).trans hsecond)
      obtain ⟨rfl, hrest⟩ := Prod.mk.inj (Option.some.inj hread)
      rw [ih hrest]

/-- **Printed paths are unambiguous**: paths with the same text are the same path, whatever
characters the names in them have. -/
theorem errorPathText_eq_iff {p q : List PathItem} :
    errorPathText p = errorPathText q ↔ p = q := by
  refine ⟨fun h => stepChars_inj ?_, fun h => h ▸ rfl⟩
  have htext := congrArg String.toList h
  rw [toList_errorPathText, toList_errorPathText] at htext
  exact (List.cons.inj htext).2

/-- A member called `0` is told from the first element, and a point in a name from a step. -/
example : errorPathText [.key "0", .index 0, .key "a.b", .key "a", .key ""] =
    "$[\"0\"][0][\"a.b\"].a[\"\"]" := by decide

end Typeforge
