/-
# `Typeforge.Proofs.Documents.Scanning` — what is nested too deep is passed over

The reader goes down to a limit.  What lies deeper it scans to the end, with a stack of
the brackets that are open, and builds nothing.  Where the reader takes a value off the
front of a text the scan does as well; this is shown for the pieces that values are
written in.

A character takes at most four steps: a bracket is opened, the scan finds that it is not
closed at once, and turns to a first part and to the value of it.
-/
import Mathlib
import Typeforge.Json.Reader
import Typeforge.Proofs.Results
import Typeforge.Run.Emits

namespace Typeforge

namespace Json

/-- What may follow a value: nothing, or what goes on in the array or object around it. -/
def Ends (rest : List Char) : Prop := ∀ c ∈ rest.head?, c = ',' ∨ c = ']' ∨ c = '\x7d'

/-! ## Blanks -/

theorem skipBlanks_cons {c : Char} (h : isBlank c = false) (rest : List Char) :
    skipBlanks (c :: rest) = c :: rest := by
  rw [skipBlanks, List.dropWhile_cons, h, if_neg Bool.false_ne_true]

theorem skipBlanks_skipBlanks (cs : List Char) : skipBlanks (skipBlanks cs) = skipBlanks cs :=
  List.dropWhile_idempotent ..

/-- A scan passes over blanks. -/
theorem scanNested_skipBlanks {bound : Nat} {scan : Scan} {inner : Bracket} {outer : List Bracket}
    {cs : List Char} (f : Nat) :
    scanNested bound f scan inner outer (skipBlanks cs) = scanNested bound f scan inner outer cs := by
  cases f with
  | zero => rfl
  | succ f => rw [scanNested, scanNested, skipBlanks_skipBlanks]

theorem ends_cons {c : Char} (h : c = ',' ∨ c = ']' ∨ c = '\x7d') (rest : List Char) :
    Ends (c :: rest) := by
  rintro _ ⟨⟩
  exact h

/-! ## Strings -/

theorem hexValue_hexDigit (n : Nat) : hexValue? (hexDigit n) = some (n % 16) := by
  have h : ∀ k < 16, hexValue? (Nat.digitChar k) = some k := by decide
  exact h _ (Nat.mod_lt _ (by decide))

theorem readEscape_control {c : Char} (h : c.toNat < 0x20) (rest : List Char) :
    readEscape ('u' :: '0' :: '0' :: hexDigit (c.toNat / 16) :: hexDigit c.toNat :: rest) =
      .ok (some c, rest) := by
  have hzero : hexValue? '0' = some 0 := rfl
  have hnumber : ((0 * 16 + 0) * 16 + c.toNat / 16 % 16) * 16 + c.toNat % 16 = c.toNat := by omega
  rw [readEscape, readNumberedEscape, readHex4, hzero, hexValue_hexDigit, hexValue_hexDigit]
  dsimp only [bind, Except.bind]
  rw [hnumber, if_neg (by omega), if_neg (by omega), Char.ofNat_toNat]
  rfl

/-- A character is read as it was quoted. -/
theorem readChars_quotedChar (c : Char) (fuel : Nat) (rest : List Char) :
    readChars (fuel + 1) (quotedChar c ++ rest) =
      (readChars fuel rest).map fun x => (x.1.map (c :: ·), x.2) := by
  have escaped (escape : List Char) (h : readEscape (escape ++ rest) = .ok (some c, rest)) :
      readChars (fuel + 1) ('\\' :: escape ++ rest) =
        (readChars fuel rest).map fun x => (x.1.map (c :: ·), x.2) := by
    rw [List.cons_append, readChars, if_neg (by decide), if_pos rfl, h]
    dsimp only [bind, Except.bind]
    cases readChars fuel rest with
    | error e => rfl
    | ok x =>
      obtain ⟨cs, rest⟩ := x
      cases cs <;> rfl
  unfold quotedChar
  iterate 7
    split
    · rename_i hc
      subst hc
      exact escaped [_] rfl
  rename_i hquote hslash _ _ _ _ _
  split
  · rename_i hc
    exact escaped ['u', '0', '0', _, _] (readEscape_control hc rest)
  · rename_i hc
    rw [List.cons_append, List.nil_append, readChars, if_neg hquote, if_neg hslash, if_neg hc]
    cases readChars fuel rest <;> rfl

theorem readChars_quoted (cs : List Char) {fuel : Nat} (h : cs.length < fuel) (rest : List Char) :
    readChars fuel (cs.flatMap quotedChar ++ '"' :: rest) = .ok (some cs, rest) := by
  induction cs generalizing fuel with
  | nil =>
    cases fuel with
    | zero => exact absurd h (Nat.not_lt_zero _)
    | succ fuel => rfl
  | cons c cs ih =>
    cases fuel with
    | zero => exact absurd h (Nat.not_lt_zero _)
    | succ fuel =>
      rw [List.flatMap_cons, List.append_assoc, readChars_quotedChar,
        ih (Nat.lt_of_succ_lt_succ h)]
      rfl

theorem length_le_flatMap_quotedChar (cs : List Char) :
    cs.length ≤ (cs.flatMap quotedChar).length := by
  induction cs with
  | nil => exact Nat.le_refl _
  | cons c cs ih =>
    have hone : 1 ≤ (quotedChar c).length := by
      unfold quotedChar
      repeat' split
      all_goals exact Nat.succ_le_succ (Nat.zero_le _)
    rw [List.flatMap_cons, List.length_append, List.length_cons]
    omega

/-- A quoted string is read back. -/
theorem readString_quoted (s : String) {bound : Nat} (h : (quotedChars s.toList).length ≤ bound)
    (rest : List Char) :
    readString bound (s.toList.flatMap quotedChar ++ '"' :: rest) = .ok (some s, rest) := by
  have hlength := length_le_flatMap_quotedChar s.toList
  rw [quotedChars, List.length_append, List.length_cons, List.length_singleton] at h
  rw [readString, readChars_quoted _ (by omega)]
  dsimp only [bind, Except.bind]
  rw [Option.map_some, String.ofList_toList]
  rfl

theorem toList_quoted (s : String) : (quoted s).toList = quotedChars s.toList :=
  String.toList_ofList

/-- The characters of a member: its quoted name, and its value after a colon. -/
def memberChars (name : String) (cs : List Char) : List Char := quotedChars name.toList ++ ':' :: cs

theorem memberChars_append (name : String) (cs rest : List Char) :
    memberChars name cs ++ rest =
      '"' :: (name.toList.flatMap quotedChar ++ '"' :: ':' :: (cs ++ rest)) := by
  simp only [memberChars, quotedChars, List.cons_append, List.append_assoc, List.nil_append]

/-! ## Scans -/

section Scans

variable {bound fuel : Nat} {scan : Scan} {inner : Bracket} {outer : List Bracket}
  {cs rest after : List Char}

/-- Whether a scan comes to the end of all open brackets and leaves a rest, if it may take so many
steps or more. -/
def Scanned (bound fuel : Nat) (scan : Scan) (inner : Bracket) (outer : List Bracket)
    (cs after : List Char) : Prop :=
  ∀ f, fuel ≤ f → scanNested bound f scan inner outer cs = .ok after

/-- Whether it does so once the innermost bracket is closed. -/
def ScannedOut (bound fuel : Nat) (outer : List Bracket) (cs after : List Char) : Prop :=
  match outer with
  | [] => cs = after
  | around :: outer => Scanned bound fuel .next around outer cs after

/-- Whether a scan takes a value off the front of a text. -/
def Passes (cs : List Char) : Prop :=
  ∀ bound, cs.length ≤ bound → ∀ rest, Ends rest → ∀ fuel inner outer after,
    Scanned bound fuel .next inner outer rest after →
    Scanned bound (fuel + 4 * cs.length) .value inner outer (cs ++ rest) after

theorem Scanned.mono {fuel' : Nat} (h : Scanned bound fuel scan inner outer cs after)
    (hle : fuel ≤ fuel') : Scanned bound fuel' scan inner outer cs after :=
  fun f hf => h f (hle.trans hf)

/-- There is something to scan. -/
theorem Scanned.exists_cons (h : Scanned bound fuel scan inner outer cs after) :
    ∃ c rest, skipBlanks cs = c :: rest := by
  cases hskip : skipBlanks cs with
  | nil =>
    have hscan := h (fuel + 1) (Nat.le_succ _)
    rw [scanNested, hskip] at hscan
    cases hscan
  | cons c rest => exact ⟨c, rest, rfl⟩

/-! ### Steps -/

theorem Scanned.opened_array (h : Scanned bound fuel .start .array (inner :: outer) cs after) :
    Scanned bound (fuel + 1) .value inner outer ('[' :: cs) after := by
  intro f hf
  obtain ⟨f, rfl⟩ := Nat.exists_eq_add_one_of_ne_zero (Nat.ne_zero_of_lt hf)
  rw [scanNested, skipBlanks_cons rfl]
  exact h f (Nat.le_of_succ_le_succ hf)

theorem Scanned.opened_object (h : Scanned bound fuel .start .object (inner :: outer) cs after) :
    Scanned bound (fuel + 1) .value inner outer ('\x7b' :: cs) after := by
  intro f hf
  obtain ⟨f, rfl⟩ := Nat.exists_eq_add_one_of_ne_zero (Nat.ne_zero_of_lt hf)
  rw [scanNested, skipBlanks_cons rfl]
  exact h f (Nat.le_of_succ_le_succ hf)

/-- A leaf is read. -/
theorem Scanned.leaf {c : Char} {raw : RawJson} (hblank : isBlank c = false) (harray : c ≠ '[')
    (hobject : c ≠ '\x7b') (hread : readLeaf bound (c :: cs) = .ok (raw, rest))
    (h : Scanned bound fuel .next inner outer rest after) :
    Scanned bound (fuel + 1) .value inner outer (c :: cs) after := by
  intro f hf
  obtain ⟨f, rfl⟩ := Nat.exists_eq_add_one_of_ne_zero (Nat.ne_zero_of_lt hf)
  rw [scanNested, skipBlanks_cons hblank]
  dsimp only
  rw [if_neg harray, if_neg hobject, hread]
  exact h f (Nat.le_of_succ_le_succ hf)

theorem Scanned.comma (h : Scanned bound fuel .part inner outer cs after) :
    Scanned bound (fuel + 1) .next inner outer (',' :: cs) after := by
  intro f hf
  obtain ⟨f, rfl⟩ := Nat.exists_eq_add_one_of_ne_zero (Nat.ne_zero_of_lt hf)
  rw [scanNested, skipBlanks_cons rfl]
  exact h f (Nat.le_of_succ_le_succ hf)

theorem isBlank_closing (inner : Bracket) : isBlank inner.closing = false := by
  cases inner <;> rfl

theorem ScannedOut.closed (h : ScannedOut bound fuel outer cs after) (inner : Bracket)
    (hscan : scan = .next ∨ scan = .start) :
    Scanned bound (fuel + 1) scan inner outer (inner.closing :: cs) after := by
  intro f hf
  obtain ⟨f, rfl⟩ := Nat.exists_eq_add_one_of_ne_zero (Nat.ne_zero_of_lt hf)
  have hcomma : inner.closing ≠ ',' := by cases inner <;> decide
  rw [scanNested, skipBlanks_cons (isBlank_closing inner)]
  rcases hscan with rfl | rfl <;> dsimp only
  · rw [if_neg hcomma, if_pos rfl]
    cases outer with
    | nil => exact congrArg _ h
    | cons around outer => exact h f (Nat.le_of_succ_le_succ hf)
  · rw [if_pos rfl]
    cases outer with
    | nil => exact congrArg _ h
    | cons around outer => exact h f (Nat.le_of_succ_le_succ hf)

theorem Scanned.item (h : Scanned bound fuel .value .array outer cs after) :
    Scanned bound (fuel + 1) .part .array outer cs after := by
  intro f hf
  obtain ⟨f, rfl⟩ := Nat.exists_eq_add_one_of_ne_zero (Nat.ne_zero_of_lt hf)
  obtain ⟨c, rest, hskip⟩ := h.exists_cons
  rw [scanNested, hskip]
  dsimp only
  rw [← hskip, scanNested_skipBlanks]
  exact h f (Nat.le_of_succ_le_succ hf)

/-- What is scanned as a value is no closing bracket. -/
theorem Scanned.ne_closing {c : Char} (h : Scanned bound fuel .value .array outer cs after)
    (hskip : skipBlanks cs = c :: rest) : c ≠ Bracket.array.closing := by
  rintro rfl
  have hscan := h (fuel + 1) (Nat.le_succ _)
  rw [scanNested, hskip] at hscan
  cases hscan

theorem Scanned.started_array (h : Scanned bound fuel .value .array outer cs after) :
    Scanned bound (fuel + 2) .start .array outer cs after := by
  intro f hf
  obtain ⟨f, rfl⟩ := Nat.exists_eq_add_one_of_ne_zero (Nat.ne_zero_of_lt hf)
  obtain ⟨c, rest, hskip⟩ := h.exists_cons
  rw [scanNested, hskip]
  dsimp only
  rw [if_neg (h.ne_closing hskip), ← hskip, scanNested_skipBlanks]
  exact h.item f (Nat.le_of_succ_le_succ hf)

/-- The name of a member is read. -/
theorem Scanned.member {name : String} (hname : (quotedChars name.toList).length ≤ bound)
    (h : Scanned bound fuel .value .object outer (cs ++ rest) after) :
    Scanned bound (fuel + 1) .part .object outer (memberChars name cs ++ rest) after := by
  intro f hf
  obtain ⟨f, rfl⟩ := Nat.exists_eq_add_one_of_ne_zero (Nat.ne_zero_of_lt hf)
  rw [memberChars_append, scanNested, skipBlanks_cons rfl]
  dsimp only
  rw [if_pos rfl, readString_quoted name hname]
  exact h f (Nat.le_of_succ_le_succ hf)

theorem Scanned.started_object {name : String} (hname : (quotedChars name.toList).length ≤ bound)
    (h : Scanned bound fuel .value .object outer (cs ++ rest) after) :
    Scanned bound (fuel + 2) .start .object outer (memberChars name cs ++ rest) after := by
  intro f hf
  obtain ⟨f, rfl⟩ := Nat.exists_eq_add_one_of_ne_zero (Nat.ne_zero_of_lt hf)
  have hmember := h.member hname f (Nat.le_of_succ_le_succ hf)
  rw [memberChars_append] at hmember ⊢
  rw [scanNested, skipBlanks_cons rfl]
  exact hmember

/-! ### Values -/

theorem passes_leaf {c : Char} (hblank : isBlank c = false) (harray : c ≠ '[') (hobject : c ≠ '\x7b')
    {raw : RawJson} (h : ∀ bound, (c :: cs).length ≤ bound → ∀ rest, Ends rest →
      readLeaf bound (c :: cs ++ rest) = .ok (raw, rest)) : Passes (c :: cs) := by
  intro bound hbound rest ends fuel inner outer after hscan
  refine (hscan.leaf hblank harray hobject (h bound hbound rest ends)).mono ?_
  rw [List.length_cons]
  omega

/-- Items are passed over one after the other. -/
theorem scanned_items {texts : List (List Char)} (h : ∀ cs ∈ texts, Passes cs) (nonempty : texts ≠ [])
    (hbound : ([','].intercalate texts).length ≤ bound) (hout : ScannedOut bound fuel outer rest after) :
    Scanned bound (fuel + 1 + 4 * ([','].intercalate texts).length) .value .array outer
      ([','].intercalate texts ++ ']' :: rest) after := by
  induction texts with
  | nil => exact absurd rfl nonempty
  | cons cs texts ih =>
    obtain ⟨hfirst, hothers⟩ := List.forall_mem_cons.mp h
    cases texts with
    | nil =>
      rw [List.intercalate_singleton] at hbound ⊢
      exact hfirst bound hbound _ (ends_cons (.inr (.inl rfl)) _) _ _ _ _
        (hout.closed .array (.inl rfl))
    | cons cs' texts =>
      have hrest := ih hothers (List.cons_ne_nil _ _)
      rw [List.intercalate_cons_cons] at hbound ⊢
      simp only [List.length_append, List.length_singleton] at hbound ⊢
      rw [List.append_assoc, List.append_assoc, List.singleton_append]
      have hcomma := (hrest (by omega)).item.comma
      exact (hfirst bound (by omega) _ (ends_cons (.inl rfl) _) _ _ _ _ hcomma).mono (by omega)

/-- An array is passed over after its opening bracket. -/
theorem scanned_array {texts : List (List Char)} (h : ∀ cs ∈ texts, Passes cs)
    (hbound : ([','].intercalate texts).length ≤ bound) (hout : ScannedOut bound fuel outer rest after) :
    Scanned bound (fuel + 3 + 4 * ([','].intercalate texts).length) .start .array outer
      ([','].intercalate texts ++ ']' :: rest) after := by
  cases texts with
  | nil => exact (hout.closed .array (.inr rfl)).mono (by omega)
  | cons cs texts =>
    exact (scanned_items h (List.cons_ne_nil _ _) hbound hout).started_array.mono (by omega)

theorem passes_array {texts : List (List Char)} (h : ∀ cs ∈ texts, Passes cs) :
    Passes ('[' :: ([','].intercalate texts ++ [']'])) := by
  intro bound hbound rest _ fuel inner outer after hscan
  have hout : ScannedOut bound fuel (inner :: outer) rest after := hscan
  rw [List.cons_append, List.append_assoc, List.singleton_append]
  simp only [List.length_cons, List.length_append, List.length_nil] at hbound ⊢
  exact (scanned_array h (by omega) hout).opened_array.mono (by omega)

/-- Members are passed over one after the other. -/
theorem scanned_members {texts : List (List Char)}
    (h : ∀ cs ∈ texts, ∃ name value, cs = memberChars name value ∧ Passes value)
    (nonempty : texts ≠ []) (hbound : ([','].intercalate texts).length ≤ bound)
    (hout : ScannedOut bound fuel outer rest after) :
    ∃ name value more, [','].intercalate texts ++ '\x7d' :: rest = memberChars name value ++ more ∧
      (quotedChars name.toList).length ≤ bound ∧
      Scanned bound (fuel + 1 + 4 * ([','].intercalate texts).length) .value .object outer
        (value ++ more) after := by
  induction texts with
  | nil => exact absurd rfl nonempty
  | cons cs texts ih =>
    obtain ⟨⟨name, value, rfl, hvalue⟩, hothers⟩ := List.forall_mem_cons.mp h
    have hlength : (memberChars name value).length =
        (quotedChars name.toList).length + (value.length + 1) := by
      rw [memberChars, List.length_append, List.length_cons]
    cases texts with
    | nil =>
      rw [List.intercalate_singleton] at hbound ⊢
      refine ⟨name, value, _, rfl, by omega, ?_⟩
      exact (hvalue bound (by omega) _ (ends_cons (.inr (.inr rfl)) _) _ _ _ _
        (hout.closed .object (.inl rfl))).mono (by omega)
    | cons cs' texts =>
      have hrest := ih hothers (List.cons_ne_nil _ _)
      rw [List.intercalate_cons_cons] at hbound ⊢
      simp only [List.length_append, List.length_singleton] at hbound ⊢
      rw [List.append_assoc, List.append_assoc, List.singleton_append]
      obtain ⟨name', value', more, htexts, hname', hscan⟩ := hrest (by omega)
      have hcomma := (hscan.member hname').comma
      rw [← htexts] at hcomma
      refine ⟨name, value, _, rfl, by omega, ?_⟩
      exact (hvalue bound (by omega) _ (ends_cons (.inl rfl) _) _ _ _ _ hcomma).mono (by omega)

/-- An object is passed over after its opening brace. -/
theorem scanned_object {texts : List (List Char)}
    (h : ∀ cs ∈ texts, ∃ name value, cs = memberChars name value ∧ Passes value)
    (hbound : ([','].intercalate texts).length ≤ bound) (hout : ScannedOut bound fuel outer rest after) :
    Scanned bound (fuel + 3 + 4 * ([','].intercalate texts).length) .start .object outer
      ([','].intercalate texts ++ '\x7d' :: rest) after := by
  cases texts with
  | nil => exact (hout.closed .object (.inr rfl)).mono (by omega)
  | cons cs texts =>
    obtain ⟨name, value, more, htexts, hname, hscan⟩ :=
      scanned_members h (List.cons_ne_nil _ _) hbound hout
    rw [htexts]
    exact (hscan.started_object hname).mono (by omega)

theorem passes_object {texts : List (List Char)}
    (h : ∀ cs ∈ texts, ∃ name value, cs = memberChars name value ∧ Passes value) :
    Passes ('\x7b' :: ([','].intercalate texts ++ ['\x7d'])) := by
  intro bound hbound rest _ fuel inner outer after hscan
  have hout : ScannedOut bound fuel (inner :: outer) rest after := hscan
  rw [List.cons_append, List.append_assoc, List.singleton_append]
  simp only [List.length_cons, List.length_append, List.length_nil] at hbound ⊢
  exact (scanned_object h (by omega) hout).opened_object.mono (by omega)

end Scans

end Json

end Typeforge
