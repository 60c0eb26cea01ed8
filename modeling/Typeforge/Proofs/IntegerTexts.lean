/-
# `Typeforge.Proofs.IntegerTexts` — integers by any spelling

An integer has many spellings: zeros may stand before its digits, and a zero may have a
minus sign.  Reading keeps the integer and forgets the spelling; writing picks one spelling
for each integer.  What a spelling denotes is said here by the places of its digits, so
that it does not depend on how a spelling is read.

Written back, what was read has lost the zeros in front and the sign of a zero, and nothing
else has changed: the written form can be had from the characters alone, however many there
are.  As no two integers are written alike, spellings may be compared by what they are
written as, and the comparison is one of integers.  `integerText_normal_form` holds of all
texts and all integers.
-/
import Mathlib.Data.Nat.Digits.Defs
import Typeforge.Graph.Literal
import Typeforge.Proofs.Documents.Carried

namespace Typeforge

/-! ## Spellings -/

/-- The ten digits, each at the place of its value. -/
def decimalDigits : List Char := ['0', '1', '2', '3', '4', '5', '6', '7', '8', '9']

/-- The number that digits denote: the last of them counts ones, the one before it tens. -/
def placeValue (ds : List Char) : Nat := Nat.ofDigits 10 (ds.map (decimalDigits.idxOf ·)).reverse

/-- The spellings of an integer: one or more digits, and a minus sign before them or none. -/
inductive SpellsInteger : String → Int → Prop where
  | bare {ds : List Char} (ne : ds ≠ []) (digits : ∀ c ∈ ds, c ∈ decimalDigits) :
      SpellsInteger (String.ofList ds) (placeValue ds)
  | minus {ds : List Char} (ne : ds ≠ []) (digits : ∀ c ∈ ds, c ∈ decimalDigits) :
      SpellsInteger (String.ofList ('-' :: ds)) (-placeValue ds)

theorem mem_decimalDigits_iff {c : Char} : c ∈ decimalDigits ↔ c.isDigit = true := by
  constructor
  · exact List.all_eq_true.mp (by decide : decimalDigits.all Char.isDigit = true) c
  · intro h
    obtain ⟨d, hd, rfl⟩ := exists_digitChar h
    exact (by decide : ∀ d < 10, Nat.digitChar d ∈ decimalDigits) d hd

theorem idxOf_decimalDigits : ∀ c ∈ decimalDigits, decimalDigits.idxOf c = c.toNat - '0'.toNat := by
  simp [decimalDigits]

theorem placeValue_eq {ds : List Char} (digits : ∀ c ∈ ds, c ∈ decimalDigits) :
    placeValue ds = digitsValue ds := by
  induction ds with
  | nil => rfl
  | cons d ds ih =>
    obtain ⟨hd, hds⟩ := List.forall_mem_cons.mp digits
    have hfirst : digitsValue [d] = decimalDigits.idxOf d := by
      rw [idxOf_decimalDigits d hd]
      simp [digitsValue]
    calc placeValue (d :: ds)
        = placeValue ds + 10 ^ ds.length * decimalDigits.idxOf d := by
          rw [placeValue, List.map_cons, Nat.ofDigits_reverse_cons, List.length_map, placeValue]
      _ = digitsValue [d] * 10 ^ ds.length + digitsValue ds := by
          rw [ih hds, hfirst, Nat.mul_comm, Nat.add_comm]
      _ = digitsValue (d :: ds) := (digitsValue_append [d] ds).symm

/-! ## Reading -/

/-- Whether a text has a sign in front, and what stands behind it. -/
def takeSign : List Char → Bool × List Char
  | '-' :: ds => (true, ds)
  | ds => (false, ds)

/-- The sign and the digits of a text; `none` if the digits are missing or other characters stand
among them. -/
def signAndDigits? (text : String) : Option (Bool × List Char) :=
  let parts := takeSign text.toList
  if parts.2.isEmpty || !parts.2.all Char.isDigit then none else some parts

/-- The integer that a sign and digits denote. -/
def signedValue (negative : Bool) (ds : List Char) : Int :=
  if negative then -(digitsValue ds : Int) else digitsValue ds

/-- Reading takes the sign off and evaluates the digits. -/
theorem integer?_eq (s : String) :
    integer? s = (signAndDigits? s).map fun parts => signedValue parts.1 parts.2 := by
  rw [signAndDigits?]
  change (if (takeSign s.toList).2.isEmpty || !(takeSign s.toList).2.all Char.isDigit then none
    else some (signedValue (takeSign s.toList).1 (takeSign s.toList).2)) = _
  split <;> rfl

theorem eq_of_takeSign {cs ds : List Char} {negative : Bool} (h : takeSign cs = (negative, ds)) :
    cs = if negative then '-' :: ds else ds := by
  unfold takeSign at h
  split at h <;> cases h <;> rfl

theorem takeSign_signed (negative : Bool) {ds : List Char} (digits : ∀ c ∈ ds, c ∈ decimalDigits) :
    takeSign (if negative then '-' :: ds else ds) = (negative, ds) := by
  cases negative with
  | true => rfl
  | false =>
    -- digits do not begin with a second sign
    rw [if_neg Bool.false_ne_true]
    unfold takeSign
    split
    · exact absurd (digits '-' List.mem_cons_self) (by decide)
    · rfl

/-- **What a text is taken apart into**: digits, from which the text is put together again. -/
theorem signAndDigits?_eq_some_iff {s : String} {negative : Bool} {ds : List Char} :
    signAndDigits? s = some (negative, ds) ↔ ds ≠ [] ∧ (∀ c ∈ ds, c ∈ decimalDigits) ∧
      s = String.ofList (if negative then '-' :: ds else ds) := by
  have haccepts : (ds.isEmpty || !ds.all Char.isDigit) = false ↔
      ds ≠ [] ∧ ∀ c ∈ ds, c ∈ decimalDigits := by
    simp only [Bool.or_eq_false_iff, List.isEmpty_eq_false_iff, Bool.not_eq_false',
      List.all_eq_true, mem_decimalDigits_iff]
  rw [signAndDigits?, ← and_assoc, ← haccepts]
  constructor
  · intro h
    obtain ⟨hread, hparts⟩ := Option.ite_none_left_eq_some.mp h
    have hparts := Option.some.inj hparts
    rw [hparts] at hread
    refine ⟨Bool.eq_false_iff.mpr hread, ?_⟩
    rw [← eq_of_takeSign hparts, String.ofList_toList]
  · rintro ⟨hread, rfl⟩
    have hparts := takeSign_signed negative (haccepts.mp hread).2
    rw [String.toList_ofList, hparts]
    exact if_neg (Bool.eq_false_iff.mp hread)

/-- **A text is read exactly if it is a spelling**, and as the integer that it spells. -/
theorem integer?_eq_some_iff {s : String} {n : Int} : integer? s = some n ↔ SpellsInteger s n := by
  rw [integer?_eq, Option.map_eq_some_iff]
  constructor
  · rintro ⟨⟨negative, ds⟩, hparts, rfl⟩
    obtain ⟨ne, digits, rfl⟩ := signAndDigits?_eq_some_iff.mp hparts
    rw [signedValue, ← placeValue_eq digits]
    cases negative with
    | true => exact .minus ne digits
    | false => exact .bare ne digits
  · intro h
    cases h with
    | bare ne digits =>
      refine ⟨(false, _), signAndDigits?_eq_some_iff.mpr ⟨ne, digits, rfl⟩, ?_⟩
      rw [placeValue_eq digits]
      rfl
    | minus ne digits =>
      refine ⟨(true, _), signAndDigits?_eq_some_iff.mpr ⟨ne, digits, rfl⟩, ?_⟩
      rw [placeValue_eq digits]
      rfl

/-- The texts that are spellings, by their characters. -/
theorem exists_integer?_iff {s : String} :
    (∃ n, integer? s = some n) ↔ ∃ ds, ds ≠ [] ∧ (∀ c ∈ ds, c ∈ decimalDigits) ∧
      (s = String.ofList ds ∨ s = String.ofList ('-' :: ds)) := by
  simp only [integer?_eq_some_iff]
  constructor
  · rintro ⟨_, ⟨ne, digits⟩ | ⟨ne, digits⟩⟩
    · exact ⟨_, ne, digits, .inl rfl⟩
    · exact ⟨_, ne, digits, .inr rfl⟩
  · rintro ⟨ds, ne, digits, rfl | rfl⟩
    · exact ⟨_, .bare ne digits⟩
    · exact ⟨_, .minus ne digits⟩

/-! ## Writing -/

/-- An integer is written as its digits, or behind a minus sign as those of its opposite. -/
theorem toList_integerText (n : Int) :
    (∃ k : Nat, n = k ∧ (integerText n).toList = Nat.toDigits 10 k) ∨
    ∃ k : Nat, 0 < k ∧ n = -k ∧ (integerText n).toList = '-' :: Nat.toDigits 10 k := by
  rw [integerText, String.toList_ofList]
  by_cases hn : n < 0
  · refine .inr ⟨n.natAbs, by omega, by omega, ?_⟩
    rw [if_pos hn, List.singleton_append]
  · refine .inl ⟨n.natAbs, by omega, ?_⟩
    rw [if_neg hn, List.nil_append]

theorem toDigits_ne_minus {k : Nat} {ds : List Char} : Nat.toDigits 10 k ≠ '-' :: ds := by
  intro h
  exact absurd (isDigit_toDigits k '-' (h ▸ List.mem_cons_self)) (by decide)

/-- Only the digits of zero begin with a zero. -/
theorem eq_nil_of_toDigits {k : Nat} {ds : List Char} (h : Nat.toDigits 10 k = '0' :: ds) :
    k = 0 ∧ ds = [] := by
  obtain rfl : k = 0 := by
    by_contra hk
    exact head?_toDigits (Nat.pos_of_ne_zero hk) (by rw [h]; rfl)
  rw [Nat.toDigits_zero] at h
  exact ⟨rfl, (List.cons.inj h).2.symm⟩

/-- A written form has no zero before other digits, and none behind a minus sign. -/
structure CanonicalText (text : String) : Prop where
  eq_nil_of_zero : ∀ ds, text.toList = '0' :: ds → ds = []
  ne_minus_zero : ∀ ds, text.toList ≠ '-' :: '0' :: ds

theorem canonicalText_integerText (n : Int) : CanonicalText (integerText n) := by
  rcases toList_integerText n with ⟨k, -, htext⟩ | ⟨k, pos, -, htext⟩
  · refine ⟨fun ds hds => ?_, fun ds hds => ?_⟩
    · exact (eq_nil_of_toDigits (htext.symm.trans hds)).2
    · exact toDigits_ne_minus (htext.symm.trans hds)
  · refine ⟨fun ds hds => ?_, fun ds hds => ?_⟩
    · cases htext.symm.trans hds
    · obtain ⟨-, hdigits⟩ := List.cons.inj (htext.symm.trans hds)
      exact pos.ne' (eq_nil_of_toDigits hdigits).1

theorem startsWith_integerText (n : Int) : (integerText n).startsWith '-' = true ↔ n < 0 := by
  rw [String.startsWith_char_eq_head?, beq_iff_eq]
  rcases toList_integerText n with ⟨k, rfl, htext⟩ | ⟨k, pos, rfl, htext⟩
  · rw [htext]
    refine iff_of_false (fun hhead => ?_) (Int.not_lt.mpr (Int.natCast_nonneg k))
    obtain ⟨ds, hds⟩ := List.head?_eq_some_iff.mp hhead
    exact toDigits_ne_minus hds
  · rw [htext]
    exact iff_of_true rfl (by omega)

/-! ## Trimming -/

/-- Digits without the zeros in front, and with the sign that stood before them; a zero alone if
nothing else is left. -/
def trimmedText (negative : Bool) (digits : List Char) : String :=
  let significant := digits.dropWhile (· == '0')
  if significant.isEmpty then "0"
  else String.ofList (if negative then '-' :: significant else significant)

/-- The written form of the integer that a text spells, from the characters of the text alone. -/
def canonicalText? (text : String) : Option String :=
  (signAndDigits? text).map fun parts => trimmedText parts.1 parts.2

theorem digitsValue_dropWhile (ds : List Char) :
    digitsValue (ds.dropWhile (· == '0')) = digitsValue ds := by
  have hzeros : ds.takeWhile (· == '0') = List.replicate (ds.takeWhile (· == '0')).length '0' :=
    List.eq_replicate_of_mem fun c hc => by simpa using List.mem_takeWhile_imp hc
  calc digitsValue (ds.dropWhile (· == '0'))
      = digitsValue (ds.takeWhile (· == '0') ++ ds.dropWhile (· == '0')) := by
        rw [digitsValue_append, hzeros, digitsValue_zeros, Nat.zero_mul, Nat.zero_add]
    _ = digitsValue ds := by rw [List.takeWhile_append_dropWhile]

/-- **Trimming is writing**: digits are trimmed to the written form of what they denote. -/
theorem trimmedText_eq (negative : Bool) {ds : List Char} (digits : ∀ c ∈ ds, c.isDigit = true) :
    trimmedText negative ds = integerText (signedValue negative ds) := by
  have hlead := List.head?_dropWhile_not (· == '0') ds
  have hdigits : ∀ c ∈ ds.dropWhile (· == '0'), c.isDigit = true := fun c hc =>
    digits c ((List.dropWhile_sublist _).mem hc)
  rw [trimmedText, signedValue, ← digitsValue_dropWhile ds]
  generalize ds.dropWhile (· == '0') = significant at hlead hdigits
  cases significant with
  | nil => cases negative <;> rfl
  | cons c cs =>
    have hc : (c :: cs).head? ≠ some '0' := by
      rintro ⟨⟩
      cases hlead
    obtain ⟨pos, htext⟩ := toDigits_digitsValue (List.cons_ne_nil c cs) hc hdigits
    cases negative with
    | true =>
      have hneg : -(digitsValue (c :: cs) : Int) < 0 := by omega
      change String.ofList ('-' :: c :: cs) = integerText (-(digitsValue (c :: cs) : Int))
      rw [integerText, if_pos hneg, Int.natAbs_neg, Int.natAbs_natCast, htext]
      rfl
    | false =>
      have hnonneg : ¬ (digitsValue (c :: cs) : Int) < 0 := by omega
      change String.ofList (c :: cs) = integerText (digitsValue (c :: cs))
      rw [integerText, if_neg hnonneg, Int.natAbs_natCast, htext]
      rfl

/-- **What a text is written as after reading is had by trimming it.** -/
theorem canonicalText?_eq (s : String) : canonicalText? s = (integer? s).map integerText := by
  rw [canonicalText?, integer?_eq, Option.map_map]
  refine Option.map_congr ?_
  rintro ⟨negative, ds⟩ hparts
  obtain ⟨-, digits, -⟩ := signAndDigits?_eq_some_iff.mp hparts
  exact trimmedText_eq negative fun c hc => mem_decimalDigits_iff.mp (digits c hc)

/-! ## The normal form -/

/-- No two integers are written alike. -/
theorem integerText_eq_iff {m n : Int} : integerText m = integerText n ↔ m = n := by
  constructor
  · intro h
    have hread := integer?_integerText m
    rw [h, integer?_integerText] at hread
    exact (Option.some.inj hread).symm
  · rintro rfl
    rfl

/-- A written form is trimmed to itself. -/
theorem canonicalText?_integerText (n : Int) :
    canonicalText? (integerText n) = some (integerText n) := by
  rw [canonicalText?_eq, integer?_integerText]
  rfl

/-- **The text of an integer is a normal form.** The texts that are read are one or more digits,
which a minus sign may stand before, and each is read as the integer that it spells; what that is
written as is the text without superfluous zeros and signs. Two texts are read as one integer,
written alike, and accepted by one another's literals, exactly if they spell the same integer. No
written form has a leading zero or a negative zero; it is read and trimmed to itself, and begins
with a minus sign exactly if the integer is below zero. -/
theorem integerText_normal_form :
    (∀ s, (∃ n, integer? s = some n) ↔ ∃ ds, ds ≠ [] ∧ (∀ c ∈ ds, c ∈ decimalDigits) ∧
      (s = String.ofList ds ∨ s = String.ofList ('-' :: ds))) ∧
    (∀ s n, integer? s = some n ↔ SpellsInteger s n) ∧
    (∀ s, canonicalText? s = (integer? s).map integerText) ∧
    (∀ s t m n, integer? s = some m → integer? t = some n →
      (m = n ↔ ∃ k, SpellsInteger s k ∧ SpellsInteger t k) ∧
      (integerText m = integerText n ↔ ∃ k, SpellsInteger s k ∧ SpellsInteger t k) ∧
      ((Literal.bigint m).accepts (.bigint n) = true ↔ ∃ k, SpellsInteger s k ∧ SpellsInteger t k)) ∧
    ∀ n, CanonicalText (integerText n) ∧ integer? (integerText n) = some n ∧
      canonicalText? (integerText n) = some (integerText n) ∧
      ((integerText n).startsWith '-' = true ↔ n < 0) := by
  refine ⟨fun _ => exists_integer?_iff, fun _ _ => integer?_eq_some_iff, canonicalText?_eq, ?_, ?_⟩
  · intro s t m n hs ht
    have hsame : m = n ↔ ∃ k, SpellsInteger s k ∧ SpellsInteger t k := by
      simp only [← integer?_eq_some_iff, hs, ht, Option.some.injEq, exists_eq_left']
      exact eq_comm
    have haccepts : (Literal.bigint m).accepts (.bigint n) = true ↔ m = n := beq_iff_eq
    exact ⟨hsame, integerText_eq_iff.trans hsame, haccepts.trans hsame⟩
  · intro n
    exact ⟨canonicalText_integerText n, integer?_integerText n, canonicalText?_integerText n,
      startsWith_integerText n⟩

/-- Zeros in front and the sign of a zero make no difference; the sign of another integer does. A
text without digits, or with another sign, is not read. -/
theorem integerText_normal_form_zeros :
    (integer? "-0042" = some (-42) ∧ integer? "-42" = some (-42) ∧
      ((Literal.bigint (-42)).accepts (.bigint (-42)) = true ↔
        ∃ k, SpellsInteger "-0042" k ∧ SpellsInteger "-42" k)) ∧
    (integer? "-00" = some 0 ∧ integer? "0" = some 0 ∧
      (integerText 0 = integerText 0 ↔ ∃ k, SpellsInteger "-00" k ∧ SpellsInteger "0" k)) ∧
    (integer? "042" = some 42 ∧
      ((42 : Int) = -42 ↔ ∃ k, SpellsInteger "042" k ∧ SpellsInteger "-42" k)) ∧
    integer? "-" = none ∧ integer? "+5" = none := by
  obtain ⟨-, -, -, compared, -⟩ := integerText_normal_form
  have hpadded : integer? "-0042" = some (-42) := by decide
  have hplain : integer? "-42" = some (-42) := by decide
  have hnegative : integer? "-00" = some 0 := by decide
  have hzero : integer? "0" = some 0 := by decide
  have hopposite : integer? "042" = some 42 := by decide
  exact ⟨⟨hpadded, hplain, (compared _ _ _ _ hpadded hplain).2.2⟩,
    ⟨hnegative, hzero, (compared _ _ _ _ hnegative hzero).2.1⟩,
    ⟨hopposite, (compared _ _ _ _ hopposite hplain).1⟩, by decide, by decide⟩

end Typeforge
