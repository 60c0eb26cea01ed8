/-
# `Typeforge.Proofs.Documents.NumberTexts` — what the text of a number denotes

A numeral of JSON denotes a rational number.  The grammar below says which texts are
numerals and which number each denotes; it knows of no reader, and of no double that the
number might be rounded to.

Every layout sets a run of digits as a numeral that denotes the decimal itself: nothing is
rounded in writing.  The point may be moved past the digits on either side, with zeros to
fill, or into them; where it stands too far off, the numeral has an exponent.  As the
digits of a number are those of no other, the text tells which number it was
(`scriptText_denotes`).  Zeros are left out where digits are spoken of, since they have none.
-/
import Typeforge.Proofs.Documents.Numerals

namespace Typeforge

/-! ## Numerals -/

namespace Json

/-- The digits before the point: a zero alone, or digits that begin with another one. -/
inductive Numeral.Whole : List Char → Prop where
  | zero : Whole ['0']
  | digits {c : Char} {cs : List Char} (first : c ≠ '0') (digits : ∀ d ∈ c :: cs, d.isDigit = true) :
      Whole (c :: cs)

/-- What stands between the whole and the exponent: a point with digits behind it, or nothing. -/
inductive Numeral.Places : List Char → List Char → Prop where
  | none : Places [] []
  | some {ds : List Char} (ne : ds ≠ []) (digits : ∀ d ∈ ds, d.isDigit = true) :
      Places ('.' :: ds) ds

/-- The exponent with its mark, if there is one. -/
inductive Numeral.Raised : List Char → Option Int → Prop where
  | none : Raised [] none
  | bare {mark : Char} {ds : List Char} (marks : mark = 'e' ∨ mark = 'E') (ne : ds ≠ [])
      (digits : ∀ d ∈ ds, d.isDigit = true) : Raised (mark :: ds) (some (digitsValue ds))
  | plus {mark : Char} {ds : List Char} (marks : mark = 'e' ∨ mark = 'E') (ne : ds ≠ [])
      (digits : ∀ d ∈ ds, d.isDigit = true) : Raised (mark :: '+' :: ds) (some (digitsValue ds))
  | minus {mark : Char} {ds : List Char} (marks : mark = 'e' ∨ mark = 'E') (ne : ds ≠ [])
      (digits : ∀ d ∈ ds, d.isDigit = true) : Raised (mark :: '-' :: ds) (some (-digitsValue ds))

/-- A numeral without a sign, its exponent, and the number it denotes. -/
inductive Numeral.Unsigned : List Char → Option Int → ℚ → Prop where
  | mk {whole places ds raised : List Char} {e : Option Int} (hwhole : Numeral.Whole whole)
      (hplaces : Numeral.Places places ds) (hraised : Numeral.Raised raised e) :
      Unsigned (whole ++ places ++ raised) e (digitsValue (whole ++ ds) * 10 ^ (e.getD 0 - ds.length))

/-- A numeral of JSON, the exponent it is written with, if any, and the number it denotes. -/
inductive Numeral : List Char → Option Int → ℚ → Prop where
  | positive {cs : List Char} {e : Option Int} {value : ℚ} (h : Numeral.Unsigned cs e value) :
      Numeral cs e value
  | negative {cs : List Char} {e : Option Int} {value : ℚ} (h : Numeral.Unsigned cs e value) :
      Numeral ('-' :: cs) e (-value)

end Json

/-! ## Digits as they are set -/

namespace Layout

open Json.Numeral

variable {layout : Layout}

theorem whole_of_lead {cs : List Char} (ne : cs ≠ []) (lead : cs.head? = some '0' → cs.length ≤ 1)
    (digits : ∀ c ∈ cs, c.isDigit = true) : Whole cs := by
  obtain ⟨c, rest, rfl⟩ := List.exists_cons_of_ne_nil ne
  by_cases hc : c = '0'
  · subst hc
    have hlength : (('0' : Char) :: rest).length ≤ 1 := lead rfl
    obtain rfl : rest = [] := by
      rw [List.length_cons] at hlength
      exact List.length_eq_zero_iff.mp (by omega)
    exact .zero
  · exact .digits hc digits

theorem places_pointed {places : List Char} (digits : ∀ c ∈ places, c.isDigit = true) :
    Places (pointed places) places := by
  cases places with
  | nil => exact .none
  | cons c cs => exact .some (List.cons_ne_nil _ _) digits

theorem raised_raised (layout : Layout) (e : Option Int) : Raised (layout.raised e) e := by
  cases e with
  | none => exact .none
  | some e =>
    have ne := toDigits_ne_nil e.natAbs
    have digits := isDigit_toDigits e.natAbs
    have hvalue := digitsValue_toDigits e.natAbs
    rw [raised]
    by_cases he : e < 0
    · have heq : (-(digitsValue (Nat.toDigits 10 e.natAbs)) : Int) = e := by
        rw [hvalue]
        omega
      have h := Raised.minus (.inl rfl) ne digits
      rw [heq] at h
      rw [if_pos he]
      exact h
    · have heq : (digitsValue (Nat.toDigits 10 e.natAbs) : Int) = e := by
        rw [hvalue]
        omega
      rw [if_neg he]
      cases layout.marksPositive with
      | true =>
        have h := Raised.plus (.inl rfl) ne digits
        rw [heq] at h
        exact h
      | false =>
        have h := Raised.bare (.inl rfl) ne digits
        rw [heq] at h
        exact h

/-- Digits are not taken for the mark of an exponent. -/
theorem not_mem_of_isDigit {cs : List Char} (digits : ∀ c ∈ cs, c.isDigit = true) : 'e' ∉ cs := by
  intro h
  exact absurd (digits 'e' h) (by decide)

/-- **An exponent is written exactly where the point stands too far off.** -/
theorem mem_setDigits_iff (layout : Layout) {digits : List Char} (point : Int)
    (isDigit : ∀ c ∈ digits, c.isDigit = true) :
    'e' ∈ layout.setDigits digits point ↔
      ¬ (layout.lowestPoint ≤ point ∧ point ≤ layout.highestPoint) := by
  constructor
  · intro hmark hplain
    have hmem := not_mem_of_isDigit isDigit
    have hzeros : ∀ n, 'e' ∉ List.replicate n '0' := by
      intro n h
      exact absurd (List.eq_of_mem_replicate h) (by decide)
    simp only [setDigits, if_pos hplain] at hmark
    split at hmark
    · cases hkeeps : layout.keepsPoint <;> simp [hmem, hzeros, hkeeps] at hmark
    · split at hmark
      · have htake : 'e' ∉ digits.take point.toNat := fun h => hmem (List.mem_of_mem_take h)
        have hdrop : 'e' ∉ digits.drop point.toNat := fun h => hmem (List.mem_of_mem_drop h)
        simp [htake, hdrop] at hmark
      · simp [hmem, hzeros] at hmark
  · intro hfar
    simp only [setDigits, if_neg hfar]
    simp

theorem mem_numeral_iff {whole places : List Char} {e : Option Int}
    (hwhole : ∀ c ∈ whole, c.isDigit = true) (hplaces : ∀ c ∈ places, c.isDigit = true) :
    'e' ∈ whole ++ (pointed places ++ layout.raised e) ↔ e ≠ none := by
  have hpointed : 'e' ∉ pointed places := by
    rw [pointed]
    have := not_mem_of_isDigit hplaces
    split <;> simp [this]
  cases e with
  | none => simp [raised, not_mem_of_isDigit hwhole, hpointed]
  | some e => simp [raised]

/-- **Digits are set as a numeral that denotes their decimal**, with an exponent where the point
stands too far off. -/
theorem exists_unsigned (layout : Layout) {digits : List Char} (point : Int) (ne : digits ≠ [])
    (isDigit : ∀ c ∈ digits, c.isDigit = true) (lead : digits.head? ≠ some '0') :
    ∃ e, Unsigned (layout.setDigits digits point) e
        (digitsValue digits * 10 ^ (point - digits.length)) ∧
      (e = none ↔ layout.lowestPoint ≤ point ∧ point ≤ layout.highestPoint) := by
  obtain ⟨⟨whole, places, e, htext, hne, hlead, hwhole, hplaces, hvalue, -⟩⟩ :=
    layout.exists_numeral point ne isDigit lead
  have hmark := layout.mem_setDigits_iff point isDigit
  rw [htext, mem_numeral_iff hwhole hplaces] at hmark
  refine ⟨e, ?_, not_iff_not.mp hmark⟩
  rw [htext, ← hvalue, ← List.append_assoc]
  exact .mk (whole_of_lead hne hlead hwhole) (places_pointed hplaces) (layout.raised_raised e)

end Layout

/-! ## Numbers as they are set -/

/-- Where the point stands in front of the digits `d₁d₂…` of a decimal: it is `0.d₁d₂… · 10 ^ point`. -/
def Decimal.point (d : Decimal) : Int := Decimal.width d.digits + d.exponent

/-- The number that a sign and a decimal denote. -/
def Decimal.signedValue (negative : Bool) (d : Decimal) : ℚ := if negative then -d.value else d.value

theorem Layout.exists_numeral_set (layout : Layout) {x : Float} {negative : Bool} {m : Nat} {q : Int}
    (h : Binary.ofFloat x = .finite negative m q) (pos : 0 < m) :
    ∃ e, Json.Numeral (layout.set x).toList e
        ((shortestDecimal layout.tie m q).signedValue negative) ∧
      (e = none ↔ layout.lowestPoint ≤ (shortestDecimal layout.tie m q).point ∧
        (shortestDecimal layout.tie m q).point ≤ layout.highestPoint) := by
  obtain ⟨hdigits, -⟩ := roundsTo_shortestDecimal layout.tie (Binary.canonical_of_ofFloat h pos).1
  rw [layout.toList_set h pos]
  generalize shortestDecimal layout.tie m q = d at hdigits
  obtain ⟨e, hunsigned, hplain⟩ := layout.exists_unsigned d.point (toDigits_ne_nil d.digits)
    (isDigit_toDigits d.digits) (head?_toDigits hdigits)
  have hvalue : (digitsValue (Nat.toDigits 10 d.digits) *
      10 ^ (d.point - (Nat.toDigits 10 d.digits).length) : ℚ) = d.value := by
    rw [digitsValue_toDigits, Decimal.point, Decimal.width, add_sub_cancel_left, Decimal.value]
  rw [hvalue] at hunsigned
  refine ⟨e, ?_, hplain⟩
  cases negative with
  | true => exact .negative hunsigned
  | false => exact .positive hunsigned

/-- No text is read as two numbers. -/
theorem Json.Reads.number_eq {cs : List Char} {n k : JsonNumber} (hn : Json.Reads cs (.number n))
    (hk : Json.Reads cs (.number k)) : n = k := by
  have hread := hn.within 0 cs.length (Nat.le_refl _) [] nofun
  rw [hk.within 0 cs.length (Nat.le_refl _) [] nofun] at hread
  cases hread
  rfl

theorem Binary.beq_symm {x y : Float} (h : (x == y) = true) : (y == x) = true := by
  rcases eq_or_zeros_of_beq h with ⟨rfl, -⟩ | ⟨⟨a, p, hx⟩, b, q, hy⟩
  · exact h
  · exact beq_of_zeros hy hx

/-- Finite numbers with one text are equal. -/
theorem beq_of_scriptText_eq {x y : Float} (hx : x.isFinite = true) (hy : y.isFinite = true)
    (h : scriptText x = scriptText y) : (x == y) = true := by
  obtain ⟨n, hreads, hn⟩ := Json.exists_reads_scriptText hx
  obtain ⟨k, hreads', hk⟩ := Json.exists_reads_scriptText hy
  rw [h] at hreads
  obtain rfl := hreads.number_eq hreads'
  exact Binary.beq_of_beq_of_beq (Binary.beq_symm hn.beq) (Binary.beq_symm hk.beq)

/-- **The text of a number denotes the number's decimal.** It is a numeral of JSON, whose value is
that of the digits with their exponent and sign; it has an exponent exactly where the point stands
outside of `-5` to `21`. Finite numbers that have one text are equal. -/
theorem scriptText_denotes :
    (∀ (x : Float) (negative : Bool) (m : Nat) (q : Int),
      Binary.ofFloat x = .finite negative m q → 0 < m →
      ∃ e, Json.Numeral (scriptText x).toList e ((shortestDecimal .toLarger m q).signedValue negative) ∧
        (e = none ↔ -5 ≤ (shortestDecimal .toLarger m q).point ∧
          (shortestDecimal .toLarger m q).point ≤ 21)) ∧
    ∀ x y : Float, x.isFinite = true → y.isFinite = true → scriptText x = scriptText y →
      (x == y) = true := by
  refine ⟨?_, fun x y => beq_of_scriptText_eq⟩
  intro x negative m q h pos
  exact Layout.script.exists_numeral_set h pos

/-- A small number below zero, and the two zeros, which have one text. -/
theorem scriptText_denotes_small :
    Binary.ofFloat (-1.5e-7) = .finite true 5666839779443574 (-75) ∧
    (∃ e, Json.Numeral (scriptText (-1.5e-7)).toList e
        ((shortestDecimal .toLarger 5666839779443574 (-75)).signedValue true) ∧
      (e = none ↔ -5 ≤ (shortestDecimal .toLarger 5666839779443574 (-75)).point ∧
        (shortestDecimal .toLarger 5666839779443574 (-75)).point ≤ 21)) ∧
    scriptText (-0.0) = scriptText 0.0 ∧ ((-0.0 : Float) == 0.0) = true := by
  have hcontent : Binary.ofFloat (-1.5e-7) = .finite true 5666839779443574 (-75) := by decide +kernel
  have hzeros : scriptText (-0.0) = scriptText 0.0 := by decide +kernel
  exact ⟨hcontent, scriptText_denotes.1 _ _ _ _ hcontent (by decide), hzeros,
    scriptText_denotes.2 _ _ (by decide +kernel) (by decide +kernel) hzeros⟩

end Typeforge
