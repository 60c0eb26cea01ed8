/-
# `Typeforge.Proofs.Documents.Numerals` — numbers are read as they were set

A number is set as a run of digits, with the point somewhere in it and perhaps an
exponent.  The reader takes the digits apart again: wherever the point stands, what
it finds is the decimal that was set.  That decimal lies nearest to the number, so
that reading it comes back to the number itself; only the sign of a zero may be
lost, which the script layout does not write.
-/
import Typeforge.Proofs.Documents.Reading
import Typeforge.Proofs.Numbers.Shortest

namespace Typeforge

/-! ## Runs of digits -/

theorem digitsValue_append (cs ds : List Char) :
    digitsValue (cs ++ ds) = digitsValue cs * 10 ^ ds.length + digitsValue ds := by
  induction ds using List.reverseRecOn with
  | nil => simp [digitsValue]
  | append_singleton ds d ih =>
    have step (es : List Char) :
        digitsValue (es ++ [d]) = 10 * digitsValue es + (d.toNat - '0'.toNat) := by
      simp [digitsValue]
    rw [← List.append_assoc, step, ih, step, List.length_append, List.length_singleton, pow_succ]
    ring

theorem digitsValue_zeros (n : Nat) : digitsValue (List.replicate n '0') = 0 := by
  induction n with
  | zero => rfl
  | succ n ih => rw [List.replicate_succ', digitsValue_append, ih]; rfl

/-- A digit is the character of a number below ten. -/
theorem exists_digitChar {c : Char} (h : c.isDigit = true) : ∃ d < 10, Nat.digitChar d = c := by
  obtain ⟨hlow, hhigh⟩ := Char.isDigit_iff_toNat.mp h
  change 48 ≤ c.toNat at hlow
  change c.toNat ≤ 57 at hhigh
  refine ⟨c.toNat - 48, by omega, ?_⟩
  rw [← Char.toNat_inj, Nat.toNat_digitChar_of_lt_ten (by omega)]
  omega

theorem digitsValue_digitChar : ∀ d < 10, digitsValue [Nat.digitChar d] = d := by decide

theorem digitsValue_toDigits (n : Nat) : digitsValue (Nat.toDigits 10 n) = n := by
  induction n using Nat.strongRecOn with
  | ind n ih =>
    rw [Nat.toDigits_eq_if (by decide)]
    split
    · rename_i hlt
      exact digitsValue_digitChar n hlt
    · rw [digitsValue_append, ih _ (by omega), digitsValue_digitChar _ (Nat.mod_lt _ (by decide))]
      exact Nat.div_add_mod' n 10

theorem isDigit_toDigits (n : Nat) : ∀ c ∈ Nat.toDigits 10 n, c.isDigit = true :=
  fun _ hc => Nat.isDigit_of_mem_toDigits (by decide) (by decide) hc

theorem toDigits_ne_nil (n : Nat) : Nat.toDigits 10 n ≠ [] :=
  List.length_pos_iff.mp Nat.length_toDigits_pos

/-- The digits of a positive number begin with another digit than zero. -/
theorem head?_toDigits {n : Nat} (pos : 0 < n) : (Nat.toDigits 10 n).head? ≠ some '0' := by
  have digit : ∀ d < 10, 0 < d → Nat.digitChar d ≠ '0' := by decide
  induction n using Nat.strongRecOn with
  | ind n ih =>
    rw [Nat.toDigits_eq_if (by decide)]
    split
    · rename_i hlt
      exact fun h => digit n hlt pos (Option.some.inj h)
    · rw [List.head?_append_of_ne_nil _ (toDigits_ne_nil _)]
      exact ih _ (by omega) (by omega)

/-- Digits that begin with no zero are the digits of the number that they denote. -/
theorem toDigits_digitsValue {ds : List Char} (ne : ds ≠ []) (lead : ds.head? ≠ some '0')
    (digits : ∀ c ∈ ds, c.isDigit = true) :
    0 < digitsValue ds ∧ Nat.toDigits 10 (digitsValue ds) = ds := by
  induction ds using List.reverseRecOn with
  | nil => exact absurd rfl ne
  | append_singleton ds d ih =>
    obtain ⟨hds, hd⟩ := List.forall_mem_append.mp digits
    obtain ⟨k, hk, rfl⟩ := exists_digitChar (hd d List.mem_cons_self)
    have hlast := digitsValue_digitChar k hk
    by_cases hnil : ds = []
    · subst hnil
      have hpos : k ≠ 0 := by
        rintro rfl
        exact lead rfl
      rw [List.nil_append, hlast, Nat.toDigits_of_lt_base hk]
      exact ⟨by omega, rfl⟩
    · rw [List.head?_append_of_ne_nil _ hnil] at lead
      obtain ⟨hpos, htext⟩ := ih hnil lead hds
      rw [digitsValue_append, hlast, List.length_singleton, Nat.pow_one]
      refine ⟨by omega, ?_⟩
      calc Nat.toDigits 10 (digitsValue ds * 10 + k)
          = Nat.toDigits 10 (digitsValue ds) ++ Nat.toDigits 10 k := by
            rw [Nat.toDigits_append_toDigits (by decide) hpos hk, Nat.mul_comm]
        _ = ds ++ [Nat.digitChar k] := by rw [htext, Nat.toDigits_of_lt_base hk]

/-- A run of characters of a kind ends where the first of another kind stands. -/
theorem run_append {p : Char → Bool} {run rest : List Char} (inside : ∀ c ∈ run, p c = true)
    (ends : ∀ c ∈ rest.head?, p c = false) :
    (run ++ rest).takeWhile p = run ∧ (run ++ rest).dropWhile p = rest := by
  have hrest : rest.takeWhile p = [] ∧ rest.dropWhile p = rest := by
    cases rest with
    | nil => exact ⟨rfl, rfl⟩
    | cons c rest =>
      have hc := ends c rfl
      exact ⟨List.takeWhile_cons_of_neg (by simp [hc]), List.dropWhile_cons_of_neg (by simp [hc])⟩
  rw [List.takeWhile_append_of_pos inside, List.dropWhile_append_of_pos inside, hrest.1, hrest.2,
    List.append_nil]
  exact ⟨rfl, rfl⟩

theorem spanDigits_append {ds rest : List Char} (digits : ∀ c ∈ ds, c.isDigit = true)
    (ends : ∀ c ∈ rest.head?, c.isDigit = false) : spanDigits (ds ++ rest) = (ds, rest) := by
  obtain ⟨htake, hdrop⟩ := run_append digits ends
  rw [spanDigits, List.span_eq_takeWhile_dropWhile, htake, hdrop]

/-! ## Numerals -/

/-- The places of a numeral, after their point. -/
def pointed (places : List Char) : List Char := if places.isEmpty then [] else '.' :: places

/-- The exponent of a numeral, in a layout. -/
def Layout.raised (layout : Layout) : Option Int → List Char
  | none => []
  | some e =>
    'e' :: (if e < 0 then ['-'] else if layout.marksPositive then ['+'] else []) ++
      Nat.toDigits 10 e.natAbs

namespace Json

/-- What follows a value begins with no digit. -/
theorem Ends.isDigit {rest : List Char} (h : Ends rest) : ∀ c ∈ rest.head?, c.isDigit = false := by
  intro c hc
  rcases h c hc with rfl | rfl | rfl <;> decide

theorem readExponent_raised (layout : Layout) (e : Int) {rest : List Char} (ends : Ends rest) :
    readExponent ((if e < 0 then ['-'] else if layout.marksPositive then ['+'] else []) ++
      Nat.toDigits 10 e.natAbs ++ rest) = .ok (e, rest) := by
  have hspan := spanDigits_append (isDigit_toDigits e.natAbs) ends.isDigit
  have hempty : (Nat.toDigits 10 e.natAbs).isEmpty = false :=
    List.isEmpty_eq_false_iff.mpr (toDigits_ne_nil _)
  have hvalue := digitsValue_toDigits e.natAbs
  by_cases he : e < 0
  · rw [if_pos he]
    simp only [List.cons_append, List.nil_append, readExponent, hspan, hempty, hvalue,
      Bool.false_eq_true, if_false, if_true]
    congr 2
    omega
  · have hnatAbs : (e.natAbs : Int) = e := by omega
    rw [if_neg he]
    cases layout.marksPositive with
    | true =>
      simp only [if_true, List.cons_append, List.nil_append, readExponent, hspan, hempty, hvalue,
        Bool.false_eq_true, if_false, hnatAbs]
    | false =>
      have hdigits : ∀ c ∈ (Nat.toDigits 10 e.natAbs ++ rest).head?, c ≠ '-' ∧ c ≠ '+' := by
        intro c hc
        rw [List.head?_append_of_ne_nil _ (toDigits_ne_nil _)] at hc
        have hc := isDigit_toDigits _ c (List.mem_of_mem_head? hc)
        constructor <;> rintro rfl <;> revert hc <;> decide
      rw [if_neg Bool.false_ne_true, List.nil_append]
      unfold readExponent
      split
      · rename_i heq
        split at heq
        · rename_i hminus
          exact absurd rfl (hdigits '-' (by rw [hminus]; rfl)).1
        · rename_i hplus
          exact absurd rfl (hdigits '+' (by rw [hplus]; rfl)).2
        · cases heq
          simp only [hspan, hempty, hvalue, Bool.false_eq_true, if_false, hnatAbs]

/-- What a numeral is read as: an integer if it has neither point nor exponent and fits. -/
def ofNumeral (negative : Bool) (digits places : Nat) (e : Option Int) : RawJson :=
  if places == 0 && e.isNone && fitsInteger (Binary.signed negative digits) &&
      !(negative && digits == 0) then
    .number (.integer (Binary.signed negative digits))
  else realNumber negative digits (e.getD 0 - places)

/-- **A numeral is read as its digits say.** -/
theorem readUnsigned_numeral (layout : Layout) (negative : Bool) (whole places : List Char)
    (e : Option Int) {rest : List Char} (ne : whole ≠ [])
    (lead : whole.head? = some '0' → whole.length ≤ 1)
    (digits : ∀ c ∈ whole, c.isDigit = true) (digits' : ∀ c ∈ places, c.isDigit = true)
    (ends : Ends rest) :
    readUnsigned negative (whole ++ (pointed places ++ (layout.raised e ++ rest))) =
      .ok (ofNumeral negative (digitsValue (whole ++ places)) places.length e, rest) := by
  have hraised : ∀ c ∈ (layout.raised e ++ rest).head?, c.isDigit = false := by
    cases e with
    | none => exact ends.isDigit
    | some e =>
      rintro _ ⟨⟩
      rfl
  have hpointed : ∀ c ∈ (pointed places ++ (layout.raised e ++ rest)).head?, c.isDigit = false := by
    cases places with
    | nil => exact hraised
    | cons c places =>
      rintro _ ⟨⟩
      rfl
  have hfirst : (whole.isEmpty || (whole.head? = some '0' && decide (1 < whole.length))) = false := by
    rw [Bool.or_eq_false_iff]
    refine ⟨List.isEmpty_eq_false_iff.mpr ne, ?_⟩
    rw [Bool.and_eq_false_iff]
    by_cases h : whole.head? = some '0'
    · exact .inr (decide_eq_false (not_lt.mpr (lead h)))
    · exact .inl (decide_eq_false h)
  have close (c : Bool) (x y : RawJson) (rest : List Char) :
      (if c = true then (pure (x, rest) : Except ReadFault (RawJson × List Char)) else pure (y, rest)) =
        .ok (if c = true then x else y, rest) := by
    cases c <;> rfl
  rw [readUnsigned, spanDigits_append digits hpointed]
  simp only [hfirst, Bool.false_eq_true, if_false]
  cases places with
  | nil =>
    cases e with
    | none =>
      rcases rest with _ | ⟨c, rest⟩
      · exact close _ _ _ _
      · rcases ends c rfl with rfl | rfl | rfl <;> exact close _ _ _ _
    | some e =>
      have hexponent := readExponent_raised layout e ends
      simp only [pointed, Layout.raised, List.isEmpty_nil, if_true, List.nil_append, List.cons_append]
      split
      · rename_i heq
        exact absurd (List.cons.inj heq).1 (by decide)
      · simp only [pure_bind, true_or, if_true, hexponent]
        simp only [bind, Except.bind]
        exact close _ _ _ _
  | cons c places =>
    have hspan := spanDigits_append digits' hraised
    simp only [pointed, List.isEmpty_cons, Bool.false_eq_true, if_false, List.cons_append] at hspan ⊢
    simp only [hspan, List.isEmpty_cons, Bool.false_eq_true, if_false, pure_bind]
    cases e with
    | none =>
      rcases rest with _ | ⟨d, rest⟩
      · exact close _ _ _ _
      · have hnot : ¬ (d = 'e' ∨ d = 'E') := by rcases ends d rfl with rfl | rfl | rfl <;> decide
        exact (if_neg hnot).trans (close _ _ _ _)
    | some e =>
      have hexponent := readExponent_raised layout e ends
      simp only [Layout.raised, List.cons_append, true_or, if_true, hexponent]
      simp only [bind, Except.bind]
      exact close _ _ _ _

end Json

/-! ## Digits as they are set -/

/-- A numeral that stands for a decimal: its digits before and after the point, and its exponent. -/
structure Layout.Numeral (layout : Layout) (digits : List Char) (point : Int) (text : List Char) where
  whole : List Char
  places : List Char
  exponent : Option Int
  text_eq : text = whole ++ (pointed places ++ layout.raised exponent)
  ne : whole ≠ []
  lead : whole.head? = some '0' → whole.length ≤ 1
  isDigit_whole : ∀ c ∈ whole, c.isDigit = true
  isDigit_places : ∀ c ∈ places, c.isDigit = true
  value_eq : (digitsValue (whole ++ places) * 10 ^ (exponent.getD 0 - places.length) : ℚ) =
    digitsValue digits * 10 ^ (point - digits.length)
  /-- Only a layout that does not keep the point writes integers. -/
  keeps : layout.keepsPoint = true → places ≠ [] ∨ exponent ≠ none

/-- **Wherever the point stands, the numeral stands for the decimal that was set.** -/
theorem Layout.exists_numeral (layout : Layout) {digits : List Char} (point : Int)
    (ne : digits ≠ []) (isDigit : ∀ c ∈ digits, c.isDigit = true) (lead : digits.head? ≠ some '0') :
    Nonempty (layout.Numeral digits point (layout.setDigits digits point)) := by
  have hlength : 0 < digits.length := List.length_pos_iff.mpr ne
  have isDigit_zeros (n : Nat) : ∀ c ∈ List.replicate n '0', c.isDigit = true := fun c hc => by
    rw [List.eq_of_mem_replicate hc]
    rfl
  unfold setDigits
  dsimp only
  by_cases hplain : layout.lowestPoint ≤ point ∧ point ≤ layout.highestPoint
  · rw [if_pos hplain]
    by_cases hwhole : (digits.length : Int) ≤ point
    · -- a whole number, with zeros to fill
      obtain ⟨n, hn⟩ := Int.le.dest hwhole
      have hzeros : (point - digits.length).toNat = n := by omega
      have hvalue : (digitsValue (digits ++ List.replicate n '0') : ℚ) =
          digitsValue digits * 10 ^ (point - digits.length) := by
        have hpower : point - digits.length = n := by omega
        rw [digitsValue_append, digitsValue_zeros, List.length_replicate, hpower, zpow_natCast]
        push_cast
        ring
      have hne : digits ++ List.replicate n '0' ≠ [] := by simp [ne]
      have hlead : (digits ++ List.replicate n '0').head? ≠ some '0' := by
        rwa [List.head?_append_of_ne_nil _ ne]
      have hdigits : ∀ c ∈ digits ++ List.replicate n '0', c.isDigit = true := fun c hc =>
        (List.mem_append.mp hc).elim (isDigit c) (isDigit_zeros n c)
      rw [if_pos hwhole, hzeros]
      cases hkeeps : layout.keepsPoint with
      | true =>
        refine ⟨⟨digits ++ List.replicate n '0', ['0'], none, rfl, hne, fun h => absurd h hlead,
          hdigits, by simp, ?_, fun _ => .inl (List.cons_ne_nil _ _)⟩⟩
        rw [digitsValue_append, ← hvalue]
        generalize digitsValue (digits ++ List.replicate n '0') = d
        norm_num [show digitsValue ['0'] = 0 from rfl]
        ring
      | false =>
        refine ⟨⟨digits ++ List.replicate n '0', [], none, rfl, hne, fun h => absurd h hlead,
          hdigits, by simp, ?_, fun h => by rw [hkeeps] at h; cases h⟩⟩
        rw [List.append_nil, hvalue]
        simp
    · rw [if_neg hwhole]
      by_cases hpoint : 0 < point
      · -- the point among the digits
        have hdrop : digits.drop point.toNat ≠ [] := by
          rw [Ne, List.drop_eq_nil_iff]
          omega
        have htake : digits.take point.toNat ≠ [] := fun h =>
          (List.take_eq_nil_iff.mp h).elim (by omega) ne
        rw [if_pos hpoint]
        refine ⟨⟨digits.take point.toNat, digits.drop point.toNat, none, ?_, htake, fun h => ?_,
          fun c hc => isDigit c (List.mem_of_mem_take hc),
          fun c hc => isDigit c (List.mem_of_mem_drop hc), ?_, fun _ => .inl hdrop⟩⟩
        · rw [pointed, List.isEmpty_eq_false_iff.mpr hdrop, if_neg Bool.false_ne_true, raised,
            List.append_nil]
        · rw [List.head?_take, if_neg (by omega)] at h
          exact absurd h lead
        · rw [List.take_append_drop, List.length_drop, Option.getD_none]
          congr 2
          omega
      · -- zeros between the point and the digits
        obtain ⟨n, hn⟩ := Int.le.dest (not_lt.mp hpoint)
        have hzeros : (-point).toNat = n := by omega
        rw [if_neg hpoint, hzeros]
        refine ⟨⟨['0'], List.replicate n '0' ++ digits, none, ?_, List.cons_ne_nil _ _, fun _ => le_rfl,
          by simp, fun c hc => (List.mem_append.mp hc).elim (isDigit_zeros n c) (isDigit c), ?_,
          fun _ => .inl (by simp [ne])⟩⟩
        · rw [pointed, List.isEmpty_eq_false_iff.mpr (by simp [ne]), if_neg Bool.false_ne_true, raised,
            List.append_nil]
          rfl
        · have hdigits : digitsValue (['0'] ++ (List.replicate n '0' ++ digits)) = digitsValue digits := by
            rw [digitsValue_append, digitsValue_append, digitsValue_zeros]
            simp [digitsValue]
          rw [hdigits, List.length_append, List.length_replicate, Option.getD_none]
          congr 2
          push_cast
          omega
  · -- one digit before the point, and an exponent
    rw [if_neg hplain]
    refine ⟨⟨digits.take 1, digits.drop 1, some (point - 1), ?_, ?_, fun _ => ?_,
      fun c hc => isDigit c (List.mem_of_mem_take hc),
      fun c hc => isDigit c (List.mem_of_mem_drop hc), ?_, fun _ => .inr (Option.some_ne_none _)⟩⟩
    · have hpointed : pointed (digits.drop 1) =
          if digits.length ≤ 1 then [] else '.' :: digits.drop 1 := by
        rw [pointed]
        by_cases h : digits.length ≤ 1
        · rw [if_pos h, List.drop_eq_nil_of_le h]
          rfl
        · rw [if_neg h, List.isEmpty_eq_false_iff.mpr (by rw [Ne, List.drop_eq_nil_iff]; exact h),
            if_neg Bool.false_ne_true]
      rw [hpointed, raised, List.append_assoc, List.append_assoc]
    · exact fun h => (List.take_eq_nil_iff.mp h).elim Nat.one_ne_zero ne
    · exact List.length_take_le 1 digits
    · rw [List.take_append_drop, List.length_drop, Option.getD_some]
      congr 2
      omega

/-! ## Numbers as they are set -/

namespace Binary

/-- The content of a number that is not zero is in the form in which numbers are stored. -/
theorem canonical_of_ofFloat {x : Float} {negative : Bool} {m : Nat} {q : Int}
    (h : ofFloat x = finite negative m q) (pos : 0 < m) :
    Rounding.Canonical m q ∧ q ≤ 971 := by
  obtain ⟨lt, low, high, normal⟩ := finite_of_ofFloat h
  exact ⟨⟨pos, lt, low, normal⟩, high⟩

/-- A number is what its content is rounded from. -/
theorem eq_of_unpack {x y : Float} {negative : Bool} {m : Nat} {q : Int} {pos : 0 < m}
    (h : ofFloat x = finite negative m q)
    (hy : y.toModel.unpack = .finite (sign negative) m q pos) : y = x := by
  rw [unpack_eq] at hy
  refine (unpacked_inj ?_ (by rw [h]; exact nofun)).symm
  rw [hy, h, unpacked, dif_neg pos.ne']

theorem ofFloat_ofInt_zero : ofFloat (Float.ofInt 0) = finite false 0 (-1074) := by decide +kernel

/-- A zero is told by its sign. -/
theorem roundDecimal_zero {x : Float} {negative : Bool} {q : Int}
    (h : ofFloat x = finite negative 0 q) (e : Int) : roundDecimal negative 0 e = x := by
  obtain ⟨-, -, -, hnormal⟩ := finite_of_ofFloat h
  obtain rfl : q = -1074 := hnormal.resolve_left (by omega)
  have hzero : roundDecimal negative 0 e = if negative then -0.0 else 0.0 := by
    simp only [roundDecimal, true_or, if_true]
  refine ofFloat_inj ?_ ?_
  · rw [hzero, h]
    cases negative <;> decide +kernel
  · rw [hzero]
    cases negative <;> decide +kernel

theorem isFinite_of_ofFloat {x : Float} {negative : Bool} {m : Nat} {q : Int}
    (h : ofFloat x = finite negative m q) : x.isFinite = true :=
  (isFinite_eq x).mpr ⟨negative, m, q, h⟩

end Binary

/-- What stands for a finite number in documents: a number equal to it, and the integer zero for a
zero of either sign. -/
structure JsonNumber.StandsFor (n : JsonNumber) (x : Float) : Prop where
  beq : (n.toFloat == x) = true
  integer : ∀ negative q, Binary.ofFloat x = .finite negative 0 q → n = .integer 0

namespace JsonNumber.StandsFor

variable {x : Float} {n k : JsonNumber} {negative : Bool} {m : Nat} {q : Int}

theorem zero (h : Binary.ofFloat x = .finite negative 0 q) : (JsonNumber.integer 0).StandsFor x :=
  ⟨Binary.beq_of_zeros Binary.ofFloat_ofInt_zero h, fun _ _ _ => rfl⟩

theorem of_pos (h : Binary.ofFloat x = .finite negative m q) (pos : 0 < m) (hn : n.toFloat = x) :
    n.StandsFor x := by
  refine ⟨by rw [hn]; exact Binary.beq_self (by rw [h]; rintro ⟨⟩), fun negative q hzero => ?_⟩
  cases h.symm.trans hzero
  exact absurd pos (Nat.lt_irrefl 0)

/-- No more than one double is read from what stands for a number. -/
theorem toFloat_eq (hn : n.StandsFor x) (hk : k.StandsFor x) : n.toFloat = k.toFloat := by
  rcases Binary.eq_or_zeros_of_beq hn.beq with ⟨hn', -⟩ | ⟨-, negative, q, hx⟩
  · rcases Binary.eq_or_zeros_of_beq hk.beq with ⟨hk', -⟩ | ⟨-, negative, q, hx⟩
    · exact hn'.trans hk'.symm
    · rw [hn.integer negative q hx, hk.integer negative q hx]
  · rw [hn.integer negative q hx, hk.integer negative q hx]

end JsonNumber.StandsFor

/-- The characters of a number that is not zero: its sign and its decimal. -/
theorem Layout.toList_set (layout : Layout) {x : Float} {negative : Bool} {m : Nat} {q : Int}
    (h : Binary.ofFloat x = .finite negative m q) (pos : 0 < m) :
    (layout.set x).toList =
      (if negative then ['-'] else []) ++ layout.setDecimal (shortestDecimal layout.tie m q) := by
  rw [Layout.set, h]
  dsimp only
  rw [String.toList_ofList, Layout.setFinite, if_neg pos.ne']

namespace Json

/-- What is read from a numeral that stands for a number is the number. -/
theorem exists_ofNumeral {x : Float} {negative : Bool} {m : Nat} {q : Int} {digits places : Nat}
    {e : Option Int} (h : Binary.ofFloat x = .finite negative m q) (pos : 0 < m)
    (hr : Rounding.RoundsTo (digits * 10 ^ (e.getD 0 - places)) m q) :
    ∃ n, ofNumeral negative digits places e = .number n ∧ n.toFloat = x ∧
      (places ≠ 0 ∨ e ≠ none → n = .real x) := by
  obtain ⟨hc, high⟩ := Binary.canonical_of_ofFloat h pos
  have hdigits : 0 < digits := by
    refine Nat.pos_of_ne_zero fun hzero => ?_
    have hle := hr.1.le
    have hone : (1 : ℚ) ≤ m := by exact_mod_cast pos
    rw [hzero, Nat.cast_zero, zero_mul, zero_div] at hle
    linarith
  have hreal : realNumber negative digits (e.getD 0 - places) = .number (.real x) := by
    have hx : roundDecimal negative digits (e.getD 0 - places) = x :=
      Binary.eq_of_unpack h (Rounding.unpack_roundDecimal negative hdigits hr hc high)
    rw [realNumber, hx]
    exact if_pos (Binary.isFinite_of_ofFloat h)
  unfold ofNumeral
  split
  · rename_i hinteger
    simp only [Bool.and_eq_true, beq_iff_eq, Option.isNone_iff_eq_none] at hinteger
    obtain ⟨⟨⟨rfl, rfl⟩, -⟩, -⟩ := hinteger
    refine ⟨_, rfl, Binary.eq_of_unpack h (Rounding.unpack_ofInt negative hdigits ?_ hc high),
      fun hkeeps => absurd hkeeps (by simp)⟩
    simpa using hr
  · exact ⟨_, hreal, rfl, fun _ => rfl⟩

/-- A numeral is no word, no string, no array and no object. -/
theorem readLeaf_numeral {bound : Nat} {c : Char} {cs : List Char} (h : c = '-' ∨ c.isDigit = true) :
    readLeaf bound (c :: cs) = readNumber (c :: cs) := by
  have hne {d : Char} (hd : ¬ (d = '-' ∨ d.isDigit = true)) : c ≠ d := fun heq => hd (heq ▸ h)
  unfold readLeaf
  split
  · rename_i heq
    exact absurd (List.cons.inj heq).1 (hne (by decide))
  · rename_i heq
    exact absurd (List.cons.inj heq).1 (hne (by decide))
  · rename_i heq
    exact absurd (List.cons.inj heq).1 (hne (by decide))
  · rename_i heq
    exact absurd (List.cons.inj heq).1 (hne (by decide))
  · rename_i heq
    cases heq
    exact if_pos h
  · rename_i heq
    cases heq

/-- What an unsigned numeral is read as, its sign decides. -/
theorem reads_numeral {negative : Bool} {cs : List Char} {n : JsonNumber}
    (first : ∀ c ∈ cs.head?, c.isDigit = true) (ne : cs ≠ [])
    (h : ∀ rest, Ends rest → readUnsigned negative (cs ++ rest) = .ok (.number n, rest)) :
    Reads ((if negative then ['-'] else []) ++ cs) (.number n) := by
  cases negative with
  | true =>
    refine reads_leaf rfl (by decide) (by decide) (fun _ => rfl) fun bound _ rest ends => ?_
    rw [List.cons_append, readLeaf_numeral (.inl rfl)]
    exact h rest ends
  | false =>
    obtain ⟨c, cs, rfl⟩ := List.exists_cons_of_ne_nil ne
    have hc := first c rfl
    have hne {d : Char} (hd : d.isDigit = false) : c ≠ d := by
      rintro rfl
      rw [hc] at hd
      cases hd
    refine reads_leaf ?_ (hne rfl) (hne rfl) (fun _ => rfl) fun bound _ rest ends => ?_
    · simp [isBlank, hne (d := ' ') rfl, hne (d := '\t') rfl, hne (d := '\n') rfl,
        hne (d := '\r') rfl]
    · rw [List.cons_append, readLeaf_numeral (.inr hc), readNumber]
      · exact h rest ends
      · rintro ds heq
        exact hne (d := '-') rfl (List.cons.inj heq).1

/-- The text of a number that is not zero is read as the number. -/
theorem exists_reads_set (layout : Layout) {x : Float} {negative : Bool} {m : Nat} {q : Int}
    (h : Binary.ofFloat x = .finite negative m q) (pos : 0 < m) :
    ∃ n, Reads (layout.set x).toList (.number n) ∧ n.toFloat = x ∧
      (layout.keepsPoint = true → n = .real x) := by
  obtain ⟨hdigits, hr⟩ := roundsTo_shortestDecimal layout.tie (Binary.canonical_of_ofFloat h pos).1
  generalize hd : shortestDecimal layout.tie m q = d at hdigits hr
  have htext := layout.toList_set h pos
  rw [hd] at htext
  obtain ⟨numeral⟩ := layout.exists_numeral ((Nat.toDigits 10 d.digits).length + d.exponent)
    (toDigits_ne_nil _) (isDigit_toDigits d.digits) (head?_toDigits hdigits)
  have hset : layout.setDecimal d = numeral.whole ++ (pointed numeral.places ++
    layout.raised numeral.exponent) := numeral.text_eq
  have hvalue := numeral.value_eq
  rw [digitsValue_toDigits, add_sub_cancel_left] at hvalue
  have hr : Rounding.RoundsTo (digitsValue (numeral.whole ++ numeral.places) *
      10 ^ (numeral.exponent.getD 0 - numeral.places.length)) m q := by
    rw [hvalue]
    exact hr
  obtain ⟨n, hn, hx, hkeeps⟩ := exists_ofNumeral h pos hr
  refine ⟨n, ?_, hx, fun hk => hkeeps ?_⟩
  · rw [htext, hset]
    refine reads_numeral (fun c hc => ?_) ?_ fun rest ends => ?_
    · rw [List.head?_append_of_ne_nil _ numeral.ne] at hc
      exact numeral.isDigit_whole c (List.mem_of_mem_head? hc)
    · simp [numeral.ne]
    · rw [List.append_assoc, List.append_assoc, ← hn]
      exact readUnsigned_numeral layout negative _ _ _ numeral.ne numeral.lead numeral.isDigit_whole
        numeral.isDigit_places ends
  · exact (numeral.keeps hk).imp_left fun hne => by simpa using hne

/-- **The text of a finite number in the script layout is read as a number that stands for it.** -/
theorem exists_reads_scriptText {x : Float} (h : x.isFinite = true) :
    ∃ n, Reads (scriptText x).toList (.number n) ∧ n.StandsFor x := by
  obtain ⟨negative, m, q, hx⟩ := (Binary.isFinite_eq x).mp h
  rcases Nat.eq_zero_or_pos m with rfl | pos
  · refine ⟨.integer 0, ?_, .zero hx⟩
    have htext : (scriptText x).toList = (if false then ['-'] else []) ++ ['0'] := by
      rw [scriptText, Layout.set, hx]
      dsimp only
      rw [String.toList_ofList]
      cases negative <;> rfl
    have hread : ofNumeral false (digitsValue (['0'] ++ [])) 0 none = .number (.integer 0) :=
      if_pos (by decide)
    rw [htext]
    refine reads_numeral ?_ (List.cons_ne_nil _ _) fun rest ends => ?_
    · rintro _ ⟨⟩
      rfl
    · rw [← hread]
      exact readUnsigned_numeral .script false ['0'] [] none (List.cons_ne_nil _ _) (fun _ => le_rfl)
        (by simp) (by simp) ends
  · obtain ⟨n, hreads, hn, -⟩ := exists_reads_set Layout.script hx pos
    exact ⟨n, hreads, .of_pos hx pos hn⟩

/-- **The text of a finite number in the layout of documents is read as the number.** -/
theorem reads_document {x : Float} (h : x.isFinite = true) :
    Reads (Layout.document.set x).toList (.number (.real x)) := by
  obtain ⟨negative, m, q, hx⟩ := (Binary.isFinite_eq x).mp h
  rcases Nat.eq_zero_or_pos m with rfl | pos
  · have htext : (Layout.document.set x).toList =
        (if negative then ['-'] else []) ++ ['0', '.', '0'] := by
      rw [Layout.set, hx]
      dsimp only
      rw [String.toList_ofList]
      cases negative <;> rfl
    have hread : ofNumeral negative (digitsValue (['0'] ++ ['0'])) ['0'].length none =
        .number (.real x) := by
      have hx' := Binary.roundDecimal_zero hx (Option.getD none 0 - (['0'].length : Int))
      rw [ofNumeral, if_neg (by simp), realNumber, show digitsValue (['0'] ++ ['0']) = 0 from rfl, hx']
      exact if_pos h
    rw [htext]
    refine reads_numeral ?_ (List.cons_ne_nil _ _) fun rest ends => ?_
    · rintro _ ⟨⟩
      rfl
    · rw [← hread]
      exact readUnsigned_numeral .document negative ['0'] ['0'] none (List.cons_ne_nil _ _)
        (fun _ => le_rfl) (by simp) (by simp) ends
  · obtain ⟨n, hreads, hn, hkeeps⟩ := exists_reads_set Layout.document hx pos
    rwa [hkeeps rfl] at hreads

/-- The text of an integer of sixty-four bits is read as the integer. -/
theorem reads_integerText {n : Int} (h : fitsInteger n = true) :
    Reads (integerText n).toList (.number (.integer n)) := by
  have htext : (integerText n).toList =
      (if decide (n < 0) then ['-'] else []) ++ Nat.toDigits 10 n.natAbs := by
    rw [integerText, String.toList_ofList]
    by_cases hn : n < 0
    · rw [if_pos hn, decide_eq_true hn, if_pos rfl]
    · rw [if_neg hn, decide_eq_false hn, if_neg Bool.false_ne_true]
  have hsigned : Binary.signed (decide (n < 0)) n.natAbs = n := by
    rw [Binary.signed]
    by_cases hn : n < 0
    · rw [decide_eq_true hn, if_pos rfl]
      omega
    · rw [decide_eq_false hn, if_neg Bool.false_ne_true]
      omega
  have hread : ofNumeral (decide (n < 0)) (digitsValue (Nat.toDigits 10 n.natAbs ++ [])) 0 none =
      .number (.integer n) := by
    rw [List.append_nil, digitsValue_toDigits, ofNumeral, hsigned, if_pos]
    have hzero : (decide (n < 0) && n.natAbs == 0) = false := by
      rw [Bool.and_eq_false_iff, decide_eq_false_iff_not, beq_eq_false_iff_ne]
      omega
    rw [h, hzero]
    rfl
  rw [htext]
  refine reads_numeral (fun c hc => isDigit_toDigits _ c (List.mem_of_mem_head? hc))
    (toDigits_ne_nil _) fun rest ends => ?_
  rw [← hread]
  refine readUnsigned_numeral .script (decide (n < 0)) (Nat.toDigits 10 n.natAbs) [] none
    (toDigits_ne_nil _) (fun hlead => ?_) (isDigit_toDigits _) (by simp) ends
  rcases Nat.eq_zero_or_pos n.natAbs with hzero | pos
  · rw [hzero]
    rfl
  · exact absurd hlead (head?_toDigits pos)

end Json

/-! ## Numbers in documents -/

namespace Binary

/-- The integer that a number is has its value. -/
theorem toInt?_eq_some {negative : Bool} {m : Nat} {q k : Int}
    (h : (finite negative m q).toInt? = some k) :
    ∃ n : Nat, k = signed negative n ∧ (n : ℚ) = m * 2 ^ q := by
  cases q with
  | ofNat e =>
    refine ⟨m * Nat.pow 2 e, (Option.some.inj h).symm, ?_⟩
    rw [Nat.pow_eq, Int.ofNat_eq_natCast, zpow_natCast]
    push_cast
    rfl
  | negSucc e =>
    simp only [toInt?] at h
    split at h
    · rename_i hzero
      obtain ⟨n, hn⟩ := Nat.dvd_of_mod_eq_zero hzero
      refine ⟨m / Nat.pow 2 (e + 1), (Option.some.inj h).symm, ?_⟩
      have hpos : 0 < Nat.pow 2 (e + 1) := Nat.pow_pos two_pos
      rw [hn, Nat.mul_div_cancel_left _ hpos, Nat.pow_eq, zpow_negSucc]
      push_cast
      field_simp
    · cases h

/-- The integer that a number is, is read as the number. -/
theorem ofInt_beq {x : Float} {k : Int} (h : wholeNumber? x = some k) :
    (Float.ofInt k == x) = true := by
  rw [wholeNumber?] at h
  cases hx : ofFloat x with
  | nan | infinite negative => rw [hx] at h; cases h
  | finite negative m q =>
    rw [hx] at h
    obtain ⟨n, rfl, hn⟩ := toInt?_eq_some h
    rcases Nat.eq_zero_or_pos m with rfl | pos
    · have hzero : n = 0 := by simpa using hn
      have hsigned : signed negative n = 0 := by
        rw [hzero]
        cases negative <;> rfl
      rw [hsigned]
      exact beq_of_zeros ofFloat_ofInt_zero hx
    · have hpos : 0 < n := by
        have hvalue : (0 : ℚ) < m * 2 ^ q := mul_pos (by exact_mod_cast pos) (by positivity)
        rw [← hn] at hvalue
        exact_mod_cast hvalue
      obtain ⟨hc, high⟩ := canonical_of_ofFloat hx pos
      have hr : Rounding.RoundsTo n m q := by
        rw [hn]
        exact .exact m q
      rw [eq_of_unpack hx (Rounding.unpack_ofInt negative hpos hr hc high)]
      exact beq_self (by rw [hx]; rintro ⟨⟩)

end Binary

theorem safeInteger?_zero {x : Float} {negative : Bool} {q : Int}
    (h : Binary.ofFloat x = .finite negative 0 q) : safeInteger? x = some 0 := by
  have hwhole : wholeNumber? x = some 0 := by
    rw [wholeNumber?, h]
    cases q <;> cases negative <;> simp [Binary.toInt?, Binary.signed]
  rw [safeInteger?, hwhole]
  rfl

theorem exists_numberToJson {x : Float} (h : x.isFinite = true) :
    ∃ n, numberToJson x = .number n ∧ n.StandsFor x := by
  obtain ⟨negative, m, q, hx⟩ := (Binary.isFinite_eq x).mp h
  rw [numberToJson, if_pos h]
  rcases Nat.eq_zero_or_pos m with rfl | pos
  · rw [safeInteger?_zero hx]
    exact ⟨_, rfl, .zero hx⟩
  · cases hsafe : safeInteger? x with
    | none => exact ⟨_, rfl, .of_pos hx pos rfl⟩
    | some k =>
      have hk := Binary.ofInt_beq (Option.filter_eq_some_iff.mp hsafe).1
      refine ⟨_, rfl, .of_pos hx pos ((Binary.eq_or_zeros_of_beq hk).resolve_right ?_).1⟩
      rintro ⟨-, _, _, hzero⟩
      cases hx.symm.trans hzero
      exact absurd pos (Nat.lt_irrefl 0)

theorem isFinite_ofNat {i : Nat} (h : i < Nat.pow 2 64) : (Float.ofNat i).isFinite = true := by
  change (Float.ofNat i).toModel.unpack.isFinite = true
  rcases Nat.eq_zero_or_pos i with rfl | pos
  · rw [Binary.unpack_eq, show Binary.ofFloat (Float.ofNat 0) = _ from Binary.ofFloat_ofInt_zero]
    rfl
  · obtain ⟨m, q, hc, high, hr⟩ := Rounding.exists_roundsTo pos h
    rw [Rounding.unpack_ofNat pos hr hc high]
    rfl

namespace Json

/-- Numbers that stand for one double are the same in documents. -/
theorem standsFor_number {x : Float} {n k : JsonNumber} (hn : n.StandsFor x) (hk : k.StandsFor x) :
    StandsFor (.number n) (number k) :=
  standsFor_leaf rfl rfl (Binary.beq_of_beq_of_beq hn.beq hk.beq)
    (congrArg Value.number (hn.toFloat_eq hk))

/-- **What is written for a number denotes its document.** -/
theorem denotedBy_number (x : Float) : (numberToJson x).DenotedBy (numberText x) := by
  cases h : x.isFinite with
  | true =>
    obtain ⟨n, hreads, hn⟩ := exists_reads_scriptText h
    obtain ⟨k, hk, hkx⟩ := exists_numberToJson h
    rw [hk, numberText, if_pos h]
    exact ⟨_, hreads, standsFor_number hn hkx⟩
  | false =>
    rw [numberToJson, numberText, h, if_neg Bool.false_ne_true, if_neg Bool.false_ne_true]
    exact denotedBy_null

/-- The number of a union's member. -/
theorem denotedBy_natural {i : Nat} (h : i < Nat.pow 2 64) :
    (numberToJson (Float.ofNat i)).DenotedBy (integerText i) := by
  obtain ⟨k, hk, hki⟩ := exists_numberToJson (isFinite_ofNat h)
  have hfits : fitsInteger i = true := decide_eq_true ⟨by omega, by exact_mod_cast h⟩
  have hi : (JsonNumber.integer i).StandsFor (Float.ofNat i) := by
    obtain ⟨negative, m, q, hx⟩ := (Binary.isFinite_eq _).mp (isFinite_ofNat h)
    refine ⟨Binary.beq_self (x := Float.ofNat i) (by rw [hx]; rintro ⟨⟩), fun negative q hzero => ?_⟩
    rcases Nat.eq_zero_or_pos i with rfl | pos
    · rfl
    · obtain ⟨m, q, hc, high, hr⟩ := Rounding.exists_roundsTo pos h
      have hunpack := Rounding.unpack_ofNat pos hr hc high
      rw [Binary.unpack_eq, hzero] at hunpack
      cases hunpack
  rw [hk]
  exact ⟨_, reads_integerText hfits, standsFor_number hi hki⟩

end Json

end Typeforge
