/-
# `Typeforge.Proofs.Numbers.Shortest` — the shortest decimal names its number

The search for the shortest decimal of a number goes through finer and finer
grids and takes the first point that lies in the number's interval.  What is taken
comes back to the number when it is read.  On the last grid, of seventeen digits,
the two neighbours of the number are closer to each other than the ends of the
interval, so that one of them lies in it: the search never fails.
-/
import Typeforge.Proofs.Numbers.Decimals

namespace Typeforge

namespace Decimal

/-- The value of a decimal. -/
def value (d : Decimal) : ℚ := d.digits * 10 ^ d.exponent

theorem value_trimZeros (fuel : Nat) (d : Decimal) : (d.trimZeros fuel).value = d.value := by
  induction fuel generalizing d with
  | zero => rfl
  | succ fuel ih =>
    rw [trimZeros]
    split
    · rename_i h
      obtain ⟨k, hk⟩ := Nat.dvd_of_mod_eq_zero h.2
      have hdiv : d.digits / 10 = k := by omega
      rw [ih, value, value, hdiv, hk, zpow_add_one₀ (by norm_num)]
      push_cast
      ring
    · rfl

theorem digits_pos {d : Decimal} (h : 0 < d.value) : 0 < d.digits := by
  refine Nat.pos_of_ne_zero fun hzero => ?_
  rw [value, hzero, Nat.cast_zero, zero_mul] at h
  exact lt_irrefl _ h

end Decimal

namespace Fraction

/-- The value of a fraction. -/
def value (r : Fraction) : ℚ := r.numerator / r.denominator

theorem le_shiftToOne (r : Fraction) {fuel t k : Nat} (hk : t + fuel = k)
    (h : r.denominator ≤ r.numerator * Nat.pow 10 k) :
    r.denominator ≤ r.numerator * Nat.pow 10 (r.shiftToOne fuel t) := by
  induction fuel generalizing t with
  | zero =>
    rw [← hk] at h
    exact h
  | succ fuel ih =>
    rw [shiftToOne]
    split
    · assumption
    · exact ih (by omega)

/-- The magnitude of a fraction that is not too small is a power of ten below it. -/
theorem pow_magnitude_le {r : Fraction} (pos : 0 < r.denominator)
    (h : r.denominator ≤ r.numerator * Nat.pow 10 400) : (10 : ℚ) ^ r.magnitude ≤ r.value := by
  have hpos : (0 : ℚ) < r.denominator := by exact_mod_cast pos
  rw [magnitude, value, le_div_iff₀ hpos]
  split
  · rename_i hle
    have hquotient : 0 < r.numerator / r.denominator := Nat.div_pos hle pos
    have hwidth : 0 < Decimal.width (r.numerator / r.denominator) := Nat.length_toDigits_pos
    have hexponent : (Decimal.width (r.numerator / r.denominator) : Int) - 1 =
        (Decimal.width (r.numerator / r.denominator) - 1 : Nat) := by omega
    rw [hexponent, zpow_natCast]
    have hfloor := Nat.mul_le_mul_right r.denominator (Decimal.pow_le hquotient)
    exact_mod_cast hfloor.trans (Nat.div_mul_le_self _ _)
  · have hshift := le_shiftToOne r (Nat.zero_add 400) h
    rw [zpow_neg, zpow_natCast, inv_mul_le_iff₀ (by positivity), mul_comm]
    exact_mod_cast hshift

end Fraction

namespace Interval

variable {i : Interval}

/-- Whether a value lies in an interval. -/
def Contains (i : Interval) (x : ℚ) : Prop :=
  if i.closed then i.low * 2 ^ i.exponent ≤ x ∧ x ≤ i.high * 2 ^ i.exponent
  else i.low * 2 ^ i.exponent < x ∧ x < i.high * 2 ^ i.exponent

theorem value_units (i : Interval) (n : Nat) :
    0 < (i.units n).denominator ∧ (i.units n).value = n * 2 ^ i.exponent := by
  rw [units]
  split
  · rename_i e he
    refine ⟨Nat.one_pos, ?_⟩
    rw [he, Fraction.value]
    simp
  · rename_i e he
    refine ⟨Nat.pow_pos two_pos, ?_⟩
    rw [he, Fraction.value, zpow_negSucc, div_eq_mul_inv]
    simp

/-- Whether a point of a grid lies in an interval, all multiplied out. -/
theorem holds_iff {unit factor d : Nat} {e : Int} (pos : 0 < unit)
    (h : (factor * 10 ^ e : ℚ) = unit * 2 ^ i.exponent) :
    i.holds (i.low * factor) (i.high * factor) (d * unit) = true ↔ i.Contains (d * 10 ^ e) := by
  have hpos : (0 : ℚ) < unit := by exact_mod_cast pos
  have hten : (0 : ℚ) < 10 ^ e := by positivity
  have scale (n : Nat) : (n * 2 ^ i.exponent : ℚ) * unit = (n * factor : Nat) * 10 ^ e := by
    rw [Nat.cast_mul, mul_assoc (n : ℚ) factor, h]
    ring
  have scale' : (d * 10 ^ e : ℚ) * unit = (d * unit : Nat) * 10 ^ e := by
    push_cast
    ring
  have hle (n : Nat) : n * factor ≤ d * unit ↔ (n * 2 ^ i.exponent : ℚ) ≤ d * 10 ^ e := by
    rw [← mul_le_mul_iff_left₀ hpos, scale, scale', mul_le_mul_iff_left₀ hten, Nat.cast_le]
  have hge (n : Nat) : d * unit ≤ n * factor ↔ (d * 10 ^ e : ℚ) ≤ n * 2 ^ i.exponent := by
    rw [← mul_le_mul_iff_left₀ hpos, scale, scale', mul_le_mul_iff_left₀ hten, Nat.cast_le]
  rw [holds, Contains]
  split
  · rw [decide_eq_true_iff, hle, hge]
  · rw [decide_eq_true_iff, ← not_le, ← not_le, ← not_le, ← not_le, hle, hge]

theorem le_or_ge_of_not_contains {x : ℚ} (h : ¬ i.Contains x) :
    x ≤ i.low * 2 ^ i.exponent ∨ i.high * 2 ^ i.exponent ≤ x := by
  by_contra hinside
  obtain ⟨hlow, hhigh⟩ := not_or.mp hinside
  have hlow := not_le.mp hlow
  have hhigh := not_le.mp hhigh
  refine h ?_
  rw [Contains]
  split
  · exact ⟨hlow.le, hhigh.le⟩
  · exact ⟨hlow, hhigh⟩

end Interval

/-! ## One grid -/

section Grid

variable {tie : Tie} {i : Interval} {e : Int}

/-- What the search finds on a grid: a point of the interval, or neither of the two neighbours of
its middle lies in it. -/
theorem gridPoint?_cases (tie : Tie) (i : Interval) (e : Int) :
    (∃ d, gridPoint? tie i e = some ⟨d, e⟩ ∧ i.Contains (d * 10 ^ e)) ∨
    gridPoint? tie i e = none ∧ ∃ below : Nat, (below * 10 ^ e : ℚ) ≤ i.middle * 2 ^ i.exponent ∧
      (i.middle * 2 ^ i.exponent : ℚ) < (below + 1) * 10 ^ e ∧
      ¬ i.Contains (below * 10 ^ e) ∧ ¬ i.Contains ((below + 1 : Nat) * 10 ^ e) := by
  obtain ⟨hdenominator, hone⟩ := i.value_units 1
  obtain ⟨unit, factor, hunit, hscale, hgrid⟩ : ∃ unit factor : Nat, 0 < unit ∧
      (factor * 10 ^ e : ℚ) = unit * 2 ^ i.exponent ∧ gridPoint? tie i e =
        (let below := i.middle * factor / unit
        let twice := 2 * (i.middle * factor - below * unit)
        let belowIn := i.holds (i.low * factor) (i.high * factor) (below * unit)
        let aboveIn := i.holds (i.low * factor) (i.high * factor) ((below + 1) * unit)
        let nearerBelow := decide (twice < unit) || (twice == unit && tie.takesLower below)
        if belowIn && (nearerBelow || !aboveIn) then some ⟨below, e⟩
        else if aboveIn then some ⟨below + 1, e⟩
        else none) := by
    have hpos : ((i.units 1).denominator : ℚ) ≠ 0 := by exact_mod_cast hdenominator.ne'
    rw [Fraction.value, Nat.cast_one, one_mul, div_eq_iff hpos] at hone
    cases e with
    | ofNat n =>
      refine ⟨Nat.pow 10 n * (i.units 1).denominator, (i.units 1).numerator,
        Nat.mul_pos (Nat.pow_pos (by decide)) hdenominator, ?_, rfl⟩
      rw [Nat.pow_eq, hone]
      push_cast
      rw [Int.ofNat_eq_natCast, zpow_natCast]
      ring
    | negSucc n =>
      refine ⟨(i.units 1).denominator, (i.units 1).numerator * Nat.pow 10 (n + 1), hdenominator, ?_,
        rfl⟩
      rw [Nat.pow_eq, zpow_negSucc]
      push_cast
      rw [hone]
      field_simp
  have hpos : (0 : ℚ) < unit := by exact_mod_cast hunit
  have hten : (0 : ℚ) < 10 ^ e := by positivity
  have hmiddle : (i.middle * 2 ^ i.exponent : ℚ) * unit = (i.middle * factor : Nat) * 10 ^ e := by
    rw [Nat.cast_mul, mul_assoc (i.middle : ℚ) factor, hscale]
    ring
  have hpoint (d : Nat) : (d * 10 ^ e : ℚ) * unit = (d * unit : Nat) * 10 ^ e := by
    push_cast
    ring
  rw [hgrid]
  generalize hbelow : i.middle * factor / unit = below
  dsimp only
  cases hbelowIn : i.holds (i.low * factor) (i.high * factor) (below * unit) with
  | true =>
    cases haboveIn : i.holds (i.low * factor) (i.high * factor) ((below + 1) * unit) with
    | true =>
      refine .inl ?_
      rw [if_pos rfl]
      split
      · exact ⟨below, rfl, (Interval.holds_iff hunit hscale).mp hbelowIn⟩
      · exact ⟨below + 1, rfl, (Interval.holds_iff hunit hscale).mp haboveIn⟩
    | false =>
      refine .inl ⟨below, ?_, (Interval.holds_iff hunit hscale).mp hbelowIn⟩
      rw [Bool.not_false, Bool.or_true, Bool.and_true, if_pos rfl]
  | false =>
    rw [Bool.false_and, if_neg Bool.false_ne_true]
    cases haboveIn : i.holds (i.low * factor) (i.high * factor) ((below + 1) * unit) with
    | true => exact .inl ⟨below + 1, if_pos rfl, (Interval.holds_iff hunit hscale).mp haboveIn⟩
    | false =>
      refine .inr ⟨if_neg Bool.false_ne_true, below, ?_, ?_, ?_, ?_⟩
      · rw [← mul_le_mul_iff_left₀ hpos, hmiddle, hpoint, mul_le_mul_iff_left₀ hten, Nat.cast_le,
          ← hbelow]
        exact Nat.div_mul_le_self _ _
      · rw [← Nat.cast_succ, ← mul_lt_mul_iff_left₀ hpos, hmiddle, hpoint, mul_lt_mul_iff_left₀ hten,
          Nat.cast_lt, ← hbelow]
        exact Nat.lt_mul_of_div_lt (Nat.lt_succ_self _) hunit
      · rw [← Interval.holds_iff hunit hscale, hbelowIn]
        exact Bool.false_ne_true
      · rw [← Interval.holds_iff hunit hscale, haboveIn]
        exact Bool.false_ne_true

/-- A grid that is fine enough has a point in the interval. -/
theorem gridPoint?_isSome (tie : Tie) (low : i.low < i.middle) (high : i.middle < i.high)
    (fine : (10 ^ e : ℚ) < (i.high - i.low) * 2 ^ i.exponent) : ∃ d,
    gridPoint? tie i e = some ⟨d, e⟩ ∧ i.Contains (d * 10 ^ e) := by
  refine (gridPoint?_cases tie i e).resolve_right ?_
  rintro ⟨-, below, hbelow, habove, hnot, hnot'⟩
  have hexponent : (0 : ℚ) < 2 ^ i.exponent := by positivity
  have hlow : (i.low : ℚ) * 2 ^ i.exponent < i.middle * 2 ^ i.exponent :=
    mul_lt_mul_of_pos_right (by exact_mod_cast low) hexponent
  have hhigh : (i.middle : ℚ) * 2 ^ i.exponent < i.high * 2 ^ i.exponent :=
    mul_lt_mul_of_pos_right (by exact_mod_cast high) hexponent
  push_cast at hnot'
  -- one neighbour lies below the interval and the other above it
  have h := (Interval.le_or_ge_of_not_contains hnot).resolve_right fun h => by linarith
  have h' := (Interval.le_or_ge_of_not_contains hnot').resolve_left fun h => by linarith
  linarith

end Grid

/-! ## The search -/

theorem searchGrids_spec {tie : Tie} {i : Interval} {top : Int} (low : i.low < i.middle)
    (high : i.middle < i.high)
    (fine : (10 ^ (top - 16) : ℚ) < (i.high - i.low) * 2 ^ i.exponent) {fuel width : Nat}
    (hwidth : fuel + width = 18) (hfuel : 0 < fuel) :
    i.Contains (searchGrids tie i top fuel width).value := by
  induction fuel generalizing width with
  | zero => exact absurd hfuel (lt_irrefl 0)
  | succ fuel ih =>
    rw [searchGrids]
    cases hgrid : gridPoint? tie i (top - width + 1) with
    | some d =>
      dsimp only
      rw [Decimal.value_trimZeros]
      rcases gridPoint?_cases tie i (top - width + 1) with ⟨n, hn, hcontains⟩ | ⟨hn, -⟩
      · rw [hgrid] at hn
        cases hn
        exact hcontains
      · rw [hgrid] at hn
        cases hn
    | none =>
      dsimp only
      refine ih (by omega) ?_
      by_contra hlast
      have hexponent : top - (width : Int) + 1 = top - 16 := by omega
      rw [hexponent] at hgrid
      obtain ⟨d, hd, -⟩ := gridPoint?_isSome tie low high fine
      rw [hgrid] at hd
      cases hd

/-- The interval of a number holds what is rounded to the number. -/
theorem roundsTo_of_contains {m : Nat} {q : Int} {x : ℚ} (h : (Interval.ofBinary m q).Contains x)
    (pos : 0 < m) : Rounding.RoundsTo x m q := by
  have hq : (0 : ℚ) < 2 ^ q := by positivity
  have hquarter : (2 : ℚ) ^ (q - 2) = 2 ^ q / 4 := by
    rw [zpow_sub₀ two_ne_zero]
    norm_num
  have hvalue : x = x / 2 ^ q * 2 ^ q := (div_mul_cancel₀ _ hq.ne').symm
  generalize x / 2 ^ q = y at hvalue
  subst hvalue
  have hback : y * 2 ^ q / 2 ^ q = y := mul_div_cancel_right₀ _ hq.ne'
  have scaleLe (n : Nat) : (n * 2 ^ (q - 2) : ℚ) ≤ y * 2 ^ q ↔ (n : ℚ) / 4 ≤ y := by
    rw [hquarter, mul_div_assoc', mul_div_right_comm, mul_le_mul_iff_left₀ hq]
  have scaleGe (n : Nat) : (y * 2 ^ q : ℚ) ≤ n * 2 ^ (q - 2) ↔ y ≤ (n : ℚ) / 4 := by
    rw [hquarter, mul_div_assoc', mul_div_right_comm, mul_le_mul_iff_left₀ hq]
  rw [Interval.Contains, ← not_le, ← not_le, Interval.ofBinary] at h
  simp only [scaleLe, scaleGe, decide_eq_true_eq] at h
  rw [Rounding.RoundsTo, hback]
  have hhigh : ((4 * m + 2 : Nat) : ℚ) / 4 = m + 1 / 2 := by
    push_cast
    ring
  have hwide : ((4 * m - 2 : Nat) : ℚ) / 4 = m - 1 / 2 := by
    push_cast [show 2 ≤ 4 * m by omega]
    ring
  by_cases hnarrow : m = Nat.pow 2 52 ∧ q ≠ -1074
  · have heven : m % 2 = 0 := by
      rw [hnarrow.1]
    have hlow : ((4 * m - 1 : Nat) : ℚ) / 4 = m - 1 / 4 := by
      push_cast [show 1 ≤ 4 * m by omega]
      ring
    rw [if_pos heven, if_pos hnarrow, hlow, hhigh] at h
    refine ⟨?_, fun _ _ => h.1⟩
    rcases h.2.lt_or_eq with hlt | heq
    · exact .inl ⟨by linarith, hlt⟩
    · exact .inr ⟨heven, .inr heq⟩
  · rw [if_neg hnarrow, hwide, hhigh] at h
    refine ⟨?_, fun hm hq => absurd ⟨hm, hq⟩ hnarrow⟩
    by_cases heven : m % 2 = 0
    · rw [if_pos heven] at h
      rcases h.1.lt_or_eq with hlt | heq
      · rcases h.2.lt_or_eq with hlt' | heq'
        · exact .inl ⟨hlt, hlt'⟩
        · exact .inr ⟨heven, .inr heq'⟩
      · exact .inr ⟨heven, .inl heq.symm⟩
    · rw [if_neg heven, not_le, not_le] at h
      exact .inl h

/-- **The shortest decimal of a number is rounded to the number.** -/
theorem roundsTo_shortestDecimal {m : Nat} {q : Int} (tie : Tie) (hc : Rounding.Canonical m q) :
    0 < (shortestDecimal tie m q).digits ∧
      Rounding.RoundsTo (shortestDecimal tie m q).value m q := by
  have hq : (0 : ℚ) < 2 ^ q := by positivity
  have hquarter : (2 : ℚ) ^ (q - 2) = 2 ^ q / 4 := by
    rw [zpow_sub₀ two_ne_zero]
    norm_num
  have hpos := hc.pos
  have hlow : (Interval.ofBinary m q).low < (Interval.ofBinary m q).middle := by
    simp only [Interval.ofBinary]
    split <;> omega
  have hhigh : (Interval.ofBinary m q).middle < (Interval.ofBinary m q).high := by
    simp only [Interval.ofBinary]
    omega
  obtain ⟨hdenominator, hvalue⟩ :=
    (Interval.ofBinary m q).value_units (Interval.ofBinary m q).middle
  have hmiddle : ((Interval.ofBinary m q).units (Interval.ofBinary m q).middle).value =
      m * 2 ^ q := by
    rw [hvalue]
    simp only [Interval.ofBinary]
    rw [hquarter]
    push_cast
    ring
  -- the number is not so small that its magnitude would not be found
  have hleast : (10 : ℚ) ^ (-400 : Int) ≤ m * 2 ^ q := by
    calc (10 : ℚ) ^ (-400 : Int) ≤ 2 ^ (-1200 : Int) := by
          rw [zpow_neg, zpow_neg]
          exact inv_anti₀ (by positivity) Rounding.two_pow_le
      _ ≤ 2 ^ q := zpow_le_zpow_right₀ one_le_two (by have := hc.low; omega)
      _ ≤ m * 2 ^ q := le_mul_of_one_le_left hq.le (by exact_mod_cast hpos)
  generalize hr : (Interval.ofBinary m q).units (Interval.ofBinary m q).middle = r at *
  have hmagnitude : (10 : ℚ) ^ r.magnitude ≤ m * 2 ^ q := by
    rw [← hmiddle]
    refine Fraction.pow_magnitude_le hdenominator ?_
    rw [← hmiddle, Fraction.value, le_div_iff₀ (by exact_mod_cast hdenominator), zpow_neg,
      inv_mul_le_iff₀ (by positivity), mul_comm] at hleast
    exact_mod_cast hleast
  have hfine : (10 ^ (r.magnitude - 16) : ℚ) <
      ((Interval.ofBinary m q).high - (Interval.ofBinary m q).low) * 2 ^ (q - 2) := by
    have hgrid : (10 ^ (r.magnitude - 16) : ℚ) ≤ m * 2 ^ q / 10 ^ 16 := by
      rw [zpow_sub₀ (by norm_num)]
      exact div_le_div_of_nonneg_right hmagnitude (by norm_num)
    refine hgrid.trans_lt ?_
    have hlt : (m : ℚ) < 2 ^ 53 := by exact_mod_cast hc.lt
    rw [hquarter, mul_div_right_comm, mul_div_assoc', mul_div_right_comm]
    refine mul_lt_mul_of_pos_right ?_ hq
    simp only [Interval.ofBinary]
    split
    · rename_i hnarrow
      have hm : m = 2 ^ 52 := (of_decide_eq_true hnarrow).1
      rw [hm]
      norm_num
    · have hwidth : ((4 * m + 2 : Nat) : ℚ) - (4 * m - 2 : Nat) = 4 := by
        push_cast [show 2 ≤ 4 * m by omega]
        ring
      rw [hwidth]
      exact (div_lt_iff₀ (by norm_num)).mpr (hlt.trans_le (by norm_num))
  have hcontains : (Interval.ofBinary m q).Contains
      (searchGrids tie (Interval.ofBinary m q) r.magnitude 17 1).value :=
    searchGrids_spec hlow hhigh hfine rfl (by decide)
  have hshortest : shortestDecimal tie m q =
      searchGrids tie (Interval.ofBinary m q) r.magnitude 17 1 := by
    rw [shortestDecimal, hr]
  rw [← hshortest] at hcontains
  have hrounds := roundsTo_of_contains hcontains hpos
  refine ⟨Decimal.digits_pos ?_, hrounds⟩
  have hone : (1 : ℚ) ≤ m := by exact_mod_cast hpos
  have hbelow := hrounds.1.le
  rw [le_div_iff₀ hq] at hbelow
  exact lt_of_lt_of_le (mul_pos (by linarith) hq) hbelow

end Typeforge
