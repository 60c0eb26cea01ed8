/-
# `Typeforge.Proofs.Numbers.Rounding` — operations on numbers round to the nearest

An operation computes a mantissa that is long enough, notes what was cut off
behind it in two bits, and rounds.  A mantissa with its two bits stands for an
exact value as far as rounding is concerned, and shifting it keeps that.  So a
product, a quotient or a decimal comes to the number whose interval its exact
value lies in.

The interval of a number reaches half way to its neighbours; below a power of
two, where the neighbour is half as far away, only a quarter of the last place.
-/
import Typeforge.Proofs.Numbers.Content

namespace Typeforge

open Float.Model UnpackedFloat

namespace Rounding

/-! ## Mantissas that stand for exact values -/

/-- Whether a mantissa and its residual bits stand for a value: the bits say on which side of the
middle the value lies, and whether it lies at an end. -/
def Holds (em : ExtendedMantissa) (x : ℚ) : Prop :=
  match em.roundBit, em.stickyBit with
  | false, false => x = em.mantissa
  | false, true => em.mantissa < x ∧ x < em.mantissa + 1 / 2
  | true, false => x = em.mantissa + 1 / 2
  | true, true => em.mantissa + 1 / 2 < x ∧ x < em.mantissa + 1

/-- A value is rounded to a natural number that is nearest, to the even one of two. -/
def Nearest (x : ℚ) (m : Nat) : Prop :=
  (m - 1 / 2 < x ∧ x < m + 1 / 2) ∨ (m % 2 = 0 ∧ (x = m - 1 / 2 ∨ x = m + 1 / 2))

variable {em : ExtendedMantissa} {x r : ℚ} {m : Nat} {q : Int}

theorem Nearest.le (h : Nearest x m) : m - 1 / 2 ≤ x := by
  rcases h with ⟨h, -⟩ | ⟨-, rfl | rfl⟩ <;> linarith

theorem Nearest.ge (h : Nearest x m) : x ≤ m + 1 / 2 := by
  rcases h with ⟨-, h⟩ | ⟨-, rfl | rfl⟩ <;> linarith

theorem Nearest.self (m : Nat) : Nearest m m := .inl ⟨by linarith, by linarith⟩

theorem Holds.le (h : Holds em x) : em.mantissa ≤ x := by
  obtain ⟨m, _ | _, _ | _⟩ := em <;> simp only [Holds] at h ⊢ <;> linarith

theorem Holds.lt (h : Holds em x) : x < em.mantissa + 1 := by
  obtain ⟨m, _ | _, _ | _⟩ := em <;> simp only [Holds] at h ⊢ <;> linarith

theorem Holds.shiftRightOne (h : Holds em x) : Holds em.shiftRightOne (x / 2) := by
  obtain ⟨m, round, sticky⟩ := em
  obtain ⟨k, hk | hk⟩ : ∃ k, m = 2 * k ∨ m = 2 * k + 1 := ⟨m / 2, by omega⟩
  · have hhalf : m / 2 = k := by omega
    have hbit : (m % 2 != 0) = false := by simp [hk]
    have hm : (m : ℚ) = 2 * k := by rw [hk]; push_cast; rfl
    cases round <;> cases sticky <;>
      simp only [Holds, ExtendedMantissa.shiftRightOne, hbit, hhalf, hm, Bool.or_false,
        Bool.or_true] at h ⊢
    · linarith
    · constructor <;> linarith
    · constructor <;> linarith
    · constructor <;> linarith
  · have hhalf : m / 2 = k := by omega
    have hbit : (m % 2 != 0) = true := by simp [hk]
    have hm : (m : ℚ) = 2 * k + 1 := by rw [hk]; push_cast; rfl
    cases round <;> cases sticky <;>
      simp only [Holds, ExtendedMantissa.shiftRightOne, hbit, hhalf, hm, Bool.or_false,
        Bool.or_true] at h ⊢
    · linarith
    · constructor <;> linarith
    · constructor <;> linarith
    · constructor <;> linarith

theorem Holds.shiftRight (h : Holds em x) (n : Nat) : Holds (em >>> n) (x / 2 ^ n) := by
  induction n with
  | zero =>
    rw [pow_zero, div_one]
    exact h
  | succ n ih =>
    have hshift : em >>> (n + 1) = (em >>> n).shiftRightOne := rfl
    rw [hshift, pow_succ, ← div_div]
    exact ih.shiftRightOne

/-- The rounded mantissa is the nearest natural number. -/
theorem Holds.rounded (h : Holds em x) (hx : Nearest x m) : em.roundedMantissa = m := by
  have hle := hx.le
  have hge := hx.ge
  obtain ⟨k, round, sticky⟩ := em
  -- Of the four cases, only the middle itself is decided by parity.
  have near (j : Nat) (hlow : (m : ℚ) < j + 1) (hhigh : (j : ℚ) < m + 1) : j = m := by
    have h₁ : m < j + 1 := by exact_mod_cast hlow
    have h₂ : j < m + 1 := by exact_mod_cast hhigh
    omega
  cases round <;> cases sticky <;>
    simp only [Holds, ExtendedMantissa.roundedMantissa, ExtendedMantissa.accuracy,
      Accuracy.roundToNearestEven] at h ⊢
  · exact near k (by linarith) (by linarith)
  · exact near k (by linarith) (by linarith)
  · rcases hx with ⟨h₁, h₂⟩ | ⟨heven, rfl | rfl⟩
    · have h₁ : m < k + 1 := by exact_mod_cast (by linarith : (m : ℚ) < k + 1)
      have h₂ : k < m := by exact_mod_cast (by linarith : (k : ℚ) < m)
      omega
    · have : m = k + 1 := by exact_mod_cast (by linarith : (m : ℚ) = k + 1)
      omega
    · have : m = k := by exact_mod_cast (by linarith : (m : ℚ) = k)
      omega
  · exact near (k + 1) (by push_cast; linarith) (by push_cast; linarith)

/-! ## Rounding -/

/-- Numbers in the form in which they are stored. -/
structure Canonical (m : Nat) (q : Int) : Prop where
  pos : 0 < m
  lt : m < 2 ^ 53
  low : -1074 ≤ q
  normal : 2 ^ 52 ≤ m ∨ q = -1074

/-- Whether a positive value is rounded to the number `m · 2 ^ q`. -/
def RoundsTo (r : ℚ) (m : Nat) (q : Int) : Prop :=
  Nearest (r / 2 ^ q) m ∧ (m = 2 ^ 52 → q ≠ -1074 → (m : ℚ) - 1 / 4 ≤ r / 2 ^ q)

theorem targetExponent_eq (m : Nat) (e : Int) :
    Format.binary64.targetExponent (totalExponent m e) = max (m.log2 + e - 52) (-1074) := by
  simp only [Format.targetExponent, totalExponent, Format.mantissaBits, Format.minExponent]
  norm_num
  omega

/-- Shifting to an exponent that is no lower gives the mantissa of the value there. -/
theorem shiftToExponent_holds {mantissa : Nat} {e target : Int} {accuracy : Accuracy}
    (h : Holds (.ofMantissaAndAccuracy mantissa accuracy) (r / 2 ^ e)) (he : e ≤ target) :
    ∃ em, shiftToExponent mantissa e accuracy target = (em, target) ∧ Holds em (r / 2 ^ target) := by
  obtain ⟨n, rfl⟩ := Int.le.dest he
  have hshift : (e + n - e).toNat = n := by omega
  refine ⟨ExtendedMantissa.ofMantissaAndAccuracy mantissa accuracy >>> n, ?_, ?_⟩
  · simp only [shiftToExponent, hshift]
  · have := h.shiftRight n
    rwa [div_div, ← zpow_natCast, ← zpow_add₀ two_ne_zero] at this

/-- The exponent at which a value is rounded: that of the number, or the one below when the value
lies below a power of two. -/
theorem target_cases {mantissa : Nat} {e : Int} {em : ExtendedMantissa}
    (hmantissa : em.mantissa = mantissa) (h : Holds em (r / 2 ^ e)) (hr : RoundsTo r m q)
    (hc : Canonical m q) (he : e ≤ max (mantissa.log2 + e - 52) (-1074)) :
    max ((mantissa.log2 : Int) + e - 52) (-1074) = q ∨
      (max ((mantissa.log2 : Int) + e - 52) (-1074) = q - 1 ∧ m = 2 ^ 52 ∧ q ≠ -1074 ∧
        r / 2 ^ q < m) := by
  have hq : (0 : ℚ) < 2 ^ q := by positivity
  have hpe : (0 : ℚ) < 2 ^ e := by positivity
  have hlow := h.le
  have hhigh := h.lt
  rw [hmantissa] at hlow hhigh
  rw [le_div_iff₀ hpe] at hlow
  rw [div_lt_iff₀ hpe] at hhigh
  have hge := hr.1.le
  rw [le_div_iff₀ hq] at hge
  have hle := hr.1.ge
  rw [div_le_iff₀ hq] at hle
  have hlt := hc.lt
  have hlt' : (m : ℚ) + 1 / 2 < 2 ^ 53 := by
    have : (m : ℚ) + 1 ≤ 2 ^ 53 := by exact_mod_cast hlt
    linarith
  have hpow (k : Nat) : (2 : ℚ) ^ ((k : Int) + q) = 2 ^ k * 2 ^ q := by
    rw [zpow_add₀ two_ne_zero, zpow_natCast]
  have htop : r < 2 ^ (((53 : Nat) : Int) + q) := by
    rw [hpow]
    exact lt_of_le_of_lt hle (mul_lt_mul_of_pos_right hlt' hq)
  by_cases hzero : mantissa = 0
  · -- A value without whole digits lies below the least number, and only that is near it.
    subst hzero
    simp only [Nat.log2_zero, Nat.cast_zero, zero_add, one_mul] at he hhigh ⊢
    have hmin : e ≤ -1074 := by omega
    refine .inl ?_
    rcases hc.normal with hnormal | rfl
    · have hm : (1 : ℚ) ≤ m - 1 / 2 := by
        have : (2 : ℚ) ^ 52 ≤ m := by exact_mod_cast hnormal
        linarith
      have : (2 : ℚ) ^ q < 2 ^ e := by
        calc (2 : ℚ) ^ q = 1 * 2 ^ q := (one_mul _).symm
          _ ≤ (m - 1 / 2) * 2 ^ q := mul_le_mul_of_nonneg_right hm hq.le
          _ ≤ r := hge
          _ < 2 ^ e := hhigh
      have := (zpow_lt_zpow_iff_right₀ one_lt_two).mp this
      have := hc.low
      omega
    · omega
  · have hfloor : (2 : ℚ) ^ ((mantissa.log2 : Int) + e) ≤ r := by
      rw [zpow_add₀ two_ne_zero, zpow_natCast]
      refine le_trans (mul_le_mul_of_nonneg_right ?_ hpe.le) hlow
      exact_mod_cast Nat.log2_self_le hzero
    have hceil : r < 2 ^ ((mantissa.log2 : Int) + e + 1) := by
      have : (mantissa : ℚ) + 1 ≤ 2 ^ (mantissa.log2 + 1) := by
        exact_mod_cast Nat.lt_log2_self (n := mantissa)
      calc r < (mantissa + 1) * 2 ^ e := hhigh
        _ ≤ 2 ^ (mantissa.log2 + 1) * 2 ^ e := mul_le_mul_of_nonneg_right this hpe.le
        _ = 2 ^ ((mantissa.log2 : Int) + e + 1) := by
          rw [add_right_comm, zpow_add₀ two_ne_zero, ← zpow_natCast]
          push_cast
          rfl
    have hL := (zpow_lt_zpow_iff_right₀ (one_lt_two : (1 : ℚ) < 2)).mp (hfloor.trans_lt htop)
    rcases hc.normal with hnormal | rfl
    · by_cases hbelow : r < 2 ^ (((52 : Nat) : Int) + q)
      · have hm : m = 2 ^ 52 := by
          rw [hpow] at hbelow
          have hbelow' := lt_of_mul_lt_mul_right (hge.trans_lt hbelow) hq.le
          have : (m : ℚ) < 2 ^ 52 + 1 := by linarith
          have : m < 2 ^ 52 + 1 := by exact_mod_cast this
          omega
        have hL' := (zpow_lt_zpow_iff_right₀ (one_lt_two : (1 : ℚ) < 2)).mp (hfloor.trans_lt hbelow)
        by_cases hmin : q = -1074
        · left
          omega
        · refine .inr ⟨?_, hm, hmin, ?_⟩
          · have hquarter := hr.2 hm hmin
            rw [le_div_iff₀ hq] at hquarter
            have : (2 : ℚ) ^ (((51 : Nat) : Int) + q) ≤ r := by
              rw [hpow]
              refine le_trans (mul_le_mul_of_nonneg_right ?_ hq.le) hquarter
              rw [hm]
              norm_num
            have := (zpow_lt_zpow_iff_right₀ (one_lt_two : (1 : ℚ) < 2)).mp (this.trans_lt hceil)
            have := hc.low
            omega
          · rw [div_lt_iff₀ hq, hm]
            rw [hpow] at hbelow
            exact_mod_cast hbelow
      · have := (zpow_lt_zpow_iff_right₀ (one_lt_two : (1 : ℚ) < 2)).mp ((not_lt.mp hbelow).trans_lt hceil)
        have := hc.low
        omega
    · left
      omega

/-- A mantissa in its place is not shifted. -/
theorem shiftToTarget_canonical (hc : Canonical m q) :
    shiftToTargetExponent Format.binary64 m q .exact = (⟨m, false, false⟩, q) := by
  have hlog : m.log2 ≤ 52 := by
    have := (Nat.log2_lt hc.pos.ne').mpr hc.lt
    omega
  have htarget : max ((m.log2 : Int) + q - 52) (-1074) = q := by
    have hlow := hc.low
    rcases hc.normal with hnormal | rfl
    · have : 52 ≤ m.log2 := (Nat.le_log2 hc.pos.ne').mpr hnormal
      omega
    · omega
  simp only [shiftToTargetExponent, targetExponent_eq, htarget, shiftToExponent, sub_self,
    Int.toNat_zero]
  simp [ExtendedMantissa.ofMantissaAndAccuracy, HShiftRight.hShiftRight, Nat.repeat]

/-- **Rounding comes to the number whose interval the exact value lies in**, provided that the
mantissa is long enough. -/
theorem roundWithAccuracy_eq {mantissa : Nat} {e : Int} {accuracy : Accuracy} (s : Sign)
    (h : Holds (.ofMantissaAndAccuracy mantissa accuracy) (r / 2 ^ e)) (hr : RoundsTo r m q)
    (hc : Canonical m q) (he : e ≤ max (mantissa.log2 + e - 52) (-1074)) :
    roundWithAccuracy Format.binary64 s mantissa e accuracy = .finite s m q hc.pos := by
  have hmantissa : (ExtendedMantissa.ofMantissaAndAccuracy mantissa accuracy).mantissa =
      mantissa := by
    unfold ExtendedMantissa.ofMantissaAndAccuracy
    split <;> rfl
  obtain ⟨em, hshift, hem⟩ := shiftToExponent_holds h he
  have hfirst : shiftToTargetExponent Format.binary64 mantissa e accuracy =
      (em, max ((mantissa.log2 : Int) + e - 52) (-1074)) := by
    rw [shiftToTargetExponent, targetExponent_eq]
    exact hshift
  have hfinish {f : ExtendedMantissa × Int} (hf : f.1.mantissa = m ∧ f.2 = q) :
      (if h : f.1.mantissa = 0 then UnpackedFloat.zero s
        else .finite s f.1.mantissa f.2 (Nat.pos_of_ne_zero h)) = .finite s m q hc.pos := by
    obtain ⟨⟨m', round, sticky⟩, q'⟩ := f
    obtain ⟨rfl, rfl⟩ := hf
    exact dif_neg hc.pos.ne'
  rw [roundWithAccuracy, hfirst]
  dsimp only
  rcases target_cases hmantissa h hr hc he with htarget | ⟨htarget, hm, hmin, hbelow⟩
  · rw [htarget] at hem ⊢
    rw [hem.rounded hr.1, shiftToTarget_canonical hc]
    exact hfinish ⟨rfl, rfl⟩
  · -- The value is rounded up to the power of two, which takes one bit more.
    rw [htarget] at hem ⊢
    have hdouble : r / 2 ^ (q - 1) = 2 * (r / 2 ^ q) := by
      rw [zpow_sub_one₀ two_ne_zero]
      field_simp
    have hrounded : em.roundedMantissa = 2 ^ 53 := by
      refine hem.rounded ?_
      have hquarter := hr.2 hm hmin
      rw [hm] at hquarter hbelow
      rw [hdouble, Nearest]
      push_cast at hquarter hbelow ⊢
      rcases eq_or_lt_of_le hquarter with heq | hlt
      · refine .inr ⟨by norm_num, .inl ?_⟩
        rw [← heq]
        norm_num
      · refine .inl ⟨?_, ?_⟩ <;> linarith
    have hlog : Nat.log2 (2 ^ 53) = 53 := Nat.log2_two_pow
    have hsecond : max (((53 : Nat) : Int) + (q - 1) - 52) (-1074) = q := by
      have := hc.low
      omega
    rw [hrounded, shiftToTargetExponent, targetExponent_eq, hlog, hsecond]
    refine hfinish ⟨?_, ?_⟩
    · rw [hm]
      simp only [shiftToExponent, sub_sub_cancel]
      rfl
    · simp only [shiftToExponent, sub_sub_cancel]
      omega

end Rounding

end Typeforge
