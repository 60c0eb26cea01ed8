/-
# `Typeforge.Proofs.Numbers.Decimals` — a decimal becomes the nearest number

Decimals are read in two ways: small ones by one multiplication or division of
two numbers that are exact, all others by exact arithmetic.  Both come to the
number whose interval the decimal lies in.
-/
import Typeforge.Number.Reading
import Typeforge.Proofs.Numbers.Rounding

namespace Typeforge

open Float.Model UnpackedFloat

namespace Decimal

theorem width_le_iff {n k : Nat} (hk : 0 < k) : width n ≤ k ↔ n < 10 ^ k :=
  Nat.length_toDigits_le_iff (by decide) hk

theorem lt_pow_width (n : Nat) : n < 10 ^ width n :=
  (width_le_iff Nat.length_toDigits_pos).mp le_rfl

theorem pow_le {n : Nat} (pos : 0 < n) : 10 ^ (width n - 1) ≤ n := by
  rcases Nat.eq_zero_or_pos (width n - 1) with hzero | hpos
  · rw [hzero, pow_zero]
    exact pos
  · refine not_lt.mp fun hlt => ?_
    have := (width_le_iff hpos).mpr hlt
    omega

theorem width_le_log2 (n : Nat) : width n ≤ n.log2 + 1 := by
  refine (width_le_iff (Nat.succ_pos _)).mpr (Nat.lt_log2_self.trans_le ?_)
  exact Nat.pow_le_pow_left (by decide) _

end Decimal

namespace Rounding

variable {r : ℚ} {m : Nat} {q : Int}

/-! ## Products and quotients -/

theorem mul_eq (s₁ s₂ : Sign) {m₁ m₂ : Nat} {e₁ e₂ : Int} (h₁ : 0 < m₁) (h₂ : 0 < m₂)
    (hr : RoundsTo (m₁ * 2 ^ e₁ * (m₂ * 2 ^ e₂)) m q) (hc : Canonical m q)
    (long : 2 ^ 52 ≤ m₁ * m₂) :
    UnpackedFloat.mul Format.binary64 (.finite s₁ m₁ e₁ h₁) (.finite s₂ m₂ e₂ h₂) =
      .finite (s₁ * s₂) m q hc.pos := by
  refine roundWithAccuracy_eq (s₁ * s₂) ?_ hr hc ?_
  · change _ = ((m₁ * m₂ : Nat) : ℚ)
    have he₁ : (2 : ℚ) ^ e₁ ≠ 0 := by positivity
    have he₂ : (2 : ℚ) ^ e₂ ≠ 0 := by positivity
    rw [zpow_add₀ two_ne_zero]
    push_cast
    field_simp
  · have : 52 ≤ (m₁ * m₂).log2 := (Nat.le_log2 (by positivity)).mpr long
    omega

theorem holds_fraction (n : Nat) {d : Nat} (hd : 0 < d) :
    Holds (.ofMantissaAndAccuracy (n / d) (accuracyOfFraction (n % d) d)) ((n : ℚ) / d) := by
  have hd' : (0 : ℚ) < d := by exact_mod_cast hd
  have hn : (n : ℚ) = (n / d : Nat) * d + (n % d : Nat) := by
    exact_mod_cast (Nat.div_add_mod' n d).symm
  have hlt : ((n % d : Nat) : ℚ) < d := by exact_mod_cast Nat.mod_lt n hd
  generalize n / d = k at hn ⊢
  generalize n % d = rem at hn hlt ⊢
  have hvalue : (n : ℚ) / d = k + rem / d := by
    rw [hn]
    field_simp
  rw [hvalue]
  unfold accuracyOfFraction
  by_cases hzero : rem = 0
  · rw [if_pos hzero, hzero]
    change (k : ℚ) + (0 : Nat) / d = k
    simp
  · have hpos : (0 : ℚ) < rem := by exact_mod_cast Nat.pos_of_ne_zero hzero
    have hone : (rem : ℚ) / d < 1 := (div_lt_one hd').mpr hlt
    have hpart : (0 : ℚ) < rem / d := div_pos hpos hd'
    rw [if_neg hzero]
    rcases hcompare : compare (2 * rem) d with _ | _ | _
    · have : ((2 * rem : Nat) : ℚ) < d := by exact_mod_cast Nat.compare_eq_lt.mp hcompare
      have : (rem : ℚ) / d < 1 / 2 := by
        rw [div_lt_div_iff₀ hd' two_pos]
        push_cast at this
        linarith
      change (k : ℚ) < _ ∧ _ < (k : ℚ) + 1 / 2
      exact ⟨by linarith, by linarith⟩
    · have : ((2 * rem : Nat) : ℚ) = d := by exact_mod_cast Nat.compare_eq_eq.mp hcompare
      have : (rem : ℚ) / d = 1 / 2 := by
        rw [div_eq_div_iff hd'.ne' two_ne_zero]
        push_cast at this
        linarith
      change (k : ℚ) + rem / d = k + 1 / 2
      rw [this]
    · have : (d : ℚ) < (2 * rem : Nat) := by exact_mod_cast Nat.compare_eq_gt.mp hcompare
      have : 1 / 2 < (rem : ℚ) / d := by
        rw [div_lt_div_iff₀ two_pos hd']
        push_cast at this
        linarith
      change (k : ℚ) + 1 / 2 < _ ∧ _ < (k : ℚ) + 1
      exact ⟨by linarith, by linarith⟩

theorem div_eq (s₁ s₂ : Sign) {m₁ m₂ : Nat} {e₁ e₂ : Int} (h₁ : 0 < m₁) (h₂ : 0 < m₂)
    (hr : RoundsTo (m₁ * 2 ^ e₁ / (m₂ * 2 ^ e₂)) m q) (hc : Canonical m q) :
    UnpackedFloat.div Format.binary64 (.finite s₁ m₁ e₁ h₁) (.finite s₂ m₂ e₂ h₂) =
      .finite (s₁ / s₂) m q hc.pos := by
  have htarget : Format.binary64.targetExponent (totalExponent m₁ e₁ - totalExponent m₂ e₂) =
      max ((m₁.log2 : Int) + e₁ - (m₂.log2 + e₂) - 53) (-1074) := by
    simp only [Format.targetExponent, totalExponent, Format.mantissaBits, Format.minExponent]
    norm_num
    omega
  unfold UnpackedFloat.div divCore
  simp only [htarget]
  generalize ht : min (e₁ - e₂) (max ((m₁.log2 : Int) + e₁ - (m₂.log2 + e₂) - 53) (-1074)) = t
  obtain ⟨n, hn⟩ := Int.le.dest (show t ≤ e₁ - e₂ by omega)
  have hshift : (e₁ - e₂ - t).toNat = n := by omega
  rw [hshift, Nat.shiftLeft_eq]
  refine roundWithAccuracy_eq (s₁ / s₂) ?_ hr hc ?_
  · have hvalue : (m₁ * 2 ^ e₁ / (m₂ * 2 ^ e₂) : ℚ) / 2 ^ t = ((m₁ * 2 ^ n : Nat) : ℚ) / m₂ := by
      have he : e₁ = t + n + e₂ := by omega
      have h₂' : (m₂ : ℚ) ≠ 0 := by exact_mod_cast h₂.ne'
      rw [he, zpow_add₀ two_ne_zero, zpow_add₀ two_ne_zero, zpow_natCast]
      push_cast
      field_simp
    rw [hvalue]
    exact holds_fraction _ h₂
  · -- The quotient has as many digits as are rounded, unless it is below the least number.
    by_cases hmin : t ≤ -1074
    · omega
    · have hlong : 2 ^ 52 ≤ m₁ * 2 ^ n / m₂ := by
        rw [Nat.le_div_iff_mul_le h₂]
        have hlow : 2 ^ m₁.log2 ≤ m₁ := Nat.log2_self_le h₁.ne'
        have hhigh : m₂ < 2 ^ (m₂.log2 + 1) := Nat.lt_log2_self
        calc 2 ^ 52 * m₂ ≤ 2 ^ 52 * 2 ^ (m₂.log2 + 1) := Nat.mul_le_mul_left _ hhigh.le
          _ = 2 ^ (52 + (m₂.log2 + 1)) := (pow_add ..).symm
          _ ≤ 2 ^ (m₁.log2 + n) := Nat.pow_le_pow_right two_pos (by omega)
          _ = 2 ^ m₁.log2 * 2 ^ n := pow_add ..
          _ ≤ m₁ * 2 ^ n := Nat.mul_le_mul_right _ hlow
      have : 52 ≤ (m₁ * 2 ^ n / m₂).log2 := (Nat.le_log2 (by omega)).mpr hlong
      omega

/-! ## Packing -/

theorem unpack_pack (s : Sign) (hc : Canonical m q) (high : q ≤ 971) :
    (Float.Model.pack (.finite s m q hc.pos)).unpack = .finite s m q hc.pos := by
  have hlow := hc.low
  have hlt := hc.lt
  have hsign (e : BitVec 11) (f : BitVec 52) :
      Sign.ofBitVec (@unpackSign Format.binary64 (packComponents Format.binary64 s e f)) = s := by
    rw [unpackSign_packComponents]
    cases s <;> rfl
  change UnpackedFloat.unpack Format.binary64 (UnpackedFloat.pack Format.binary64 _) = _
  unfold UnpackedFloat.pack
  dsimp only
  have hbiased : (q + (Format.binary64.exponentBias : Int) +
      (Format.binary64.mantissaBitsWithoutImplicit : Int)).toNat = (q + 1075).toNat := by
    simp only [Format.exponentBias]
    norm_num
    omega
  rw [hbiased, if_neg (by norm_num; omega)]
  by_cases hnormal : 2 ^ 52 ≤ m
  · have hlog : m.log2 = 52 := (Nat.log2_eq_iff hc.pos.ne').mpr ⟨hnormal, hlt⟩
    rw [if_pos (by rw [hlog]; rfl)]
    have hexponent : (BitVec.ofNat 11 (q + 1075).toNat).toNat = (q + 1075).toNat := by
      rw [BitVec.toNat_ofNat]
      omega
    unfold UnpackedFloat.unpack
    simp only [unpackExponent_packComponents, unpackMantissa_packComponents, hsign]
    rw [if_neg, if_neg]
    · congr 1
      · rw [Binary.toNat_implicit, BitVec.toNat_ofNat]
        omega
      · rw [hexponent]
        simp only [Format.exponentBias]
        norm_num
        omega
    · intro h
      have := congrArg BitVec.toNat h
      rw [hexponent] at this
      simp at this
      omega
    · intro h
      have := congrArg BitVec.toNat h
      rw [hexponent] at this
      simp at this
      omega
  · obtain rfl : q = -1074 := hc.normal.resolve_left hnormal
    have hlog : m.log2 + 1 ≠ Format.binary64.mantissaBits := by
      have := (Nat.log2_lt hc.pos.ne').mpr (not_le.mp hnormal)
      simp only [Format.mantissaBits]
      omega
    rw [if_neg hlog]
    have hmantissa : (BitVec.ofNat 52 m).toNat = m := by
      rw [BitVec.toNat_ofNat]
      omega
    unfold UnpackedFloat.unpack
    simp only [unpackExponent_packComponents, unpackMantissa_packComponents, hsign]
    rw [if_neg (by decide), if_pos trivial, dif_neg]
    · congr 1
    · intro h
      have := congrArg BitVec.toNat h
      rw [hmantissa] at this
      have := hc.pos
      simp at *
      omega

theorem RoundsTo.exact (m : Nat) (q : Int) : RoundsTo (m * 2 ^ q) m q := by
  have hvalue : (m * 2 ^ q : ℚ) / 2 ^ q = m := by field_simp
  rw [RoundsTo, hvalue]
  exact ⟨.self m, fun _ _ => by linarith⟩

/-! ## Integers -/

/-- A natural number that is short enough is a number. -/
theorem exists_canonical {n : Nat} (pos : 0 < n) (lt : n < 2 ^ 53) :
    ∃ m q, Canonical m q ∧ 2 ^ 52 ≤ m ∧ q ≤ 0 ∧ (m * 2 ^ q : ℚ) = n := by
  have hlog : n.log2 ≤ 52 := by
    have := (Nat.log2_lt pos.ne').mpr lt
    omega
  have hlow : 2 ^ n.log2 ≤ n := Nat.log2_self_le pos.ne'
  have hhigh : n < 2 ^ (n.log2 + 1) := Nat.lt_log2_self
  have hlong : 2 ^ 52 ≤ n * 2 ^ (52 - n.log2) := by
    calc 2 ^ 52 = 2 ^ n.log2 * 2 ^ (52 - n.log2) := by rw [← pow_add]; congr 1; omega
      _ ≤ n * 2 ^ (52 - n.log2) := Nat.mul_le_mul_right _ hlow
  have hshort : n * 2 ^ (52 - n.log2) < 2 ^ 53 := by
    calc n * 2 ^ (52 - n.log2) < 2 ^ (n.log2 + 1) * 2 ^ (52 - n.log2) :=
        Nat.mul_lt_mul_of_pos_right hhigh (by positivity)
      _ = 2 ^ 53 := by rw [← pow_add]; congr 1; omega
  refine ⟨n * 2 ^ (52 - n.log2), -((52 - n.log2 : Nat) : Int),
    ⟨by positivity, hshort, by omega, .inl hlong⟩, hlong, by omega, ?_⟩
  rw [zpow_neg, zpow_natCast]
  push_cast
  field_simp

/-- A natural number of a machine word is rounded to some number. -/
theorem exists_roundsTo {n : Nat} (pos : 0 < n) (lt : n < 2 ^ 64) :
    ∃ m q, Canonical m q ∧ q ≤ 971 ∧ RoundsTo n m q := by
  by_cases hshort : n < 2 ^ 53
  · obtain ⟨m, q, hc, -, hq, hvalue⟩ := exists_canonical pos hshort
    refine ⟨m, q, hc, by omega, ?_⟩
    rw [← hvalue]
    exact .exact m q
  · have hlog : 53 ≤ n.log2 := (Nat.le_log2 pos.ne').mpr (not_lt.mp hshort)
    have hlog' : n.log2 < 64 := (Nat.log2_lt pos.ne').mpr lt
    obtain ⟨k, hk⟩ := Nat.exists_eq_add_of_le hlog
    have hlow : 2 ^ 52 * 2 ^ (k + 1) ≤ n := by
      rw [← pow_add, show 52 + (k + 1) = n.log2 by omega]
      exact Nat.log2_self_le pos.ne'
    have hhigh : n < 2 ^ 53 * 2 ^ (k + 1) := by
      rw [← pow_add, show 53 + (k + 1) = n.log2 + 1 by omega]
      exact Nat.lt_log2_self
    generalize hd : 2 ^ (k + 1) = d at hlow hhigh
    have hdpos : 0 < d := hd ▸ Nat.pow_pos two_pos
    have hpower : (2 : ℚ) ^ ((k + 1 : Nat) : Int) = d := by
      rw [zpow_natCast, ← hd]
      push_cast
      rfl
    -- the value in the last place, as a floor and a remainder
    have hdiv := Nat.div_add_mod' n d
    have hrem := Nat.mod_lt n hdpos
    generalize n / d = m at hdiv
    generalize n % d = rem at hdiv hrem
    have hm : 2 ^ 52 ≤ m := by
      by_contra h
      have : m + 1 ≤ 2 ^ 52 := by omega
      have := Nat.mul_le_mul_right d this
      rw [Nat.succ_mul] at this
      omega
    have hm' : m < 2 ^ 53 := by
      by_contra h
      have := Nat.mul_le_mul_right d (not_lt.mp h)
      omega
    have hvalue : (n : ℚ) / 2 ^ ((k + 1 : Nat) : Int) = m + rem / d := by
      have hd' : (d : ℚ) ≠ 0 := by exact_mod_cast hdpos.ne'
      rw [hpower, ← hdiv]
      push_cast
      field_simp
    have hd' : (0 : ℚ) < d := by exact_mod_cast hdpos
    have hf : (0 : ℚ) ≤ rem / d := div_nonneg (by positivity) hd'.le
    have hf' : (rem : ℚ) / d < 1 := (div_lt_one hd').mpr (by exact_mod_cast hrem)
    have half {s : ℚ} (hs : s = 2 * rem) : (rem : ℚ) / d = s / d * (1 / 2) := by
      rw [hs]
      ring
    have hless (h : 2 * rem < d) : (rem : ℚ) / d < 1 / 2 := by
      have : (2 * rem : ℚ) / d < 1 := (div_lt_one hd').mpr (by exact_mod_cast h)
      linarith [half rfl]
    have hmore (h : d < 2 * rem) : 1 / 2 < (rem : ℚ) / d := by
      have : 1 < (2 * rem : ℚ) / d := (one_lt_div hd').mpr (by exact_mod_cast h)
      linarith [half rfl]
    have htie (h : 2 * rem = d) : (rem : ℚ) / d = 1 / 2 := by
      have : (2 * rem : ℚ) / d = 1 := (div_eq_one_iff_eq hd'.ne').mpr (by exact_mod_cast h)
      linarith [half rfl]
    by_cases hdown : 2 * rem < d ∨ (2 * rem = d ∧ m % 2 = 0)
    · refine ⟨m, (k + 1 : Nat), ⟨by omega, hm', by omega, .inl hm⟩, by omega, ?_⟩
      rw [RoundsTo, hvalue]
      refine ⟨?_, fun _ _ => by linarith⟩
      rcases hdown with hlt | ⟨heq, heven⟩
      · exact .inl ⟨by linarith, by linarith [hless hlt]⟩
      · exact .inr ⟨heven, .inr (by rw [htie heq])⟩
    · have hup : 1 / 2 ≤ (rem : ℚ) / d := by
        rcases lt_or_eq_of_le (not_lt.mp fun h => hdown (.inl h)) with hlt | heq
        · exact (hmore hlt).le
        · exact (htie heq.symm).ge
      by_cases hcarry : m + 1 < 2 ^ 53
      · refine ⟨m + 1, (k + 1 : Nat), ⟨by omega, hcarry, by omega, .inl (by omega)⟩, by omega, ?_⟩
        rw [RoundsTo, hvalue]
        refine ⟨?_, fun h => by omega⟩
        have hsucc : ((m + 1 : Nat) : ℚ) = m + 1 := Nat.cast_succ m
        rcases hup.lt_or_eq with hlt | heq
        · exact .inl ⟨by linarith, by linarith⟩
        · have hodd : ¬ m % 2 = 0 := fun heven => by
            refine hdown (.inr ⟨?_, heven⟩)
            have : (2 * rem : ℚ) / d = 1 := by linarith [half rfl]
            exact_mod_cast (div_eq_one_iff_eq hd'.ne').mp this
          exact .inr ⟨by omega, .inl (by linarith)⟩
      · -- the carry makes a power of two
        have hlast : (m : ℚ) = 2 ^ 53 - 1 := by
          have : m + 1 = 2 ^ 53 := by omega
          have : ((m + 1 : Nat) : ℚ) = 2 ^ 53 := by exact_mod_cast this
          push_cast at this
          linarith
        have hvalue' : (n : ℚ) / 2 ^ ((k + 2 : Nat) : Int) = (m + rem / d) / 2 := by
          rw [← hvalue, show ((k + 2 : Nat) : Int) = (k + 1 : Nat) + 1 by omega,
            zpow_add_one₀ two_ne_zero, div_mul_eq_div_div]
        refine ⟨2 ^ 52, (k + 2 : Nat), ⟨by norm_num, by norm_num, by omega, .inl le_rfl⟩, by omega, ?_⟩
        have hpow : ((2 ^ 52 : Nat) : ℚ) = 2 ^ 52 := by norm_num
        rw [RoundsTo, hvalue', hlast]
        exact ⟨.inl ⟨by linarith, by linarith⟩, fun _ _ => by linarith⟩

/-- An integer in its place is rounded as its value is. -/
theorem round_eq {mantissa : Nat} {e : Int} (s : Sign) (pos : 0 < mantissa)
    (hr : RoundsTo (mantissa * 2 ^ e) m q) (hc : Canonical m q) :
    UnpackedFloat.round Format.binary64 s mantissa e = .finite s m q hc.pos := by
  unfold UnpackedFloat.round decreaseExponent
  simp only [targetExponent_eq]
  generalize hk : (e - max ((mantissa.log2 : Int) + e - 52) (-1074)).toNat = k
  have hlog : (mantissa <<< k).log2 = mantissa.log2 + k := by
    rw [Nat.shiftLeft_eq, Nat.log2_eq_iff (by positivity), pow_succ, pow_add]
    have hlow : 2 ^ mantissa.log2 ≤ mantissa := Nat.log2_self_le pos.ne'
    have hhigh : mantissa < 2 ^ mantissa.log2 * 2 := by
      rw [← pow_succ]
      exact Nat.lt_log2_self
    refine ⟨Nat.mul_le_mul_right _ hlow, ?_⟩
    calc mantissa * 2 ^ k < 2 ^ mantissa.log2 * 2 * 2 ^ k :=
        Nat.mul_lt_mul_of_pos_right hhigh (by positivity)
      _ = 2 ^ mantissa.log2 * 2 ^ k * 2 := by ring
  refine roundWithAccuracy_eq s ?_ hr hc (by rw [hlog]; omega)
  change (mantissa * 2 ^ e / 2 ^ (e - k) : ℚ) = ((mantissa <<< k : Nat) : ℚ)
  rw [Nat.shiftLeft_eq, zpow_sub₀ two_ne_zero, zpow_natCast]
  push_cast
  field_simp

/-- The number of a small integer is the integer. -/
theorem exists_unpack_toFloat {n : Nat} (pos : 0 < n) (lt : n < 2 ^ 53) :
    ∃ (m : Nat) (q : Int) (hm : 0 < m), 2 ^ 52 ≤ m ∧ (m * 2 ^ q : ℚ) = n ∧
      n.toUInt64.toFloat.toModel.unpack = .finite .positive m q hm := by
  obtain ⟨m, q, hc, hlong, hq, hvalue⟩ := exists_canonical pos lt
  refine ⟨m, q, hc.pos, hlong, hvalue, ?_⟩
  have hr : RoundsTo (n * 2 ^ (0 : Int)) m q := by
    rw [zpow_zero, mul_one, ← hvalue]
    exact .exact m q
  have hn : ((n.toUInt64.toNat : Nat) : Int) = n := by
    rw [UInt64.toNat_ofNat', Nat.mod_eq_of_lt (by omega)]
  have hround : UnpackedFloat.ofUInt64 Format.binary64 n.toUInt64 = .finite .positive m q hc.pos := by
    have hcompare : compare (n : Int) 0 = .gt := Int.compare_eq_gt.mpr (by omega)
    rw [UnpackedFloat.ofUInt64, UnpackedFloat.ofNat, UnpackedFloat.ofInt, hn, UnpackedFloat.normalize, hcompare]
    exact round_eq .positive pos hr hc
  change (Float.Model.pack (UnpackedFloat.ofUInt64 Format.binary64 n.toUInt64)).unpack = _
  rw [hround]
  exact unpack_pack _ hc (by omega)

/-! ## Decimals -/

/-- Whether an entry of the table of powers of ten is the power of its index. -/
def isPowerOfTen (i : Nat) (x : Float) : Bool :=
  match Binary.ofFloat x with
  | .finite false m (.ofNat e) => decide (2 ^ 52 ≤ m ∧ m * 2 ^ e = 10 ^ i)
  | .finite false m (.negSucc e) => decide (2 ^ 52 ≤ m ∧ m = 10 ^ i * 2 ^ (e + 1))
  | _ => false

/-- The powers of ten that are numbers. -/
theorem isPowerOfTen_table : ∀ i : Fin Float.exactlyRepresentablePowersOfTen.size,
    isPowerOfTen i Float.exactlyRepresentablePowersOfTen[i] = true := by
  decide +kernel

theorem unpack_of_isPowerOfTen {i : Nat} {x : Float} (h : isPowerOfTen i x = true) :
    ∃ (m : Nat) (q : Int) (hm : 0 < m), 2 ^ 52 ≤ m ∧ (m * 2 ^ q : ℚ) = 10 ^ i ∧
      x.toModel.unpack = .finite .positive m q hm := by
  unfold isPowerOfTen at h
  split at h
  · rename_i m e hx
    obtain ⟨hlong, hvalue⟩ := of_decide_eq_true h
    refine ⟨m, e, by omega, hlong, ?_, ?_⟩
    · rw [zpow_natCast]
      exact_mod_cast hvalue
    · rw [Binary.unpack_eq, hx, Binary.unpacked, dif_neg (by omega)]
      rfl
  · rename_i m e hx
    obtain ⟨hlong, hvalue⟩ := of_decide_eq_true h
    refine ⟨m, Int.negSucc e, by omega, hlong, ?_, ?_⟩
    · rw [zpow_negSucc, hvalue]
      push_cast
      field_simp
    · rw [Binary.unpack_eq, hx, Binary.unpacked, dif_neg (by omega)]
      rfl
  · cases h

/-- The exponent of a decimal whose sign is given apart. -/
def exponentOf (fraction : Bool) (e : Nat) : Int := if fraction then -(e : Int) else e

/-- A short decimal with a small exponent is the product or quotient of two numbers. -/
theorem unpack_ofScientific_short {digits e : Nat} {fraction : Bool} (pos : 0 < digits)
    (h : digits < 2 ^ 53 ∧ e ≤ 22) (hr : RoundsTo (digits * 10 ^ exponentOf fraction e) m q)
    (hc : Canonical m q) (high : q ≤ 971) :
    (Float.ofScientific digits fraction e).toModel.unpack = .finite .positive m q hc.pos := by
  obtain ⟨m₁, q₁, h₁, long₁, value₁, unpack₁⟩ := exists_unpack_toFloat pos h.1
  have hlt : e < Float.exactlyRepresentablePowersOfTen.size := Nat.lt_succ_of_le h.2
  obtain ⟨m₂, q₂, h₂, long₂, value₂, unpack₂⟩ :=
    unpack_of_isPowerOfTen (isPowerOfTen_table ⟨e, hlt⟩)
  simp only [Fin.getElem_fin] at value₂ unpack₂
  rw [Float.ofScientific, dif_pos h]
  cases fraction with
  | true =>
    have hvalue : (digits * 10 ^ exponentOf true e : ℚ) = m₁ * 2 ^ q₁ / (m₂ * 2 ^ q₂) := by
      rw [value₁, value₂, exponentOf, if_pos rfl, zpow_neg, zpow_natCast, div_eq_mul_inv]
    have hdiv := div_eq .positive .positive h₁ h₂ (hvalue ▸ hr) hc
    change (Float.Model.pack (UnpackedFloat.div Format.binary64 digits.toUInt64.toFloat.toModel.unpack
      (Float.exactlyRepresentablePowersOfTen[e]).toModel.unpack)).unpack = _
    rw [unpack₁, unpack₂, hdiv]
    exact unpack_pack _ hc high
  | false =>
    have hvalue : (digits * 10 ^ exponentOf false e : ℚ) = m₁ * 2 ^ q₁ * (m₂ * 2 ^ q₂) := by
      rw [value₁, value₂, exponentOf, if_neg Bool.false_ne_true, zpow_natCast]
    have hmul := mul_eq .positive .positive h₁ h₂ (hvalue ▸ hr) hc
      (long₁.trans (Nat.le_mul_of_pos_right _ h₂))
    change (Float.Model.pack (UnpackedFloat.mul Format.binary64 digits.toUInt64.toFloat.toModel.unpack
      (Float.exactlyRepresentablePowersOfTen[e]).toModel.unpack)).unpack = _
    rw [unpack₁, unpack₂, hmul]
    exact unpack_pack _ hc high

/-- Other decimals are computed exactly, and rounded once. -/
theorem ofScientific_eq {digits : Nat} {e : Int} (pos : 0 < digits) (below : e ≤ 2048)
    (above : -(2048 + digits.log2 : Int) ≤ e) (hr : RoundsTo (digits * 10 ^ e) m q)
    (hc : Canonical m q) :
    UnpackedFloat.ofScientific Format.binary64 digits e = .finite .positive m q hc.pos := by
  unfold UnpackedFloat.ofScientific
  have hexponent : ((2 : Int) ^ Format.binary64.exponentBits) = 2048 := rfl
  rw [dif_neg pos.ne', hexponent, if_neg (by omega), if_neg (by omega)]
  split
  · rename_i hnonneg
    obtain ⟨n, rfl⟩ := Int.eq_ofNat_of_zero_le hnonneg
    refine mul_eq .positive .positive _ _ ?_ hc ?_
    · have hvalue : (digits * 10 ^ (n : Int) : ℚ) =
          (digits <<< Format.binary64.mantissaBits : Nat) * 2 ^ (-(Format.binary64.mantissaBits : Int)) *
            ((10 ^ (n : Int).toNat : Nat) * 2 ^ (0 : Int)) := by
        rw [Nat.shiftLeft_eq, Int.toNat_natCast, zpow_neg, zpow_natCast, zpow_natCast, zpow_zero]
        push_cast
        field_simp
      rwa [← hvalue]
    · rw [Nat.shiftLeft_eq]
      calc 2 ^ 52 ≤ 1 * 2 ^ Format.binary64.mantissaBits * 1 := by decide
        _ ≤ digits * 2 ^ Format.binary64.mantissaBits * 10 ^ (n : Int).toNat :=
          Nat.mul_le_mul (Nat.mul_le_mul_right _ pos) (Nat.one_le_pow _ _ (by decide))
  · rename_i hneg
    obtain ⟨n, rfl⟩ := Int.exists_eq_neg_ofNat (by omega : e ≤ 0)
    refine div_eq .positive .positive _ _ ?_ hc
    have hvalue : (digits * 10 ^ (-(n : Int)) : ℚ) =
        digits * 2 ^ (0 : Int) / ((10 ^ (- -(n : Int)).toNat : Nat) * 2 ^ (0 : Int)) := by
      rw [neg_neg, Int.toNat_natCast, zpow_neg, zpow_natCast, zpow_zero]
      push_cast
      field_simp
    rwa [← hvalue]

/-- **A decimal comes to the number whose interval it lies in.** -/
theorem unpack_ofScientific {digits e : Nat} {fraction : Bool} (pos : 0 < digits)
    (below : exponentOf fraction e ≤ 2048)
    (above : -(2048 + digits.log2 : Int) ≤ exponentOf fraction e)
    (hr : RoundsTo (digits * 10 ^ exponentOf fraction e) m q) (hc : Canonical m q)
    (high : q ≤ 971) :
    (Float.ofScientific digits fraction e).toModel.unpack = .finite .positive m q hc.pos := by
  by_cases h : digits < 2 ^ 53 ∧ e ≤ 22
  · exact unpack_ofScientific_short pos h hr hc high
  · have hexponent : (if fraction = true then Int.negOfNat e else Int.ofNat e) =
        exponentOf fraction e := by
      rw [exponentOf, Int.negOfNat_eq]
      rfl
    rw [Float.ofScientific, dif_neg h, hexponent]
    change (Float.Model.pack (UnpackedFloat.ofScientific Format.binary64 _ _)).unpack = _
    rw [ofScientific_eq pos below above hr hc]
    exact unpack_pack _ hc high

/-! ## The range of numbers -/

theorem two_pow_le : (2 : ℚ) ^ (1200 : Int) ≤ 10 ^ (400 : Int) := by
  calc (2 : ℚ) ^ (1200 : Int) = (2 ^ (3 : Int)) ^ (400 : Int) := by
        rw [← zpow_mul]
        rfl
    _ ≤ 10 ^ (400 : Int) := zpow_le_zpow_left₀ (by norm_num) (by positivity) (by norm_num)

/-- A decimal that is near a number is in the range of numbers. -/
theorem range_of_roundsTo {digits : Nat} {e : Int} (pos : 0 < digits)
    (hr : RoundsTo (digits * 10 ^ e) m q) (hc : Canonical m q) (high : q ≤ 971) :
    -400 ≤ (Decimal.width digits : Int) + e ∧ (Decimal.width digits : Int) + e ≤ 400 := by
  have hq : (0 : ℚ) < 2 ^ q := by positivity
  have ten : (1 : ℚ) < 10 := by norm_num
  have hwidth := Nat.length_toDigits_pos (b := 10) (n := digits)
  have hlow := hr.1.le
  have hhigh := hr.1.ge
  rw [le_div_iff₀ hq] at hlow
  rw [div_le_iff₀ hq] at hhigh
  have hm : (1 : ℚ) ≤ m := by exact_mod_cast hc.pos
  have hm' : (m : ℚ) + 1 ≤ 2 ^ 53 := by exact_mod_cast hc.lt
  constructor
  · have hbelow : (digits * 10 ^ e : ℚ) < 10 ^ ((Decimal.width digits : Int) + e) := by
      rw [zpow_add₀ (by norm_num), zpow_natCast]
      refine mul_lt_mul_of_pos_right ?_ (by positivity)
      exact_mod_cast Decimal.lt_pow_width digits
    have hleast : (10 : ℚ) ^ (-400 : Int) ≤ digits * 10 ^ e := by
      calc (10 : ℚ) ^ (-400 : Int) ≤ 2 ^ (-1200 : Int) := by
            rw [zpow_neg, zpow_neg]
            exact inv_anti₀ (by positivity) two_pow_le
        _ ≤ 2 ^ (-1 + -1074 : Int) := zpow_le_zpow_right₀ one_le_two (by decide)
        _ = 1 / 2 * 2 ^ (-1074 : Int) := by
            rw [zpow_add₀ two_ne_zero, zpow_neg_one, one_div]
        _ ≤ (m - 1 / 2) * 2 ^ q := by
          refine mul_le_mul (by linarith) ?_ (by positivity) (by linarith)
          exact zpow_le_zpow_right₀ one_le_two hc.low
        _ ≤ digits * 10 ^ e := hlow
    have := (zpow_lt_zpow_iff_right₀ ten).mp (hleast.trans_lt hbelow)
    omega
  · have habove : (10 : ℚ) ^ ((Decimal.width digits - 1 : Nat) + e : Int) ≤ digits * 10 ^ e := by
      rw [zpow_add₀ (by norm_num), zpow_natCast]
      refine mul_le_mul_of_nonneg_right ?_ (by positivity)
      exact_mod_cast Decimal.pow_le pos
    have hmost : (digits * 10 ^ e : ℚ) < 10 ^ (400 : Int) := by
      calc (digits * 10 ^ e : ℚ) ≤ (m + 1 / 2) * 2 ^ q := hhigh
        _ ≤ 2 ^ 53 * 2 ^ (971 : Int) := by
          refine mul_le_mul (by linarith) ?_ (by positivity) (by positivity)
          exact zpow_le_zpow_right₀ one_le_two high
        _ = 2 ^ (53 + 971 : Int) := by
          rw [zpow_add₀ two_ne_zero]
          rfl
        _ < 2 ^ (1200 : Int) := zpow_lt_zpow_right₀ one_lt_two (by decide)
        _ ≤ 10 ^ (400 : Int) := two_pow_le
    have := (zpow_lt_zpow_iff_right₀ ten).mp (habove.trans_lt hmost)
    rw [Decimal.width] at *
    omega

/-- A number with its sign turned. -/
theorem unpack_neg {x : Float} {s : Sign} (hc : Canonical m q) (high : q ≤ 971)
    (h : x.toModel.unpack = .finite s m q hc.pos) :
    (-x).toModel.unpack = .finite (-s) m q hc.pos := by
  change (Float.Model.pack x.toModel.unpack.neg).unpack = _
  rw [h]
  exact unpack_pack _ hc high

/-- **A decimal is read as the number whose interval it lies in.** -/
theorem unpack_roundDecimal {digits : Nat} {e : Int} (negative : Bool) (pos : 0 < digits)
    (hr : RoundsTo (digits * 10 ^ e) m q) (hc : Canonical m q) (high : q ≤ 971) :
    (roundDecimal negative digits e).toModel.unpack =
      .finite (Binary.sign negative) m q hc.pos := by
  obtain ⟨hlow, hhigh⟩ := range_of_roundsTo pos hr hc high
  have hwidth : 0 < Decimal.width digits := Nat.length_toDigits_pos
  have hlog := Decimal.width_le_log2 digits
  have hexponent : exponentOf (decide (e < 0)) e.natAbs = e := by
    unfold exponentOf
    by_cases h : e < 0
    · rw [decide_eq_true h, if_pos rfl]
      omega
    · rw [decide_eq_false h, if_neg Bool.false_ne_true]
      omega
  have hmagnitude : (Float.ofScientific digits (decide (e < 0)) e.natAbs).toModel.unpack =
      .finite .positive m q hc.pos := by
    refine unpack_ofScientific pos ?_ ?_ ?_ hc high
    · rw [hexponent]
      omega
    · rw [hexponent]
      omega
    · rwa [hexponent]
  have hsmall : ¬ (digits = 0 ∨ (Decimal.width digits : Int) + e < -400) := by omega
  have hlarge : ¬ (400 < (Decimal.width digits : Int) + e) := by omega
  simp only [roundDecimal, hsmall, hlarge, if_false]
  cases negative with
  | true => exact unpack_neg hc high hmagnitude
  | false => exact hmagnitude

/-! ## Integers as numbers -/

theorem unpack_ofNat {n : Nat} (pos : 0 < n) (hr : RoundsTo n m q) (hc : Canonical m q)
    (high : q ≤ 971) : (Float.ofNat n).toModel.unpack = .finite .positive m q hc.pos := by
  have hexponent : exponentOf false 0 = 0 := rfl
  refine unpack_ofScientific pos (by omega) (by omega) ?_ hc high
  rwa [hexponent, zpow_zero, mul_one]

theorem unpack_ofInt {n : Nat} (negative : Bool) (pos : 0 < n) (hr : RoundsTo n m q)
    (hc : Canonical m q) (high : q ≤ 971) :
    (Float.ofInt (Binary.signed negative n)).toModel.unpack =
      .finite (Binary.sign negative) m q hc.pos := by
  have hnat := unpack_ofNat pos hr hc high
  cases negative with
  | false => exact hnat
  | true =>
    obtain ⟨n, rfl⟩ := Nat.exists_eq_add_one_of_ne_zero pos.ne'
    exact unpack_neg hc high hnat

end Rounding

end Typeforge
