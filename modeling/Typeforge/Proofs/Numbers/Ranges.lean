/-
# `Typeforge.Proofs.Numbers.Ranges` — operations on small numbers do not overflow

Whether a result is finite is a matter of its magnitude alone, and of that only
the place of the first bit counts.  Differences and products add a bit or the
bits of both operands, rounding adds one at most, and what stays below the
last place of all is packed as a finite number.
-/
import Typeforge.Proofs.Numbers.Decimals

namespace Typeforge

open Float.Model UnpackedFloat

namespace Rounding

variable {b c : Int} {u v : UnpackedFloat}

/-! ## Magnitudes -/

/-- Whether a number is finite and its first bit stands no higher than a place. -/
def Limited (b : Int) : UnpackedFloat → Prop
  | .zero _ => True
  | .finite _ m e _ => m.log2 + e ≤ b
  | .infinity _ | .notANumber => False

theorem Limited.mono (h : Limited b u) (hbc : b ≤ c) : Limited c u := by
  cases u with
  | zero s => trivial
  | finite s m e pos => exact le_trans h hbc
  | infinity s | notANumber => exact h

theorem Limited.isFinite (h : Limited b u) : u.isFinite = true := by
  cases u with
  | zero s | finite s m e pos => rfl
  | infinity s | notANumber => cases h

theorem log2_le_of_lt {n k : Nat} (h : n < 2 ^ (k + 1)) : n.log2 ≤ k := by
  rcases Nat.eq_zero_or_pos n with rfl | pos
  · rw [Nat.log2_zero]
    exact Nat.zero_le k
  · exact Nat.le_of_lt_succ ((Nat.log2_lt pos.ne').mpr h)

theorem log2_succ_le (n : Nat) : (n + 1).log2 ≤ n.log2 + 1 := by
  refine log2_le_of_lt ?_
  have : n < 2 ^ (n.log2 + 1) := Nat.lt_log2_self
  rw [pow_succ]
  have : 0 < 2 ^ (n.log2 + 1) := by positivity
  omega

theorem log2_mono {m n : Nat} (h : m ≤ n) : m.log2 ≤ n.log2 :=
  log2_le_of_lt (lt_of_le_of_lt h Nat.lt_log2_self)

theorem log2_div_le (n k : Nat) : (n / 2 ^ k).log2 ≤ n.log2 - k := by
  refine log2_le_of_lt (Nat.div_lt_of_lt_mul (lt_of_lt_of_le Nat.lt_log2_self ?_))
  rw [← pow_add]
  exact Nat.pow_le_pow_right two_pos (by omega)

theorem log2_shiftLeft_le (n k : Nat) : (n <<< k).log2 ≤ n.log2 + k := by
  refine log2_le_of_lt ?_
  rw [Nat.shiftLeft_eq, Nat.add_right_comm, pow_add]
  exact Nat.mul_lt_mul_of_pos_right Nat.lt_log2_self (by positivity)

/-! ## Rounding -/

theorem mantissa_shiftRight (em : ExtendedMantissa) (k : Nat) :
    (em >>> k).mantissa = em.mantissa / 2 ^ k := by
  change (Nat.repeat ExtendedMantissa.shiftRightOne k em).mantissa = _
  induction k with
  | zero => rw [pow_zero, Nat.div_one]; rfl
  | succ k ih =>
    change (Nat.repeat ExtendedMantissa.shiftRightOne k em).mantissa / 2 = _
    rw [ih, Nat.div_div_eq_div_mul, pow_succ]

theorem roundedMantissa_le (em : ExtendedMantissa) : em.roundedMantissa ≤ em.mantissa + 1 := by
  obtain ⟨m, _ | _, _ | _⟩ := em <;>
    simp only [ExtendedMantissa.roundedMantissa, ExtendedMantissa.accuracy,
      Accuracy.roundToNearestEven] <;> omega

theorem mantissa_ofMantissaAndAccuracy (m : Nat) (accuracy : Accuracy) :
    (ExtendedMantissa.ofMantissaAndAccuracy m accuracy).mantissa = m := by
  unfold ExtendedMantissa.ofMantissaAndAccuracy
  split <;> rfl

/-- Rounding moves the first bit up by one place at most. -/
theorem limited_roundWithAccuracy (s : Sign) {m : Nat} {e : Int} (accuracy : Accuracy)
    (h : m.log2 + e ≤ b) (low : -1074 ≤ b) :
    Limited (b + 1) (roundWithAccuracy Format.binary64 s m e accuracy) := by
  rw [roundWithAccuracy]
  generalize hfirst : shiftToTargetExponent Format.binary64 m e accuracy = first
  have hm₁ : first.1.mantissa = m / 2 ^ (first.2 - e).toNat ∧
      first.2 = max e (max (m.log2 + e - 52) (-1074)) := by
    rw [← hfirst, shiftToTargetExponent, targetExponent_eq, shiftToExponent]
    dsimp only
    rw [mantissa_shiftRight, mantissa_ofMantissaAndAccuracy]
    exact ⟨by congr 2; omega, by omega⟩
  obtain ⟨em, e₁⟩ := first
  obtain ⟨hm₁, he₁⟩ := hm₁
  dsimp only at hm₁ he₁ ⊢
  have hrounded : (em.roundedMantissa.log2 : Int) + e₁ ≤ b + 1 := by
    have hle : em.roundedMantissa.log2 ≤ em.mantissa.log2 + 1 :=
      (log2_mono (roundedMantissa_le em)).trans (log2_succ_le _)
    have hshifted : em.mantissa.log2 ≤ m.log2 - (e₁ - e).toNat := hm₁ ▸ log2_div_le m _
    have hsmall : m.log2 < (e₁ - e).toNat → em.roundedMantissa.log2 = 0 := fun hlt => by
      have hzero : em.mantissa = 0 := by
        rw [hm₁]
        exact Nat.div_eq_of_lt (lt_of_lt_of_le Nat.lt_log2_self
          (Nat.pow_le_pow_right two_pos hlt))
      have := roundedMantissa_le em
      rw [hzero] at this
      exact Nat.le_zero.mp (log2_le_of_lt (k := 0) (by omega))
    by_cases hlt : m.log2 < (e₁ - e).toNat
    · rw [hsmall hlt]
      omega
    · omega
  generalize em.roundedMantissa = r at hrounded
  rw [shiftToTargetExponent, targetExponent_eq, shiftToExponent]
  generalize (max ((r.log2 : Int) + e₁ - 52) (-1074) - e₁).toNat = k
  dsimp only
  rw [mantissa_shiftRight, mantissa_ofMantissaAndAccuracy]
  split
  · trivial
  · rename_i hne
    change ((r / 2 ^ k).log2 : Int) + (e₁ + k) ≤ b + 1
    have hk : k ≤ r.log2 := by
      by_contra hk
      exact hne (Nat.div_eq_of_lt (lt_of_lt_of_le Nat.lt_log2_self
        (Nat.pow_le_pow_right two_pos (by omega))))
    have := log2_div_le r k
    omega

theorem limited_round (s : Sign) {m : Nat} {e : Int} (h : m.log2 + e ≤ b)
    (low : -1074 ≤ b) : Limited (b + 1) (UnpackedFloat.round Format.binary64 s m e) := by
  rw [UnpackedFloat.round, decreaseExponent]
  generalize (e - Format.binary64.targetExponent (totalExponent m e)).toNat = k
  refine limited_roundWithAccuracy s .exact ?_ low
  have := log2_shiftLeft_le m k
  omega

/-! ## Operations -/

theorem Limited.mul (hu : Limited b u) (hv : Limited c v) (low : -1075 ≤ b + c) :
    Limited (b + c + 2) (u.mul Format.binary64 v) := by
  cases u with
  | infinity s | notANumber => cases hu
  | zero s =>
    cases v with
    | infinity t | notANumber => cases hv
    | zero t | finite t n f pos' => trivial
  | finite s m e pos =>
    cases v with
    | infinity t | notANumber => cases hv
    | zero t => trivial
    | finite t n f pos' =>
      have hlog : (m * n).log2 ≤ m.log2 + n.log2 + 1 := by
        refine log2_le_of_lt ?_
        calc m * n < 2 ^ (m.log2 + 1) * 2 ^ (n.log2 + 1) :=
            Nat.mul_lt_mul'' Nat.lt_log2_self Nat.lt_log2_self
          _ = 2 ^ (m.log2 + n.log2 + 1 + 1) := by rw [← pow_add]; congr 1; omega
      simp only [Limited] at hu hv
      have := limited_roundWithAccuracy (b := b + c + 1) (s * t) (m := m * n) (e := e + f) .exact
        (by omega) (by omega)
      rwa [add_assoc] at this

/-- Two mantissas at a common exponent. -/
theorem natAbs_sub_lt (s t : Sign) {m n k : Nat} (hm : m < 2 ^ k) (hn : n < 2 ^ k) :
    (s.apply (m : Int) - t.apply (n : Int)).natAbs < 2 ^ (k + 1) := by
  rw [pow_succ]
  cases s <;> cases t <;> simp only [Sign.apply] <;> omega

theorem Limited.sub (hu : Limited b u) (hv : Limited b v) (low : -1075 ≤ b) :
    Limited (b + 2) (u.sub Format.binary64 v) := by
  cases u with
  | infinity s | notANumber => cases hu
  | zero s =>
    cases v with
    | infinity t | notANumber => cases hv
    | zero t => cases s <;> cases t <;> trivial
    | finite t n f pos' => exact hv.mono (by omega)
  | finite s m e pos =>
    cases v with
    | infinity t | notANumber => cases hv
    | zero t => exact hu.mono (by omega)
    | finite t n f pos' =>
      simp only [Limited] at hu hv
      rw [UnpackedFloat.sub]
      simp only [decreaseExponent]
      have shifted {k : Nat} {g : Int} (hk : k.log2 + g ≤ b) (hmin : min e f ≤ g) :
          k <<< (g - min e f).toNat < 2 ^ ((b - min e f).toNat + 1) := by
        have := log2_shiftLeft_le k (g - min e f).toNat
        exact lt_of_lt_of_le Nat.lt_log2_self (Nat.pow_le_pow_right two_pos (by omega))
      have hlt := natAbs_sub_lt s t (shifted hu (by omega)) (shifted hv (by omega))
      generalize s.apply (↑(m <<< (e - min e f).toNat) : Int) -
        t.apply (↑(n <<< (f - min e f).toNat) : Int) = d at hlt ⊢
      have hb : min e f ≤ b := by omega
      generalize min e f = g at hlt hb ⊢
      have rounded (w : Sign) {k : Nat} (hk : k = d.natAbs) :
          Limited (b + 2) (UnpackedFloat.round Format.binary64 w k g) := by
        have := limited_round (b := b + 1) w (m := k) (e := g) (by
          have := log2_le_of_lt (hk ▸ hlt)
          omega) (by omega)
        rwa [add_assoc] at this
      rw [UnpackedFloat.normalize]
      rcases lt_trichotomy d 0 with hd | rfl | hd
      · rw [Int.compare_eq_lt.mpr hd]
        exact rounded .negative (by omega)
      · trivial
      · rw [Int.compare_eq_gt.mpr hd]
        exact rounded .positive (by omega)

/-- A quotient is bounded by the first bit of its denominator. -/
theorem Limited.div {t : Sign} {n : Nat} {f : Int} {pos : 0 < n} (hu : Limited b u)
    (hc : c ≤ n.log2 + f) (low : -1074 ≤ b - c) :
    Limited (b - c + 1) (u.div Format.binary64 (.finite t n f pos)) := by
  cases u with
  | infinity s | notANumber => cases hu
  | zero s => trivial
  | finite s m e pos' =>
    simp only [Limited] at hu
    have htarget : Format.binary64.targetExponent (totalExponent m e - totalExponent n f) =
        max ((m.log2 : Int) + e - (n.log2 + f) - 53) (-1074) := by
      simp only [Format.targetExponent, totalExponent, Format.mantissaBits, Format.minExponent]
      norm_num
      omega
    rw [UnpackedFloat.div, divCore]
    simp only [htarget]
    generalize hg : min (e - f) (max ((m.log2 : Int) + e - (n.log2 + f) - 53) (-1074)) = g
    generalize hk : (e - f - g).toNat = k
    refine limited_roundWithAccuracy (s / t) _ ?_ low
    have hshift := log2_shiftLeft_le m k
    have hlog : (m <<< k / n).log2 ≤ m.log2 + k - n.log2 := by
      refine log2_le_of_lt (Nat.div_lt_of_lt_mul ?_)
      calc m <<< k < 2 ^ ((m <<< k).log2 + 1) := Nat.lt_log2_self
        _ ≤ 2 ^ (n.log2 + (m.log2 + k - n.log2 + 1)) := Nat.pow_le_pow_right two_pos (by omega)
        _ = 2 ^ n.log2 * 2 ^ (m.log2 + k - n.log2 + 1) := pow_add ..
        _ ≤ n * 2 ^ (m.log2 + k - n.log2 + 1) :=
            Nat.mul_le_mul_right _ (Nat.log2_self_le pos.ne')
    omega

/-! ## Packing -/

/-- What packed bits say, by their exponent. -/
theorem limited_unpack_packComponents (s : Sign) (e : BitVec 11) (f : BitVec 52)
    (he : e.toNat < 2047) (h : (e.toNat : Int) - 1023 ≤ b) (low : -1022 ≤ b) :
    Limited b (UnpackedFloat.unpack Format.binary64 (packComponents Format.binary64 s e f)) := by
  unfold UnpackedFloat.unpack
  simp only [unpackExponent_packComponents, unpackMantissa_packComponents]
  have hones : e ≠ -1#11 := by
    rintro rfl
    exact absurd he (by decide)
  rw [if_neg hones]
  split
  · rename_i hzero
    split
    · trivial
    · have hlog : f.toNat.log2 ≤ 51 := log2_le_of_lt f.isLt
      simp only [Limited, hzero, Format.exponentBias]
      norm_num
      omega
  · have hlog : (1#1 ++ f).toNat.log2 ≤ 52 := log2_le_of_lt (1#1 ++ f).isLt
    simp only [Limited, Format.exponentBias]
    norm_num at hlog ⊢
    omega

/-- What is packed below the last place of all comes out with its first bit no higher. -/
theorem Limited.unpack_pack (h : Limited b u) (low : -1022 ≤ b) (high : b ≤ 971) :
    Limited b (Float.Model.pack u).unpack := by
  change Limited b (UnpackedFloat.unpack Format.binary64 (UnpackedFloat.pack Format.binary64 u))
  cases u with
  | infinity s | notANumber => cases h
  | zero s => exact limited_unpack_packComponents s 0 0 (by decide) (by norm_num; omega) low
  | finite s m e pos =>
    simp only [Limited] at h
    unfold UnpackedFloat.pack
    dsimp only
    have hbiased : (e + (Format.binary64.exponentBias : Int) +
        (Format.binary64.mantissaBitsWithoutImplicit : Int)).toNat = (e + 1075).toNat := by
      simp only [Format.exponentBias]
      norm_num
      omega
    rw [hbiased, if_neg (by norm_num; omega)]
    split
    · rename_i hlog
      have hlog : m.log2 = 52 := by
        simp only [Format.mantissaBits] at hlog
        omega
      have he : (BitVec.ofNat 11 (e + 1075).toNat).toNat = (e + 1075).toNat := by
        rw [BitVec.toNat_ofNat]
        omega
      exact limited_unpack_packComponents s _ _ (by rw [he]; omega) (by rw [he]; omega) low
    · exact limited_unpack_packComponents s 0 _ (by decide) (by norm_num; omega) low

/-! ## Numbers in range -/

theorem Limited.sub_float {x y : Float} (hx : Limited b x.toModel.unpack)
    (hy : Limited b y.toModel.unpack) (low : -1024 ≤ b) (high : b ≤ 969) :
    Limited (b + 2) (x - y).toModel.unpack :=
  (hx.sub hy (by omega)).unpack_pack (by omega) (by omega)

theorem Limited.mul_float {x y : Float} (hx : Limited b x.toModel.unpack)
    (hy : Limited c y.toModel.unpack) (low : -1024 ≤ b + c) (high : b + c ≤ 969) :
    Limited (b + c + 2) (x * y).toModel.unpack :=
  (hx.mul hy (by omega)).unpack_pack (by omega) (by omega)

/-- A word as a number. -/
theorem limited_toFloat (w : UInt64) : Limited 64 w.toFloat.toModel.unpack := by
  change Limited 64 (Float.Model.pack (UnpackedFloat.ofUInt64 Format.binary64 w)).unpack
  refine Limited.unpack_pack ?_ (by decide) (by decide)
  rw [UnpackedFloat.ofUInt64, UnpackedFloat.ofNat, UnpackedFloat.ofInt, UnpackedFloat.normalize]
  have hlog : w.toNat.log2 ≤ 63 := log2_le_of_lt w.toNat_lt
  rcases Nat.eq_zero_or_pos w.toNat with hzero | pos
  · rw [hzero]
    trivial
  · rw [Int.compare_eq_gt.mpr (by omega), Int.toNat_natCast]
    exact limited_round (b := 63) .positive (by omega) (by decide)

theorem Limited.div_float {x y : Float} {t : Sign} {n : Nat} {f : Int} {pos : 0 < n}
    (hx : Limited b x.toModel.unpack) (hy : y.toModel.unpack = .finite t n f pos)
    (hc : c ≤ n.log2 + f) (low : -1023 ≤ b - c) (high : b - c ≤ 970) :
    Limited (b - c + 1) (x / y).toModel.unpack := by
  change Limited _ (Float.Model.pack (UnpackedFloat.div Format.binary64 _ y.toModel.unpack)).unpack
  rw [hy]
  exact (hx.div hc (by omega)).unpack_pack (by omega) (by omega)

/-- A number by its content. -/
theorem unpack_of_ofFloat {x : Float} {negative : Bool} {m : Nat} {e : Int}
    (h : Binary.ofFloat x = .finite negative m e) (pos : 0 < m) :
    x.toModel.unpack = .finite (Binary.sign negative) m e pos := by
  rw [Binary.unpack_eq, h, Binary.unpacked, dif_neg pos.ne']

theorem limited_of_ofFloat {x : Float} {negative : Bool} {m : Nat} {e : Int}
    (h : Binary.ofFloat x = .finite negative m e) (pos : 0 < m) (hb : m.log2 + e ≤ b) :
    Limited b x.toModel.unpack := by
  rw [unpack_of_ofFloat h pos]
  exact hb

theorem isFinite_of_limited {x : Float} (h : Limited b x.toModel.unpack) : x.isFinite = true :=
  h.isFinite

/-- The number of an integer of a machine word. -/
theorem isFinite_ofInt {k : Int} (h : k.natAbs < 2 ^ 64) : (Float.ofInt k).isFinite = true := by
  rcases Nat.eq_zero_or_pos k.natAbs with hzero | pos
  · obtain rfl := Int.natAbs_eq_zero.mp hzero
    decide +kernel
  · obtain ⟨m, q, hc, high, hr⟩ := exists_roundsTo pos h
    have hsigned : Binary.signed (decide (k < 0)) k.natAbs = k := by
      unfold Binary.signed
      split <;> rename_i hk <;> simp only [decide_eq_true_eq] at hk <;> omega
    have hunpack := unpack_ofInt (decide (k < 0)) pos hr hc high
    rw [hsigned] at hunpack
    change (Float.ofInt k).toModel.unpack.isFinite = true
    rw [hunpack]
    rfl

end Rounding

end Typeforge
