/-
# `Typeforge.Proofs.Numbers.Content` — the exact content of a number, and comparison

The library decides everything about a number on its exact binary content; the
operations on numbers are defined by unpacking their bits.  The two readings of
the sixty-four bits agree, so that comparison is comparison of contents.
-/
import Mathlib
import Typeforge.Number.Layout

namespace Typeforge

open Float.Model UnpackedFloat

namespace Binary

def sign (negative : Bool) : Sign := if negative then .negative else .positive

/-- The content in the form in which operations on numbers take it. -/
def unpacked : Binary → UnpackedFloat
  | nan => .notANumber
  | infinite negative => .infinity (sign negative)
  | finite negative m e =>
    if h : m = 0 then .zero (sign negative)
    else .finite (sign negative) m e (Nat.pos_of_ne_zero h)

theorem toNat_unpackExponent (b : BitVec 64) :
    (@unpackExponent Format.binary64 b).toNat = b.toNat / 2 ^ 52 % 2 ^ 11 := by
  simp [unpackExponent, Nat.shiftRight_eq_div_pow]

theorem toNat_unpackMantissa (b : BitVec 64) :
    (@unpackMantissa Format.binary64 b).toNat = b.toNat % 2 ^ 52 := by
  simp [unpackMantissa]

theorem toNat_unpackSign (b : BitVec 64) :
    (@unpackSign Format.binary64 b).toNat = b.toNat / 2 ^ 63 := by
  have := b.isLt
  simp only [unpackSign, BitVec.toNat_cast, BitVec.extractLsb_toNat, Nat.shiftRight_eq_div_pow]
  omega

theorem ofBitVec_unpackSign (b : BitVec 64) :
    Sign.ofBitVec (@unpackSign Format.binary64 b) = sign (decide (2 ^ 63 ≤ b.toNat)) := by
  have hlt := b.isLt
  have hsign := toNat_unpackSign b
  unfold Sign.ofBitVec sign
  by_cases h : 2 ^ 63 ≤ b.toNat
  · have hne : @unpackSign Format.binary64 b ≠ 0#1 := by
      intro h0
      rw [h0, BitVec.toNat_ofNat] at hsign
      omega
    rw [if_neg hne, decide_eq_true h, if_pos rfl]
  · have heq : @unpackSign Format.binary64 b = 0#1 := by
      apply BitVec.eq_of_toNat_eq
      rw [hsign, BitVec.toNat_ofNat]
      omega
    rw [if_pos heq, decide_eq_false h, if_neg Bool.false_ne_true]

/-- The implicit bit of a normal number stands above its fraction. -/
theorem toNat_implicit (m : BitVec 52) : (1#1 ++ m).toNat = m.toNat + 2 ^ 52 := by
  rw [BitVec.toNat_append, Nat.shiftLeft_eq, Nat.or_comm, BitVec.toNat_ofNat, Nat.one_mod,
    Nat.one_mul, Nat.or_two_pow_eq_add_of_lt m.isLt]

theorem unpack_ofBits (b : BitVec 64) :
    UnpackedFloat.unpack Format.binary64 b = (Binary.ofBits b.toNat).unpacked := by
  have hexponent : ∀ k, @unpackExponent Format.binary64 b = BitVec.ofNat 11 k ↔
      b.toNat / 2 ^ 52 % 2 ^ 11 = k % 2 ^ 11 := fun k => by
    rw [← BitVec.toNat_inj, toNat_unpackExponent, BitVec.toNat_ofNat]
  have hmantissa : @unpackMantissa Format.binary64 b = 0#52 ↔ b.toNat % 2 ^ 52 = 0 := by
    rw [← BitVec.toNat_inj, toNat_unpackMantissa, BitVec.toNat_ofNat, Nat.zero_mod]
  have hones : (-1#11 : BitVec 11) = BitVec.ofNat 11 2047 := rfl
  unfold UnpackedFloat.unpack Binary.ofBits
  simp only [ofBitVec_unpackSign, Nat.pow_eq]
  by_cases h₁ : b.toNat / 2 ^ 52 % 2 ^ 11 = 2047
  · rw [if_pos (by rw [hones, hexponent]; exact h₁), if_pos h₁]
    by_cases h₂ : b.toNat % 2 ^ 52 = 0
    · rw [if_pos (hmantissa.mpr h₂), if_pos h₂]
      rfl
    · rw [if_neg (mt hmantissa.mp h₂), if_neg h₂]
      rfl
  · rw [if_neg (by rw [hones, hexponent]; exact h₁), if_neg h₁]
    by_cases h₂ : b.toNat / 2 ^ 52 % 2 ^ 11 = 0
    · rw [if_pos ((hexponent 0).mpr h₂), if_pos h₂]
      by_cases h₃ : b.toNat % 2 ^ 52 = 0
      · rw [dif_pos (hmantissa.mpr h₃), unpacked, dif_pos h₃]
      · rw [dif_neg (mt hmantissa.mp h₃), unpacked, dif_neg h₃]
        simp only [toNat_unpackMantissa, toNat_unpackExponent, h₂]
        rfl
    · rw [if_neg (mt (hexponent 0).mp h₂), if_neg h₂, unpacked, dif_neg (by omega)]
      congr 1
      · rw [toNat_implicit, toNat_unpackMantissa]
      · rw [toNat_unpackExponent]
        rfl

/-- The content of a number is what its bits unpack to. -/
theorem unpack_eq (x : Float) : x.toModel.unpack = (Binary.ofFloat x).unpacked :=
  unpack_ofBits x.toModel.toBits.toBitVec

/-! ## One content, one number -/

/-- The bits that say a content; those of a NaN are not told apart. -/
def toBits : Binary → Nat
  | nan => 0
  | infinite negative => (if negative then 2 ^ 63 else 0) + 2047 * 2 ^ 52
  | finite negative m e =>
    (if negative then 2 ^ 63 else 0) +
      if m < 2 ^ 52 then m else (e + 1075).toNat * 2 ^ 52 + (m - 2 ^ 52)

theorem toBits_ofBits {b : Nat} (hb : b < 2 ^ 64) (h : ofBits b ≠ nan) :
    (ofBits b).toBits = b := by
  have hsign : (if decide (2 ^ 63 ≤ b) = true then 2 ^ 63 else 0) = b / 2 ^ 63 * 2 ^ 63 := by
    by_cases hsign : 2 ^ 63 ≤ b
    · rw [decide_eq_true hsign, if_pos rfl]
      omega
    · rw [decide_eq_false hsign, if_neg Bool.false_ne_true]
      omega
  simp only [ofBits, Nat.pow_eq] at h ⊢
  split at h
  · rename_i hbiased
    split at h
    · rename_i hfraction
      rw [if_pos hbiased, if_pos hfraction, toBits, hsign]
      omega
    · exact absurd rfl h
  · rename_i hbiased
    rw [if_neg hbiased]
    split
    · rw [toBits, hsign, if_pos (Nat.mod_lt _ (by decide))]
      omega
    · rw [toBits, hsign, if_neg (by omega)]
      omega

/-- A number is decided by its content, unless that is none. -/
theorem ofFloat_inj {x y : Float} (h : ofFloat x = ofFloat y) (hx : ofFloat x ≠ nan) : x = y := by
  have hy : ofFloat y ≠ nan := by rwa [← h]
  have hbits : x.toBits = y.toBits := by
    rw [← UInt64.toNat_inj, ← toBits_ofBits x.toBits.toNat_lt hx,
      ← toBits_ofBits y.toBits.toNat_lt hy]
    exact congrArg toBits h
  obtain ⟨⟨xbits, _⟩⟩ := x
  obtain ⟨⟨ybits, _⟩⟩ := y
  obtain rfl : xbits = ybits := hbits
  rfl

/-- The contents that bits can say. -/
theorem finite_of_ofFloat {x : Float} {negative : Bool} {m : Nat} {e : Int}
    (h : ofFloat x = finite negative m e) :
    m < 2 ^ 53 ∧ -1074 ≤ e ∧ e ≤ 971 ∧ (2 ^ 52 ≤ m ∨ e = -1074) := by
  simp only [ofFloat, ofBits, Nat.pow_eq] at h
  split at h
  · split at h <;> cases h
  · split at h
    · cases h
      omega
    · cases h
      omega

theorem unpacked_inj {x y : Float} (h : (ofFloat x).unpacked = (ofFloat y).unpacked)
    (hx : ofFloat x ≠ nan) : x = y := by
  have hsign {a b : Bool} (hab : sign a = sign b) : a = b := by
    cases a <;> cases b <;> first | rfl | cases hab
  refine ofFloat_inj ?_ hx
  cases hx' : ofFloat x with
  | nan => exact absurd hx' hx
  | infinite a =>
    rw [hx', unpacked] at h
    cases hy : ofFloat y with
    | nan => rw [hy] at h; cases h
    | infinite b =>
      rw [hy] at h
      rw [hsign (UnpackedFloat.infinity.inj h)]
    | finite b m e =>
      rw [hy, unpacked] at h
      split at h <;> cases h
  | finite a m e =>
    obtain ⟨-, -, -, hnormal⟩ := finite_of_ofFloat hx'
    rw [hx', unpacked] at h
    cases hy : ofFloat y with
    | nan =>
      rw [hy] at h
      split at h <;> cases h
    | infinite b =>
      rw [hy] at h
      split at h <;> cases h
    | finite b k f =>
      obtain ⟨-, -, -, hnormal'⟩ := finite_of_ofFloat hy
      rw [hy, unpacked] at h
      split at h
      · split at h
        · -- a zero has the least exponent
          rw [hsign (UnpackedFloat.zero.inj h)]
          congr 1 <;> omega
        · cases h
      · split at h
        · cases h
        · obtain ⟨hab, hm, he⟩ := UnpackedFloat.finite.inj h
          rw [hsign hab, hm, he]

theorem isFinite_eq (x : Float) : x.isFinite = true ↔ ∃ negative m e, ofFloat x = finite negative m e := by
  change x.toModel.unpack.isFinite = true ↔ _
  rw [unpack_eq]
  cases hx : ofFloat x with
  | nan => simp [unpacked, UnpackedFloat.isFinite]
  | infinite negative => simp [unpacked, UnpackedFloat.isFinite]
  | finite negative m e => 
    by_cases hm : m = 0 <;> simp [unpacked, hm, UnpackedFloat.isFinite]

/-! ## Equality -/

/-- All zeros are equal. -/
theorem beq_of_zeros {x y : Float} {a b : Bool} {p q : Int} (hx : ofFloat x = finite a 0 p)
    (hy : ofFloat y = finite b 0 q) : (x == y) = true := by
  change ((x.toModel.unpack.compare y.toModel.unpack) == some .eq) = true
  rw [unpack_eq, unpack_eq, hx, hy]
  rfl

/-- A number is equal to itself unless it is none. -/
theorem beq_self {x : Float} (h : ofFloat x ≠ nan) : (x == x) = true := by
  change ((x.toModel.unpack.compare x.toModel.unpack) == some .eq) = true
  rw [unpack_eq]
  cases hx : ofFloat x with
  | nan => exact absurd hx h
  | infinite negative => cases negative <;> rfl
  | finite negative m e =>
    rw [unpacked]
    split
    · rfl
    · cases negative <;> simp [sign, UnpackedFloat.compare]

/-- Only equal contents and zeros compare as equal. -/
theorem eq_of_compare {u v : UnpackedFloat} (h : u.compare v = some .eq) :
    u = v ∨ (∃ s, u = .zero s) ∧ ∃ s, v = .zero s := by
  cases u with
  | notANumber => cases h
  | zero s =>
    cases v with
    | zero t => exact .inr ⟨⟨s, rfl⟩, t, rfl⟩
    | notANumber => cases h
    | infinity t | finite t _ _ _ => cases t <;> cases h
  | infinity s =>
    cases v with
    | infinity t => cases s <;> cases t <;> first | exact .inl rfl | cases h
    | notANumber => cases h
    | zero t | finite t _ _ _ => cases s <;> cases h
  | finite s m e pos =>
    cases v with
    | notANumber => cases h
    | zero t => cases s <;> cases h
    | infinity t => cases s <;> cases t <;> cases h
    | finite t k f pos' =>
      cases s <;> cases t <;>
        simp only [UnpackedFloat.compare, Option.some.injEq, reduceCtorEq, Ordering.swap_eq_eq,
          Ordering.then_eq_eq, Int.compare_eq_eq, Nat.compare_eq_eq] at h
      · obtain ⟨rfl, rfl⟩ := h
        exact .inl rfl
      · obtain ⟨rfl, rfl⟩ := h
        exact .inl rfl

theorem exists_zero_of_unpacked {b : Binary} {s : Sign} (h : b.unpacked = .zero s) :
    ∃ a e, b = finite a 0 e := by
  cases b with
  | nan | infinite a => cases h
  | finite a m e =>
    rw [unpacked] at h
    split at h
    · rename_i hm
      exact ⟨a, e, by rw [hm]⟩
    · cases h

/-- Numbers are equal if they are the same, or both are zero. -/
theorem eq_or_zeros_of_beq {x y : Float} (h : (x == y) = true) :
    (x = y ∧ ofFloat x ≠ nan) ∨
      (∃ a p, ofFloat x = finite a 0 p) ∧ ∃ b q, ofFloat y = finite b 0 q := by
  change ((x.toModel.unpack.compare y.toModel.unpack) == some .eq) = true at h
  have hcompare := eq_of_beq h
  rw [unpack_eq, unpack_eq] at hcompare
  rcases eq_of_compare hcompare with hsame | ⟨⟨s, hx⟩, t, hy⟩
  · have hx : ofFloat x ≠ nan := fun hnan => by
      rw [hnan] at hcompare
      cases hcompare
    exact .inl ⟨unpacked_inj hsame hx, hx⟩
  · exact .inr ⟨exists_zero_of_unpacked hx, exists_zero_of_unpacked hy⟩

/-- Numbers that are equal to one number are equal. -/
theorem beq_of_beq_of_beq {x y z : Float} (hy : (y == x) = true) (hz : (z == x) = true) :
    (y == z) = true := by
  rcases eq_or_zeros_of_beq hy with ⟨rfl, hnan⟩ | ⟨⟨a, p, ha⟩, b, q, hb⟩
  · rcases eq_or_zeros_of_beq hz with ⟨rfl, -⟩ | ⟨⟨c, r, hc⟩, b, q, hb⟩
    · exact beq_self hnan
    · exact beq_of_zeros hb hc
  · rcases eq_or_zeros_of_beq hz with ⟨rfl, -⟩ | ⟨⟨c, r, hc⟩, -⟩
    · exact beq_of_zeros ha hb
    · exact beq_of_zeros ha hc

/-! ## Zeros -/

theorem ofFloat_zero : ofFloat 0 = .finite false 0 (-1074) := by decide +kernel

theorem unpack_zero : (0 : Float).toModel.unpack = .zero .positive := by
  rw [unpack_eq, ofFloat_zero]
  rfl

theorem compare_zero (s : Sign) (u : UnpackedFloat) :
    (UnpackedFloat.zero s).compare u = (UnpackedFloat.zero .positive).compare u := by
  cases u with
  | zero _ | notANumber => rfl
  | infinity s' | finite s' _ _ _ => cases s' <;> rfl

/-- A number is equal to zero if its mantissa is. -/
theorem eq_finite_zero {x : Float} (h : (x == 0) = true) :
    ∃ negative e, ofFloat x = .finite negative 0 e := by
  change ((x.toModel.unpack.compare (0 : Float).toModel.unpack) == some .eq) = true at h
  rw [unpack_zero, unpack_eq] at h
  cases hx : ofFloat x with
  | nan => simp [hx, unpacked, UnpackedFloat.compare] at h
  | infinite negative =>
    cases negative <;> simp [hx, unpacked, sign, UnpackedFloat.compare] at h
  | finite negative m e =>
    by_cases hm : m = 0
    · exact ⟨negative, e, by rw [hm]⟩
    · cases negative <;> simp [hx, unpacked, sign, hm, UnpackedFloat.compare] at h

end Binary

/-- The two zeros are equal to the same numbers. -/
theorem beq_of_beq_zero {x : Float} (h : (x == 0) = true) (y : Float) : (x == y) = (0 == y) := by
  obtain ⟨negative, e, hx⟩ := Binary.eq_finite_zero h
  change ((x.toModel.unpack.compare y.toModel.unpack) == some .eq) =
    (((0 : Float).toModel.unpack.compare y.toModel.unpack) == some .eq)
  rw [Binary.unpack_zero, Binary.unpack_eq x, hx, Binary.unpacked, dif_pos rfl,
    Binary.compare_zero]

/-- The two zeros have the same text. -/
theorem scriptText_of_beq_zero {x : Float} (h : (x == 0) = true) : scriptText x = scriptText 0 := by
  obtain ⟨negative, e, hx⟩ := Binary.eq_finite_zero h
  simp only [scriptText, Layout.set, hx, Binary.ofFloat_zero, Layout.setFinite, if_true, Layout.script,
    Bool.and_false]

end Typeforge
