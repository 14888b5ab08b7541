/-
The rational that a finite number is.

`value` is read off the bits, as a count of units with a sign, and is thus something that can be computed.
The arithmetic takes numbers apart into a mantissa and an exponent instead; `value_eq` says that both
readings are the same rational.
-/
import AdaptiveMtu.Proofs.Binary64.Rounding

namespace AdaptiveMtu

namespace Binary64

open Float.Model
open Float.Model.UnpackedFloat (Sign)

/-- The rational that a finite number is. -/
def value (x : Float) : ℚ := (if negative x then -(units x : ℚ) else units x) / unitsPerOne

/-! ### The fields of a number are bits of its word -/

theorem toNat_unpackExponent (x : Float) :
    (@UnpackedFloat.unpackExponent .binary64 x.toBits.toBitVec).toNat = exponentField x := by
  rw [UnpackedFloat.unpackExponent_def, BitVec.extractLsb'_toNat, Nat.shiftRight_eq_div_pow]
  rfl

theorem toNat_unpackMantissa (x : Float) :
    (@UnpackedFloat.unpackMantissa .binary64 x.toBits.toBitVec).toNat = fractionField x := by
  rw [UnpackedFloat.unpackMantissa_def, BitVec.extractLsb'_toNat, Nat.shiftRight_zero]
  rfl

theorem sign_eq (x : Float) :
    Sign.ofBitVec (@UnpackedFloat.unpackSign .binary64 x.toBits.toBitVec)
      = if negative x then .negative else .positive := by
  have hword : word x < 2 ^ 64 := x.toBits.toBitVec.isLt
  have hbit : (@UnpackedFloat.unpackSign .binary64 x.toBits.toBitVec).toNat = word x / 2 ^ 63 := by
    rw [UnpackedFloat.unpackSign_def, BitVec.extractLsb'_toNat, Nat.shiftRight_eq_div_pow]
    show word x / 2 ^ 63 % 2 ^ 1 = _
    omega
  unfold Sign.ofBitVec negative
  by_cases hneg : 0x8000000000000000 ≤ word x
  · rw [if_neg, if_pos (by simpa using hneg)]
    intro hzero
    rw [hzero] at hbit
    have : (0 : ℕ) = word x / 2 ^ 63 := hbit
    omega
  · rw [if_pos, if_neg (by simpa using hneg)]
    refine BitVec.eq_of_toNat_eq ?_
    rw [hbit]
    show _ = 0
    omega

theorem signed_zero (s : Sign) : signed s 0 = 0 := by
  cases s with
  | positive => rfl
  | negative => exact neg_zero

theorem unitsPerOne_eq : (unitsPerOne : ℚ) = 2 ^ (1074 : ℤ) := Nat.cast_pow 2 1074

theorem value_eq_signed (x : Float) :
    value x = signed (if negative x then .negative else .positive) (units x / unitsPerOne) := by
  unfold value
  cases negative x with
  | true => exact neg_div _ _
  | false => rfl

theorem units_div_unitsPerOne (x : Float) :
    (units x : ℚ) / unitsPerOne = significand x * 2 ^ ((lift x : ℤ) - 1074) := by
  have hunits : (units x : ℚ) = significand x * 2 ^ (lift x : ℤ) := by
    rw [zpow_natCast]
    exact Nat.cast_mul _ _ |>.trans (congrArg _ (Nat.cast_pow 2 _))
  rw [hunits, unitsPerOne_eq, zpow_sub₀ (by norm_num), mul_div_assoc]

/-- **Both readings of a finite number are the same rational.** -/
theorem value_eq {x : Float} (hx : x.isFinite = true) : value x = toRat (unpacked x) := by
  have hunpack : unpacked x = ofParts (if negative x then .negative else .positive)
      (@UnpackedFloat.unpackExponent .binary64 x.toBits.toBitVec)
      (@UnpackedFloat.unpackMantissa .binary64 x.toBits.toBitVec) := by
    rw [← sign_eq]
    exact unpack_eq_ofParts _
  have hE := toNat_unpackExponent x
  have hM := toNat_unpackMantissa x
  rw [isFinite_eq] at hx
  rw [value_eq_signed, units_div_unitsPerOne]
  rw [hunpack] at hx ⊢
  generalize (if negative x then Sign.negative else Sign.positive) = s at hx ⊢
  generalize (@UnpackedFloat.unpackExponent .binary64 x.toBits.toBitVec : BitVec 11) = E at hE hx ⊢
  generalize (@UnpackedFloat.unpackMantissa .binary64 x.toBits.toBitVec : BitVec 52) = M at hM hx ⊢
  unfold ofParts at hx ⊢
  by_cases hones : E = -1#11
  · rw [if_pos hones] at hx
    split at hx <;> cases hx
  · rw [if_neg hones]
    by_cases hzero : E = 0#11
    · have hfield : exponentField x = 0 := by rw [← hE, hzero]; rfl
      have hsig : significand x = M.toNat := by rw [significand, if_pos hfield, hM]
      have hlift : lift x = 0 := by rw [lift, hfield]
      rw [if_pos hzero, hsig, hlift]
      by_cases hM0 : M = 0#52
      · rw [dif_pos hM0, hM0]
        show signed s (((0 : ℕ) : ℚ) * _) = 0
        rw [Nat.cast_zero, zero_mul, signed_zero]
      · rw [dif_neg hM0]
        rfl
    · have hfield : exponentField x ≠ 0 := by
        rw [← hE]
        exact fun hc => hzero (BitVec.eq_of_toNat_eq hc)
      have hsig : significand x = 2 ^ 52 + M.toNat := by rw [significand, if_neg hfield, hM]; rfl
      have hlift : (lift x : ℤ) - 1074 = (E.toNat : ℤ) - 1075 := by
        rw [lift, hE]
        omega
      rw [if_neg hzero, hsig, hlift]
      rfl

/-- The word of an infinity or of NaN would be at least 2¹⁰²⁴ if it were read as a number. -/
theorem isFinite_of_abs_value_lt {x : Float} (h : |value x| < 2 ^ (1024 : ℤ)) :
    x.isFinite = true := by
  by_contra hinfinite
  have hunpack : unpacked x = ofParts _ (@UnpackedFloat.unpackExponent .binary64 x.toBits.toBitVec)
      (@UnpackedFloat.unpackMantissa .binary64 x.toBits.toBitVec) := unpack_eq_ofParts _
  have hfield : exponentField x = 2047 := by
    rw [← toNat_unpackExponent]
    rw [isFinite_eq, hunpack, ofParts] at hinfinite
    split_ifs at hinfinite with hones
    · rw [hones]
      rfl
    · rw [hones]
      rfl
    all_goals exact absurd rfl hinfinite
  have hsig : 2 ^ 52 ≤ significand x := by
    rw [significand, if_neg (by omega)]
    omega
  have hlift : (lift x : ℤ) - 1074 = 972 := by
    rw [lift, hfield]
    rfl
  have hlarge : (2 : ℚ) ^ (1024 : ℤ) ≤ significand x * 2 ^ (972 : ℤ) :=
    calc (2 : ℚ) ^ (1024 : ℤ) = 2 ^ (52 : ℤ) * 2 ^ (972 : ℤ) := zpow_add₀ two_ne_zero 52 972
      _ ≤ significand x * 2 ^ (972 : ℤ) := by
          refine mul_le_mul_of_nonneg_right ?_ (zpow_pos (by norm_num) 972).le
          exact_mod_cast hsig
  rw [value_eq_signed, abs_signed, units_div_unitsPerOne, hlift, abs_of_nonneg (by positivity)] at h
  linarith

end Binary64

end AdaptiveMtu
