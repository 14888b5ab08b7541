/-
The order of finite numbers, and their whole parts.

Numbers are compared taken apart, by sign, then exponent, then mantissa.  A canonical mantissa fills the
length that its exponent asks for, so a larger exponent is a larger number whatever the mantissas are,
and the comparison is the one of the rationals.  Cutting a number down to a count shifts the mantissa until its
exponent is zero, which is the whole part of the rational.
-/
import AdaptiveMtu.Proofs.Binary64.Accuracy

namespace AdaptiveMtu

namespace Binary64

open Float.Model
open Float.Model.UnpackedFloat (Sign)

/-! ### Comparing magnitudes -/

theorem magnitude_pos {m : ℕ} (hm : 0 < m) (e : ℤ) : (0 : ℚ) < m * 2 ^ e :=
  mul_pos (by exact_mod_cast hm) (zpow_pos two_pos e)

/-- Of two canonical magnitudes, the one with the smaller exponent is smaller. -/
theorem magnitude_lt_of_exponent_lt {m m' : ℕ} {e e' : ℤ} (h : Canonical m e)
    (h' : Canonical m' e') (he : e < e') : (m : ℚ) * 2 ^ e < m' * 2 ^ e' := by
  have hge := h.ge_exponent
  have hnormal : 2 ^ 52 ≤ m' := h'.normal.resolve_right (by omega)
  have hm : (m : ℚ) < 2 ^ 53 := by exact_mod_cast h.lt
  have hm' : (2 : ℚ) ^ 52 ≤ m' := by exact_mod_cast hnormal
  calc (m : ℚ) * 2 ^ e < 2 ^ 53 * 2 ^ e := mul_lt_mul_of_pos_right hm (zpow_pos two_pos e)
    _ = 2 ^ 52 * 2 ^ (e + 1) := by rw [zpow_add_one₀ two_ne_zero]; ring
    _ ≤ 2 ^ 52 * 2 ^ e' := by
        refine mul_le_mul_of_nonneg_left ?_ (by positivity)
        exact zpow_le_zpow_right₀ one_le_two he
    _ ≤ m' * 2 ^ e' := mul_le_mul_of_nonneg_right hm' (zpow_pos two_pos e').le

theorem magnitude_lt_iff {m m' : ℕ} {e e' : ℤ} (h : Canonical m e) (h' : Canonical m' e') :
    (compare e e').then (compare m m') = .lt ↔ (m : ℚ) * 2 ^ e < m' * 2 ^ e' := by
  rcases lt_trichotomy e e' with hlt | rfl | hgt
  · rw [compare_lt_iff_lt.mpr hlt]
    exact iff_of_true rfl (magnitude_lt_of_exponent_lt h h' hlt)
  · rw [compare_eq_iff_eq.mpr rfl, Ordering.eq_then, compare_lt_iff_lt,
      mul_lt_mul_iff_left₀ (zpow_pos two_pos e), Nat.cast_lt]
  · rw [compare_gt_iff_gt.mpr hgt]
    refine iff_of_false (fun hc => by cases hc) ?_
    exact (magnitude_lt_of_exponent_lt h' h hgt).le.not_gt

/-! ### Comparing numbers -/

/-- **Numbers of the format are in the order of the rationals that they are.** -/
theorem unpackedLt_iff {a b : UnpackedFloat} (ha : Fits a) (hb : Fits b) :
    a.lt b = true ↔ toRat a < toRat b := by
  cases a with
  | infinity s | notANumber => exact absurd ha id
  | zero s =>
      rw [toRat_zero]
      cases b with
      | infinity s' | notANumber => exact absurd hb id
      | zero s' => exact iff_of_false Bool.false_ne_true (lt_irrefl _)
      | finite s' m' e' hm' =>
          have hpos := magnitude_pos hm' e'
          cases s' with
          | positive => exact iff_of_true rfl hpos
          | negative => exact iff_of_false Bool.false_ne_true (neg_lt_zero.mpr hpos).le.not_gt
  | finite s m e hm =>
      have hpos := magnitude_pos hm e
      cases b with
      | infinity s' | notANumber => exact absurd hb id
      | zero s' =>
          rw [toRat_zero]
          cases s with
          | positive => exact iff_of_false Bool.false_ne_true hpos.le.not_gt
          | negative => exact iff_of_true rfl (neg_lt_zero.mpr hpos)
      | finite s' m' e' hm' =>
          have hpos' := magnitude_pos hm' e'
          cases s with
          | positive =>
              cases s' with
              | positive =>
                  rw [UnpackedFloat.lt, beq_iff_eq]
                  exact Option.some_inj.trans (magnitude_lt_iff ha hb)
              | negative =>
                  refine iff_of_false Bool.false_ne_true ?_
                  exact ((neg_lt_zero.mpr hpos').trans hpos).le.not_gt
          | negative =>
              cases s' with
              | positive => exact iff_of_true rfl ((neg_lt_zero.mpr hpos).trans hpos')
              | negative =>
                  have hswap : ((compare e e').then (compare m m')).swap
                      = (compare e' e).then (compare m' m) := by
                    rw [Ordering.swap_then, Int.compare_swap, Nat.compare_swap]
                  rw [UnpackedFloat.lt, beq_iff_eq]
                  refine Option.some_inj.trans ?_
                  rw [hswap, magnitude_lt_iff hb ha]
                  exact neg_lt_neg_iff.symm

theorem lt_iff {x y : Float} (hx : x.isFinite = true) (hy : y.isFinite = true) :
    x < y ↔ value x < value y := by
  rw [value_eq hx, value_eq hy, ← unpackedLt_iff (fits_unpacked hx) (fits_unpacked hy)]
  exact decide_eq_true_iff

/-- A finite number is brought to the end of a range that its value is beyond. -/
theorem value_clamp {low high x : Float} (hlow : low.isFinite = true) (hhigh : high.isFinite = true)
    (hx : x.isFinite = true) (hle : value low ≤ value high) :
    (clamp low high x).isFinite = true ∧
      value (clamp low high x) = max (value low) (min (value x) (value high)) := by
  unfold clamp
  by_cases hbelow : x < low
  · rw [if_pos hbelow]
    rw [lt_iff hx hlow] at hbelow
    exact ⟨hlow, (max_eq_left ((min_le_left _ _).trans hbelow.le)).symm⟩
  · rw [if_neg hbelow]
    rw [lt_iff hx hlow, not_lt] at hbelow
    by_cases habove : high < x
    · rw [if_pos habove]
      rw [lt_iff hhigh hx] at habove
      rw [min_eq_right habove.le, max_eq_right hle]
      exact ⟨hhigh, rfl⟩
    · rw [if_neg habove]
      rw [lt_iff hhigh hx, not_lt] at habove
      rw [min_eq_left habove, max_eq_right hbelow]
      exact ⟨hx, rfl⟩

/-- A number brought into a range is finite and within it. -/
theorem clamp_spec {low high x : Float} (hlow : low.isFinite = true) (hhigh : high.isFinite = true)
    (hx : x.isFinite = true) (hle : value low ≤ value high) :
    (clamp low high x).isFinite = true ∧ value low ≤ value (clamp low high x) ∧
      value (clamp low high x) ≤ value high := by
  obtain ⟨hfinite, hvalue⟩ := value_clamp hlow hhigh hx hle
  rw [hvalue]
  exact ⟨hfinite, le_max_left _ _, max_le hle (min_le_right _ _)⟩

/-! ### Whole parts -/

/-- A mantissa that is brought to exponent zero is the whole part of its magnitude. -/
theorem roundToInt_eq (s : Sign) (m : ℕ) (e : ℤ) :
    UnpackedFloat.roundToInt s m e = s.apply ⌊(m : ℚ) * 2 ^ e⌋₊ := by
  obtain ⟨n, hn⟩ : ∃ n : ℕ, (e - 0).toNat = n := ⟨_, rfl⟩
  obtain ⟨k, hk⟩ : ∃ k : ℕ, (0 - (e - n)).toNat = k := ⟨_, rfl⟩
  have hvalue : ((m <<< n : ℕ) : ℚ) / 2 ^ k = m * 2 ^ e := by
    have he : e = n - k := by omega
    rw [Nat.shiftLeft_eq, he, zpow_sub₀ two_ne_zero, zpow_natCast, zpow_natCast]
    push_cast
    ring
  have hstands := (standsFor_natCast (m <<< n)).shiftRight k
  rw [hvalue] at hstands
  rw [← hstands.mantissa, UnpackedFloat.roundToInt, UnpackedFloat.decreaseExponent, hn]
  simp only [UnpackedFloat.shiftToExponent, hk]

theorem toNat_toInt {u : UnpackedFloat} (hu : Fits u) (low high : ℤ) :
    (u.toInt low high).toNat = ⌊toRat u⌋₊ := by
  cases u with
  | infinity s | notANumber => exact absurd hu id
  | zero s =>
      rw [toRat_zero, Nat.floor_zero]
      rfl
  | finite s m e hm =>
      rw [UnpackedFloat.toInt, roundToInt_eq]
      cases s with
      | positive => rfl
      | negative =>
          -- A negative number has no whole part among the counts.
          have hneg : toRat (.finite .negative m e hm) ≤ 0 :=
            (neg_lt_zero.mpr (magnitude_pos hm e)).le
          rw [Nat.floor_of_nonpos hneg]
          exact Int.toNat_neg_natCast _

/-- **A finite number is cut down to the whole part of the rational that it is, or to the largest
count.** -/
theorem truncate_eq {x : Float} (hx : x.isFinite = true) :
    truncate x = min ⌊value x⌋₊ largestCount := by
  have hfloor := toNat_toInt (fits_unpacked hx) 0 (UInt64.size - 1)
  rw [← value_eq hx] at hfloor
  rw [← hfloor]
  show (UInt64.ofNatClamp ((unpacked x).toInt 0 (UInt64.size - 1)).toNat).toNat = _
  unfold UInt64.ofNatClamp
  split
  · next hlt => exact (Nat.min_eq_left (Nat.le_of_lt_succ hlt)).symm
  · next hge => exact (Nat.min_eq_right (Nat.le_of_lt (not_lt.mp hge))).symm

/-- A number between two counts is cut down to a count between them. -/
theorem truncate_mem {x : Float} {low high : ℕ} (hx : x.isFinite = true) (hlow : (low : ℚ) ≤ value x)
    (hhigh : value x ≤ high) (hmax : high ≤ largestCount) : low ≤ truncate x ∧ truncate x ≤ high := by
  have hfloor : ⌊value x⌋₊ ≤ high := Nat.floor_le_of_le hhigh
  rw [truncate_eq hx, Nat.min_eq_left (hfloor.trans hmax)]
  exact ⟨Nat.le_floor hlow, hfloor⟩

end Binary64

end AdaptiveMtu
