/-
The binary64 number nearest to a rational.

Between two powers of two the numbers of the format are evenly spaced: `spacing` is 2⁻⁵² of the power of
two below, and never less than 2⁻¹⁰⁷⁴.  `nearest` measures a rational in that spacing, takes the
nearest whole number, a half going to the even one, and gives it the sign back.  It says nothing about the
largest number of the format; what lies beyond that is a matter of packing.
-/
import Mathlib

namespace AdaptiveMtu

namespace Binary64

/-! ### The nearest whole number -/

/-- The whole number nearest to a rational that is not negative, a half going to the even neighbour. -/
def roundEven (q : ℚ) : ℕ :=
  if q - ⌊q⌋₊ < 1 / 2 then ⌊q⌋₊
  else if 1 / 2 < q - ⌊q⌋₊ then ⌊q⌋₊ + 1
  else ⌊q⌋₊ + ⌊q⌋₊ % 2

theorem roundEven_natCast (n : ℕ) : roundEven n = n := by
  simp [roundEven]

theorem floor_le_roundEven (q : ℚ) : ⌊q⌋₊ ≤ roundEven q := by
  unfold roundEven
  split_ifs <;> omega

theorem roundEven_le_floor_add_one (q : ℚ) : roundEven q ≤ ⌊q⌋₊ + 1 := by
  unfold roundEven
  split_ifs <;> omega

theorem abs_roundEven_sub_le {q : ℚ} (hq : 0 ≤ q) : |(roundEven q : ℚ) - q| ≤ 1 / 2 := by
  have hfloor : (⌊q⌋₊ : ℚ) ≤ q := Nat.floor_le hq
  have hlt : q < ⌊q⌋₊ + 1 := Nat.lt_floor_add_one q
  unfold roundEven
  rw [abs_le]
  split_ifs with hbelow habove
  · constructor <;> linarith
  · push_cast
    constructor <;> linarith
  · -- Exactly half way: whichever neighbour is taken, the distance is one half.
    have hhalf : q - ⌊q⌋₊ = 1 / 2 := by linarith
    rcases Nat.mod_two_eq_zero_or_one ⌊q⌋₊ with hmod | hmod
    · rw [hmod]
      push_cast
      constructor <;> linarith
    · rw [hmod]
      push_cast
      constructor <;> linarith

theorem roundEven_mono {p q : ℚ} (h : p ≤ q) : roundEven p ≤ roundEven q := by
  have hfloors : ⌊p⌋₊ ≤ ⌊q⌋₊ := Nat.floor_mono h
  rcases Nat.lt_or_eq_of_le hfloors with hlt | heq
  · calc roundEven p ≤ ⌊p⌋₊ + 1 := roundEven_le_floor_add_one p
      _ ≤ ⌊q⌋₊ := hlt
      _ ≤ roundEven q := floor_le_roundEven q
  · unfold roundEven
    rw [heq]
    split_ifs <;> first | omega | linarith

theorem roundEven_le {q : ℚ} {n : ℕ} (h : q ≤ n) : roundEven q ≤ n := by
  rw [← roundEven_natCast n]
  exact roundEven_mono h

theorem le_roundEven {q : ℚ} {n : ℕ} (h : (n : ℚ) ≤ q) : n ≤ roundEven q := by
  rw [← roundEven_natCast n]
  exact roundEven_mono h

/-! ### The spacing of the format -/

/-- The power of two that numbers as large as the given one are multiples of. -/
def spacingExponent (z : ℚ) : ℤ := max (Int.log 2 |z| - 52) (-1074)

/-- How far numbers as large as the given one are apart. -/
def spacing (z : ℚ) : ℚ := 2 ^ spacingExponent z

theorem spacing_pos (z : ℚ) : 0 < spacing z := zpow_pos (by norm_num) _

theorem spacing_le {z : ℚ} (hz : z ≠ 0) : spacing z ≤ |z| / 2 ^ 52 + 2 ^ (-1074 : ℤ) := by
  have hlog : (2 : ℚ) ^ Int.log 2 |z| ≤ |z| := by
    exact_mod_cast Int.zpow_log_le_self Nat.one_lt_two (abs_pos.mpr hz)
  unfold spacing spacingExponent
  rcases max_choice (Int.log 2 |z| - 52) (-1074) with hmax | hmax
  · have hpow : (2 : ℚ) ^ (Int.log 2 |z| - 52) = 2 ^ Int.log 2 |z| / 2 ^ 52 := by
      rw [zpow_sub₀ (by norm_num)]
      norm_cast
    have hsmall : (0 : ℚ) < 2 ^ (-1074 : ℤ) := zpow_pos (by norm_num) _
    rw [hmax, hpow]
    linarith [div_le_div_of_nonneg_right hlog (by positivity : (0 : ℚ) ≤ 2 ^ 52)]
  · have hlarge : 0 ≤ |z| / 2 ^ 52 := by positivity
    rw [hmax]
    linarith

theorem spacingExponent_mono {y z : ℚ} (hy : y ≠ 0) (h : |y| ≤ |z|) :
    spacingExponent y ≤ spacingExponent z :=
  max_le_max_right _ (Int.sub_le_sub_right (Int.log_mono_right (abs_pos.mpr hy) h) 52)

/-- Measured in its spacing, a number is less than 2⁵³. -/
theorem abs_div_spacing_lt (z : ℚ) : |z| / spacing z < 2 ^ 53 := by
  rw [div_lt_iff₀ (spacing_pos z)]
  have hlog : |z| < (2 : ℚ) ^ (Int.log 2 |z| + 1) := by
    exact_mod_cast Int.lt_zpow_succ_log_self Nat.one_lt_two |z|
  have hexp : Int.log 2 |z| + 1 ≤ 53 + spacingExponent z := by
    unfold spacingExponent
    omega
  calc |z| < 2 ^ (Int.log 2 |z| + 1) := hlog
    _ ≤ 2 ^ (53 + spacingExponent z) := zpow_le_zpow_right₀ (by norm_num) hexp
    _ = 2 ^ 53 * spacing z := by rw [zpow_add₀ (by norm_num), spacing]; norm_cast

/-- Measured in a spacing that is not the smallest, it is at least 2⁵². -/
theorem le_abs_div_spacing {z : ℚ} (hz : z ≠ 0) (h : spacingExponent z ≠ -1074) :
    2 ^ 52 ≤ |z| / spacing z := by
  rw [le_div_iff₀ (spacing_pos z)]
  have hlog : (2 : ℚ) ^ Int.log 2 |z| ≤ |z| := by
    exact_mod_cast Int.zpow_log_le_self Nat.one_lt_two (abs_pos.mpr hz)
  have hexp : 52 + spacingExponent z = Int.log 2 |z| := by
    unfold spacingExponent at h ⊢
    omega
  calc 2 ^ 52 * spacing z = 2 ^ (52 + spacingExponent z) := by
        rw [zpow_add₀ (by norm_num), spacing]; norm_cast
    _ ≤ |z| := by rw [hexp]; exact hlog

/-! ### The nearest number -/

/-- The number of the format nearest to a rational, if the format had no largest number. -/
def nearest (z : ℚ) : ℚ := SignType.sign z * (roundEven (|z| / spacing z) * spacing z)

theorem nearest_zero : nearest 0 = 0 := by
  rw [nearest, sign_zero, SignType.coe_zero, zero_mul]

theorem nearest_neg (z : ℚ) : nearest (-z) = -nearest z := by
  simp only [nearest, spacing, spacingExponent, abs_neg, Left.sign_neg, SignType.coe_neg, neg_mul]

theorem nearest_of_pos {z : ℚ} (hz : 0 < z) : nearest z = roundEven (z / spacing z) * spacing z := by
  rw [nearest, sign_pos hz, abs_of_pos hz, SignType.coe_one, one_mul]

/-- A multiple of its own spacing is a number of the format. -/
theorem nearest_of_multiple {z : ℚ} (hz : 0 < z) (n : ℕ) (h : z = n * spacing z) : nearest z = z := by
  have hquot : z / spacing z = n := by
    rw [div_eq_iff (spacing_pos z).ne']
    exact h
  rw [nearest_of_pos hz, hquot, roundEven_natCast]
  exact h.symm

theorem abs_nearest_sub_le_spacing (z : ℚ) : |nearest z - z| ≤ spacing z / 2 := by
  have hpos : ∀ y : ℚ, 0 < y → |nearest y - y| ≤ spacing y / 2 := by
    intro y hy
    have hs := spacing_pos y
    have hround := abs_roundEven_sub_le (div_nonneg hy.le hs.le)
    have hdist : nearest y - y = (roundEven (y / spacing y) - y / spacing y) * spacing y := by
      rw [nearest_of_pos hy]
      field_simp
    rw [hdist, abs_mul, abs_of_pos hs]
    linarith [mul_le_mul_of_nonneg_right hround hs.le]
  rcases lt_trichotomy z 0 with hneg | rfl | hz
  · have h := hpos (-z) (neg_pos.mpr hneg)
    have hspacing : spacing (-z) = spacing z := by
      rw [spacing, spacing, spacingExponent, spacingExponent, abs_neg]
    rwa [nearest_neg, hspacing, ← neg_sub', abs_neg] at h
  · rw [nearest_zero, sub_zero, abs_zero]
    exact div_nonneg (spacing_pos 0).le (by norm_num)
  · exact hpos z hz

/-- **Rounding is off by 2⁻⁵³ of the number at most, and by 2⁻¹⁰⁷⁵ near zero.** -/
theorem abs_nearest_sub_le (z : ℚ) : |nearest z - z| ≤ |z| / 2 ^ 53 + 2 ^ (-1075 : ℤ) := by
  have hpow : (2 : ℚ) ^ (-1074 : ℤ) = 2 * 2 ^ (-1075 : ℤ) := by
    rw [← zpow_one_add₀ (by norm_num)]
    norm_num
  by_cases hz : z = 0
  · rw [hz, nearest_zero, sub_zero, abs_zero, zero_div, zero_add]
    positivity
  · calc |nearest z - z| ≤ spacing z / 2 := abs_nearest_sub_le_spacing z
      _ ≤ (|z| / 2 ^ 52 + 2 ^ (-1074 : ℤ)) / 2 := by linarith [spacing_le hz]
      _ = |z| / 2 ^ 53 + 2 ^ (-1075 : ℤ) := by rw [hpow]; ring

theorem nearest_nonneg {z : ℚ} (hz : 0 ≤ z) : 0 ≤ nearest z := by
  rcases hz.eq_or_lt with rfl | hpos
  · rw [nearest_zero]
  · rw [nearest_of_pos hpos]
    exact mul_nonneg (Nat.cast_nonneg _) (spacing_pos z).le

theorem nearest_mono_of_pos {y z : ℚ} (hy : 0 < y) (h : y ≤ z) : nearest y ≤ nearest z := by
  have hz : 0 < z := hy.trans_le h
  rw [nearest_of_pos hy, nearest_of_pos hz]
  have hexp : spacingExponent y ≤ spacingExponent z :=
    spacingExponent_mono hy.ne' (by rwa [abs_of_pos hy, abs_of_pos hz])
  rcases hexp.eq_or_lt with heq | hlt
  · -- Numbers with the same spacing: the whole numbers are in order.
    have hspacing : spacing y = spacing z := by rw [spacing, spacing, heq]
    rw [hspacing]
    refine mul_le_mul_of_nonneg_right ?_ (spacing_pos z).le
    exact_mod_cast roundEven_mono (div_le_div_of_nonneg_right h (spacing_pos z).le)
  · -- Else a power of two lies between them.
    have hupper : y / spacing y ≤ (2 ^ 53 : ℕ) := by
      have := abs_div_spacing_lt y
      rw [abs_of_pos hy] at this
      exact_mod_cast this.le
    have hsmallest : spacingExponent z ≠ -1074 := by
      have : -1074 ≤ spacingExponent y := le_max_right _ _
      omega
    have hlower : ((2 ^ 52 : ℕ) : ℚ) ≤ z / spacing z := by
      have := le_abs_div_spacing hz.ne' hsmallest
      rw [abs_of_pos hz] at this
      exact_mod_cast this
    have hspacing : 2 * spacing y ≤ spacing z := by
      rw [spacing, spacing, ← zpow_one_add₀ (by norm_num)]
      exact zpow_le_zpow_right₀ (by norm_num) (by omega)
    have hy53 : (roundEven (y / spacing y) : ℚ) ≤ 2 ^ 53 := by exact_mod_cast roundEven_le hupper
    have hz52 : (2 ^ 52 : ℚ) ≤ roundEven (z / spacing z) := by exact_mod_cast le_roundEven hlower
    calc roundEven (y / spacing y) * spacing y
        ≤ 2 ^ 53 * spacing y := mul_le_mul_of_nonneg_right hy53 (spacing_pos y).le
      _ ≤ 2 ^ 52 * spacing z := by linarith
      _ ≤ roundEven (z / spacing z) * spacing z :=
          mul_le_mul_of_nonneg_right hz52 (spacing_pos z).le

/-- **Rounding keeps the order.** -/
theorem nearest_mono {y z : ℚ} (h : y ≤ z) : nearest y ≤ nearest z := by
  rcases lt_or_ge 0 y with hy | hy
  · exact nearest_mono_of_pos hy h
  · have hny : nearest y ≤ 0 := by
      have := nearest_nonneg (neg_nonneg.mpr hy)
      rw [nearest_neg] at this
      linarith
    rcases le_or_gt 0 z with hz | hz
    · exact hny.trans (nearest_nonneg hz)
    · have := nearest_mono_of_pos (neg_pos.mpr hz) (neg_le_neg h)
      rw [nearest_neg, nearest_neg] at this
      linarith

end Binary64

end AdaptiveMtu
