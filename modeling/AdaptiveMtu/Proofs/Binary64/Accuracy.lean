/-
How far a computed number is from the exact one.

`Near` says that a number is finite and not further from a rational than some error.  Each operation adds
the errors of its arguments and one rounding, which is a fixed share of the largest result that is
expected.  What is expected never has to be the exact size: a bound that is at least one is enough, so that
the smallest numbers of the format need no thought.
-/
import AdaptiveMtu.Binary64.Whole
import AdaptiveMtu.Proofs.Binary64.Arithmetic

namespace AdaptiveMtu

namespace Binary64

open Float.Model

/-! ### Counts -/

theorem unpacked_ofCount (n : ℕ) :
    unpacked (ofCount n) =
      repack (.normalize .binary64 ((UInt64.ofNat n).toNat : ℤ) 0 .positive) := rfl

/-- Whole numbers up to 2⁵³ are numbers of the format. -/
theorem nearest_natCast {n : ℕ} (hn : n ≤ 2 ^ 53) : nearest n = n := by
  rcases Nat.eq_zero_or_pos n with rfl | hpos
  · rw [Nat.cast_zero, nearest_zero]
  · have hqpos : (0 : ℚ) < n := by exact_mod_cast hpos
    rcases hn.eq_or_lt with rfl | hlt
    · rw [Nat.cast_pow, Nat.cast_ofNat, ← zpow_natCast]
      exact nearest_zpow (by norm_num)
    · -- Below 2⁵³ the spacing is a power of two that is not larger than one.
      have hlog : n.log2 < 53 := (Nat.log2_lt hpos.ne').mpr hlt
      obtain ⟨k, hk⟩ : ∃ k : ℕ, (n.log2 : ℤ) - 52 = -(k : ℤ) := ⟨52 - n.log2, by omega⟩
      have hexp : spacingExponent n = -(k : ℤ) := by
        rw [spacingExponent, abs_of_pos hqpos, Int.log_natCast, ← Nat.log2_eq_log_two, hk]
        omega
      refine nearest_of_multiple hqpos (n * 2 ^ k) ?_
      rw [spacing, hexp, zpow_neg, zpow_natCast]
      push_cast
      field_simp

theorem two_pow_le_maxFinite {n : ℕ} (hn : n ≤ 1000) : (2 : ℚ) ^ n ≤ maxFinite := by
  have hsplit : (2 : ℚ) ^ (1000 : ℤ) = 2 ^ (29 : ℤ) * 2 ^ (971 : ℤ) := zpow_add₀ two_ne_zero 29 971
  calc (2 : ℚ) ^ n = 2 ^ (n : ℤ) := (zpow_natCast 2 n).symm
    _ ≤ 2 ^ (1000 : ℤ) := zpow_le_zpow_right₀ (by norm_num) (by exact_mod_cast hn)
    _ ≤ maxFinite := by
        rw [hsplit, maxFinite]
        refine mul_le_mul_of_nonneg_right ?_ (zpow_pos (by norm_num) 971).le
        norm_num

/-- A count is converted to the number nearest to it. -/
theorem ofCount_nearest {n : ℕ} (hn : n ≤ largestCount) :
    (ofCount n).isFinite = true ∧ value (ofCount n) = nearest n := by
  have hword : (UInt64.ofNat n).toNat = n := UInt64.toNat_ofNat_of_lt (Nat.lt_succ_of_le hn)
  have hrounded := normalize_spec n 0 .positive
  have hcast : ((n : ℤ) : ℚ) * 2 ^ (0 : ℤ) = n := by rw [zpow_zero, mul_one, Int.cast_natCast]
  rw [hcast] at hrounded
  have hsmall : |(n : ℚ)| ≤ maxFinite := by
    rw [Nat.abs_cast]
    calc (n : ℚ) ≤ 2 ^ 64 := by exact_mod_cast Nat.le_succ_of_le hn
      _ ≤ maxFinite := two_pow_le_maxFinite (by norm_num)
  have hunpacked := unpacked_ofCount n
  rw [hword] at hunpacked
  exact finite_of_rounded hunpacked hrounded hsmall

/-- **A count up to 2⁵³ is the number that it is converted to.** -/
theorem ofCount_spec {n : ℕ} (hn : n ≤ 2 ^ 53) :
    (ofCount n).isFinite = true ∧ value (ofCount n) = n := by
  have h := ofCount_nearest (hn.trans (by decide))
  rwa [nearest_natCast hn] at h

theorem isFinite_zero : (0 : Float).isFinite = true := (ofCount_spec (Nat.zero_le _)).1

theorem isFinite_one : (1 : Float).isFinite = true := (ofCount_spec Nat.one_le_two_pow).1

theorem value_zero : value 0 = 0 := by
  have h : value (ofCount 0) = (0 : ℕ) := (ofCount_spec (Nat.zero_le _)).2
  rwa [Nat.cast_zero] at h

theorem value_one : value 1 = 1 := by
  have h : value (ofCount 1) = (1 : ℕ) := (ofCount_spec Nat.one_le_two_pow).2
  rwa [Nat.cast_one] at h

/-- The negative zero is zero as well. -/
theorem negative_zero_spec : (-0.0 : Float).isFinite = true ∧ value (-0.0) = 0 := by
  decide +kernel

/-! ### Near to a rational -/

/-- A finite number that is at most this far from a rational. -/
structure Near (x : Float) (z error : ℚ) : Prop where
  finite : x.isFinite = true
  close : |value x - z| ≤ error

/-- What one rounding adds to the error of a result, as a share of a bound for the result. -/
def roundoff : ℚ := 1 / 9000000000000000

theorem near_value {x : Float} (hx : x.isFinite = true) : Near x (value x) 0 :=
  ⟨hx, by rw [sub_self, abs_zero]⟩

theorem abs_nearest_sub_le_roundoff {z bound : ℚ} (hone : 1 ≤ bound) (hz : |z| ≤ bound) :
    |nearest z - z| ≤ roundoff * bound := by
  have htiny : (2 : ℚ) ^ (-1075 : ℤ) ≤ 2 ^ (-100 : ℤ) :=
    zpow_le_zpow_right₀ (by norm_num) (by norm_num)
  have hhundred : (2 : ℚ) ^ (-100 : ℤ) = 1 / 2 ^ 100 := by
    rw [zpow_neg, one_div]
    norm_cast
  have h := abs_nearest_sub_le z
  rw [hhundred] at htiny
  unfold roundoff
  linarith

theorem roundoff_mul_nonneg {bound : ℚ} (h : 0 ≤ bound) : 0 ≤ roundoff * bound := by
  unfold roundoff
  linarith

theorem roundoff_mul_le {bound : ℚ} (h : 0 ≤ bound) : roundoff * bound ≤ bound / 1000000 := by
  unfold roundoff
  linarith

namespace Near

variable {x y : Float} {z z' error error' bound : ℚ}

theorem nonneg (h : Near x z error) : 0 ≤ error := (abs_nonneg _).trans h.close

theorem abs_value_le (h : Near x z error) : |value x| ≤ |z| + error := by
  have := abs_sub_abs_le_abs_sub (value x) z
  linarith [h.close]

theorem mono (h : Near x z error) (hle : error ≤ error') : Near x z error' :=
  ⟨h.finite, h.close.trans hle⟩

/-- One rounding on top of an exact result that is itself off by some error. -/
theorem of_rounded {exact : ℚ} (hx : x.isFinite = true ∧ value x = nearest exact)
    (hone : 1 ≤ bound) (hbound : |exact| ≤ bound) (hclose : |exact - z| ≤ error) :
    Near x z (error + roundoff * bound) := by
  refine ⟨hx.1, ?_⟩
  rw [hx.2]
  calc |nearest exact - z| ≤ |nearest exact - exact| + |exact - z| := abs_sub_le _ _ _
    _ ≤ error + roundoff * bound := by
        linarith [abs_nearest_sub_le_roundoff hone hbound]

theorem add (hx : Near x z error) (hy : Near y z' error') (hone : 1 ≤ bound)
    (hmax : bound ≤ maxFinite) (hbound : |z| + |z'| + (error + error') ≤ bound) :
    Near (x + y) (z + z') (error + error' + roundoff * bound) := by
  have hsize : |value x + value y| ≤ bound := by
    linarith [abs_add_le (value x) (value y), hx.abs_value_le, hy.abs_value_le]
  refine of_rounded (add_spec hx.finite hy.finite (hsize.trans hmax)) hone hsize ?_
  rw [add_sub_add_comm]
  exact (abs_add_le _ _).trans (add_le_add hx.close hy.close)

theorem sub (hx : Near x z error) (hy : Near y z' error') (hone : 1 ≤ bound)
    (hmax : bound ≤ maxFinite) (hbound : |z| + |z'| + (error + error') ≤ bound) :
    Near (x - y) (z - z') (error + error' + roundoff * bound) := by
  have hsize : |value x - value y| ≤ bound := by
    linarith [abs_sub (value x) (value y), hx.abs_value_le, hy.abs_value_le]
  refine of_rounded (sub_spec hx.finite hy.finite (hsize.trans hmax)) hone hsize ?_
  rw [sub_sub_sub_comm]
  exact (abs_sub _ _).trans (add_le_add hx.close hy.close)

theorem mul (hx : Near x z error) (hy : Near y z' error') (hone : 1 ≤ bound)
    (hmax : bound ≤ maxFinite) (hbound : (|z| + error) * (|z'| + error') ≤ bound) :
    Near (x * y) (z * z') ((|z| + error) * error' + error * |z'| + roundoff * bound) := by
  have hsize : |value x * value y| ≤ bound := by
    rw [abs_mul]
    exact (mul_le_mul hx.abs_value_le hy.abs_value_le (abs_nonneg _)
      (add_nonneg (abs_nonneg z) hx.nonneg)).trans hbound
  refine of_rounded (mul_spec hx.finite hy.finite (hsize.trans hmax)) hone hsize ?_
  have hsplit : value x * value y - z * z' = value x * (value y - z') + (value x - z) * z' := by ring
  rw [hsplit]
  refine (abs_add_le _ _).trans (add_le_add ?_ ?_)
  · rw [abs_mul]
    exact mul_le_mul hx.abs_value_le hy.close (abs_nonneg _) (add_nonneg (abs_nonneg z) hx.nonneg)
  · rw [abs_mul]
    exact mul_le_mul_of_nonneg_right hx.close (abs_nonneg z')

end Near

end Binary64

end AdaptiveMtu
