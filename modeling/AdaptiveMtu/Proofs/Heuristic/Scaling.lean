/-
Scaling by a factor that is only stored nearly.

No factor of the heuristics is a binary64 number, and some are stored below their fraction, so a product that
ought to be whole may be computed just below it, before it is cut down.  It never comes out below, because a
product that is that near to a whole number is rounded to it: `le_nearest` is the step that a bound on
the error alone cannot take.  Up to `exactLimit` the outcome is therefore the one of whole numbers; above it
both are large, and nothing else is needed of them.
-/
import AdaptiveMtu.Heuristic.Conditions
import AdaptiveMtu.Proofs.Binary64.Order
import AdaptiveMtu.Proofs.Binary64.Quotient

namespace AdaptiveMtu

namespace Binary64

/-! ### Rounding reaches the whole number above -/

/-- Below 2⁵³ whole numbers are multiples of the spacing. -/
theorem natCast_eq_mul_spacing {z : ℚ} (hz : 0 < z) (hlt : z < 2 ^ 53) (m : ℕ) :
    ∃ k : ℕ, (m : ℚ) = k * spacing z := by
  have hlog : Int.log 2 |z| < 53 := by
    rw [abs_of_pos hz, ← Int.lt_zpow_iff_log_lt Nat.one_lt_two hz]
    exact_mod_cast hlt
  obtain ⟨j, hj⟩ : ∃ j : ℕ, spacingExponent z = -(j : ℤ) := by
    refine ⟨(-spacingExponent z).toNat, ?_⟩
    unfold spacingExponent
    omega
  refine ⟨m * 2 ^ j, ?_⟩
  rw [spacing, hj, zpow_neg, zpow_natCast]
  push_cast
  field_simp

/-- **A number that misses a whole number by less than 2⁻⁵⁴ of itself is rounded up to it.** -/
theorem le_nearest {z : ℚ} {m : ℕ} (hz : 0 < z) (hlt : z < 2 ^ 53) (hclose : (m - z) * 2 ^ 54 ≤ z) :
    m ≤ nearest z := by
  obtain ⟨k, hk⟩ := natCast_eq_mul_spacing hz hlt m
  have hspacing := spacing_pos z
  have hhalf : z < 2 ^ 53 * spacing z := by
    have := abs_div_spacing_lt z
    rwa [abs_of_pos hz, div_lt_iff₀ hspacing] at this
  rw [nearest_of_pos hz, hk]
  refine mul_le_mul_of_nonneg_right ?_ hspacing.le
  have hbelow : (k : ℚ) - 1 / 2 < z / spacing z := by
    rw [lt_div_iff₀ hspacing]
    rw [hk] at hclose
    linarith
  rcases le_or_gt (k : ℚ) (z / spacing z) with hle | hgt
  · exact_mod_cast le_roundEven hle
  · rw [roundEven_eq hbelow.le (by linarith) fun _ => ⟨hbelow, by linarith⟩]

end Binary64

open Binary64

/-! ### Factors -/

/-- A factor that stands for a fraction with a small denominator.  It may be stored below its fraction, but only
by 2⁻⁵⁴ of itself. -/
structure StandsForFraction (factor : Float) (num den : ℕ) : Prop where
  finite : factor.isFinite = true
  den_pos : 0 < den
  den_le : den ≤ 20
  num_ge : 4 * den ≤ 5 * num
  num_le : num ≤ 2 * den
  above : (num : ℚ) / den ≤ value factor * (1 + 1 / 2 ^ 54)
  below : value factor ≤ num / den + 1 / 2 ^ 52

theorem fourFifths : StandsForFraction 0.8 4 5 := by
  constructor <;> decide +kernel

theorem seventeenTwentieths : StandsForFraction 0.85 17 20 := by
  constructor <;> decide +kernel

theorem nineTenths : StandsForFraction 0.9 9 10 := by
  constructor <;> decide +kernel

theorem nineteenTwentieths : StandsForFraction 0.95 19 20 := by
  constructor <;> decide +kernel

theorem twentyOneTwentieths : StandsForFraction 1.05 21 20 := by
  constructor <;> decide +kernel

theorem elevenTenths : StandsForFraction 1.1 11 10 := by
  constructor <;> decide +kernel

theorem thirteenTenths : StandsForFraction 1.3 13 10 := by
  constructor <;> decide +kernel

/-! ### Scaling -/

/-- MTUs up to this one are scaled exactly. -/
def exactLimit : ℕ := 2 ^ 44

namespace StandsForFraction

variable {factor : Float} {num den : ℕ}

theorem value_bounds (h : StandsForFraction factor num den) :
    1 / 2 ≤ value factor ∧ value factor ≤ 4 := by
  have hpos : (0 : ℚ) < den := by exact_mod_cast h.den_pos
  have hge : (4 / 5 : ℚ) ≤ num / den := by
    rw [div_le_div_iff₀ (by norm_num) hpos]
    exact_mod_cast (by have := h.num_ge; omega : 4 * den ≤ num * 5)
  have hle : (num : ℚ) / den ≤ 2 := by
    rw [div_le_iff₀ hpos]
    exact_mod_cast h.num_le
  have habove := h.above
  have hbelow := h.below
  constructor <;> linarith

/-- A count times a factor is the nearest number to the product of what both are. -/
theorem product_spec (h : StandsForFraction factor num den) {n : ℕ} (hn : n ≤ largestCount) :
    (ofCount n * factor).isFinite = true ∧
      value (ofCount n * factor) = nearest (nearest n * value factor) := by
  obtain ⟨hfinite, hvalue⟩ := ofCount_nearest hn
  obtain ⟨hlow, hhigh⟩ := h.value_bounds
  have hnonneg : 0 ≤ nearest (n : ℚ) := nearest_nonneg n.cast_nonneg
  have hcount : nearest (n : ℚ) ≤ 2 ^ 65 := by
    have hsize : |(n : ℚ)| ≤ 2 ^ 64 := by
      rw [Nat.abs_cast]
      exact_mod_cast Nat.le_succ_of_le hn
    have hclose := (abs_le.mp (abs_nearest_sub_le_roundoff (by norm_num) hsize)).2
    have hroundoff : roundoff * 2 ^ 64 ≤ 2 ^ 64 / 1000000 := roundoff_mul_le (by norm_num)
    have := (abs_le.mp hsize).2
    linarith
  have hmax : |value (ofCount n) * value factor| ≤ maxFinite := by
    rw [hvalue, abs_of_nonneg (mul_nonneg hnonneg (by linarith))]
    calc nearest n * value factor ≤ 2 ^ 65 * 4 := mul_le_mul hcount hhigh (by linarith) (by norm_num)
      _ ≤ 2 ^ 67 := by norm_num
      _ ≤ maxFinite := two_pow_le_maxFinite (by norm_num)
  rw [← hvalue]
  exact mul_spec hfinite h.finite hmax

/-- The product misses the fraction by so little that it is cut down to the same whole number. -/
theorem nearest_mem (h : StandsForFraction factor num den) {n : ℕ} (hn : n ≤ exactLimit) :
    ((n * num / den : ℕ) : ℚ) ≤ nearest (n * value factor) ∧
      nearest (n * value factor) < (n * num / den : ℕ) + 1 := by
  obtain ⟨m, hm⟩ : ∃ m, n * num / den = m := ⟨_, rfl⟩
  obtain ⟨hlow, hhigh⟩ := h.value_bounds
  have hden : (0 : ℚ) < den := by exact_mod_cast h.den_pos
  have hcount : (0 : ℚ) ≤ n := n.cast_nonneg
  have hlimit : (n : ℚ) ≤ 2 ^ 44 := by exact_mod_cast hn
  have hsize : (n : ℚ) * value factor ≤ 2 ^ 46 := by
    calc (n : ℚ) * value factor ≤ 2 ^ 44 * 4 := mul_le_mul hlimit hhigh (by linarith) (by norm_num)
      _ = 2 ^ 46 := by norm_num
  have habove : (n : ℚ) * (num / den) ≤ n * (value factor * (1 + 1 / 2 ^ 54)) :=
    mul_le_mul_of_nonneg_left h.above hcount
  have hbelow : (n : ℚ) * value factor ≤ n * (num / den + 1 / 2 ^ 52) :=
    mul_le_mul_of_nonneg_left h.below hcount
  rw [hm]
  constructor
  · have hfloor : (m : ℚ) ≤ n * (num / den) := by
      rw [← mul_div_assoc, le_div_iff₀ hden, ← hm]
      exact_mod_cast Nat.div_mul_le_self (n * num) den
    rcases n.eq_zero_or_pos with rfl | hpos
    · rw [Nat.zero_mul, Nat.zero_div] at hm
      rw [← hm, Nat.cast_zero, zero_mul, nearest_zero]
    · have hproduct : 0 < (n : ℚ) * value factor :=
        mul_pos (by exact_mod_cast hpos) (by linarith)
      refine le_nearest hproduct (by linarith) ?_
      linarith
  · -- The fraction is at least a twentieth below the next whole number, and the errors are smaller.
    have hnext : (n : ℚ) * (num / den) ≤ m + 1 - 1 / 20 := by
      have hrest : n * num + 1 ≤ (m + 1) * den := by
        rw [← hm, Nat.mul_comm _ den]
        exact Nat.lt_mul_div_succ _ h.den_pos
      have htwentieth : (1 : ℚ) / 20 ≤ 1 / den :=
        one_div_le_one_div_of_le hden (by exact_mod_cast h.den_le)
      have : (n : ℚ) * (num / den) ≤ m + 1 - 1 / den := by
        rw [← mul_div_assoc, div_le_iff₀ hden, sub_mul, one_div, inv_mul_cancel₀ hden.ne']
        have : ((n * num + 1 : ℕ) : ℚ) ≤ ((m + 1) * den : ℕ) := by exact_mod_cast hrest
        push_cast at this
        linarith
      linarith
    have hround : |nearest (n * value factor) - n * value factor| ≤ roundoff * 2 ^ 46 := by
      refine abs_nearest_sub_le_roundoff (by norm_num) ?_
      rwa [abs_of_nonneg (mul_nonneg hcount (by linarith))]
    have hclose := (abs_le.mp hround).2
    unfold roundoff at hclose
    linarith

/-- **An MTU that is not too large is scaled as by its fraction in whole numbers.** -/
theorem scaleMtu_eq (h : StandsForFraction factor num den) {n : ℕ} (hn : n ≤ exactLimit) :
    scaleMtu n factor = n * num / den := by
  have hcount : n ≤ largestCount := hn.trans (by decide)
  obtain ⟨hfinite, hvalue⟩ := h.product_spec hcount
  obtain ⟨hlow, hhigh⟩ := h.nearest_mem hn
  rw [nearest_natCast (hn.trans (by decide))] at hvalue
  have hfloor : ⌊value (ofCount n * factor)⌋₊ = n * num / den := by
    rw [hvalue, Nat.floor_eq_iff ((Nat.cast_nonneg _).trans hlow)]
    exact ⟨hlow, hhigh⟩
  have hmax : n * num / den ≤ largestCount :=
    calc n * num / den ≤ n * (2 * den) / den :=
          Nat.div_le_div_right (Nat.mul_le_mul_left n h.num_le)
      _ = n * 2 := by rw [← Nat.mul_assoc, Nat.mul_div_cancel _ h.den_pos]
      _ ≤ largestCount := by
          unfold exactLimit at hn
          unfold largestCount
          omega
  rw [scaleMtu, truncate_eq hfinite, hfloor, Nat.min_eq_left hmax]

/-- An MTU that is large stays so. -/
theorem le_scaleMtu (h : StandsForFraction factor num den) {n low : ℕ} (hn : n ≤ largestCount)
    (hlow : 2 * low ≤ n) (hlimit : low ≤ exactLimit) : low ≤ scaleMtu n factor := by
  obtain ⟨hfinite, hvalue⟩ := h.product_spec hn
  have hlarge : ((2 * low : ℕ) : ℚ) ≤ nearest n := by
    rw [← nearest_natCast (n := 2 * low) (by unfold exactLimit at hlimit; omega)]
    exact nearest_mono (by exact_mod_cast hlow)
  have hproduct : (low : ℚ) ≤ nearest n * value factor := by
    push_cast at hlarge
    have := mul_le_mul hlarge h.value_bounds.1 (by norm_num) (nearest_nonneg n.cast_nonneg)
    linarith
  have hfloor : low ≤ ⌊value (ofCount n * factor)⌋₊ := by
    refine Nat.le_floor ?_
    rw [hvalue, ← nearest_natCast (n := low) (hlimit.trans (by decide))]
    exact nearest_mono hproduct
  rw [scaleMtu, truncate_eq hfinite]
  exact Nat.le_min.mpr ⟨hfloor, hlimit.trans (by decide)⟩

theorem le_mul_div (h : StandsForFraction factor num den) {n low : ℕ} (hlow : 2 * low ≤ n) :
    low ≤ n * num / den := by
  rw [Nat.le_div_iff_mul_le h.den_pos]
  have hden : den ≤ 2 * num := by
    have := h.num_ge
    omega
  calc low * den ≤ low * (2 * num) := Nat.mul_le_mul_left low hden
    _ = 2 * low * num := by rw [← Nat.mul_assoc, Nat.mul_comm low 2]
    _ ≤ n * num := Nat.mul_le_mul_right num hlow

end StandsForFraction

end AdaptiveMtu
