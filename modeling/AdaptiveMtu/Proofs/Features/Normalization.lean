/-
When a measurement normalizes to zero.

A missing measurement normalizes to zero, and so does one at its mean.  No other does: the means are not
small, so a number next to a mean is further from it than anything that could be lost in dividing by a
deviation.  Infinite measurements and NaN do not normalize to zero either.
-/
import AdaptiveMtu.Features.Vector
import AdaptiveMtu.Proofs.Binary64.Overflow

namespace AdaptiveMtu

open Binary64

/-- The size of the means and deviations that measurements are normalized by. -/
structure Field.Scaled (field : Field) : Prop where
  mean_finite : field.mean.isFinite = true
  mean_ge : 1 / 128 ≤ value field.mean
  deviation_finite : field.deviation.isFinite = true
  deviation_ge : 1 / 64 ≤ value field.deviation
  deviation_le : value field.deviation ≤ 2 ^ 22

theorem Field.mem_all (field : Field) : field ∈ Field.all := by
  cases field <;> decide

theorem Field.scaled (field : Field) : field.Scaled := by
  have hall : ∀ field ∈ Field.all, (field.mean.isFinite = true ∧ 1 / 128 ≤ value field.mean) ∧
      field.deviation.isFinite = true ∧ 1 / 64 ≤ value field.deviation ∧
        value field.deviation ≤ 2 ^ 22 := by
    decide +kernel
  obtain ⟨⟨hmean, hge⟩, hdeviation, hlower, hupper⟩ := hall field field.mem_all
  exact ⟨hmean, hge, hdeviation, hlower, hupper⟩

namespace Field.Scaled

variable {field : Field} {x : Float}

theorem deviation_ne_zero (h : field.Scaled) : value field.deviation ≠ 0 := by
  have hge := h.deviation_ge
  exact (by linarith : 0 < value field.deviation).ne'

/-- A number at the mean normalizes to zero. -/
theorem normalizes_to_zero (h : field.Scaled) (hx : x.isFinite = true)
    (hmean : value x = value field.mean) :
    ((x - field.mean) / field.deviation).isFinite = true ∧
      value ((x - field.mean) / field.deviation) = 0 := by
  have hsub : (x - field.mean).isFinite = true ∧ value (x - field.mean) = 0 := by
    have hexact : value x - value field.mean = 0 := sub_eq_zero.mpr hmean
    have hspec := sub_spec hx h.mean_finite (by rw [hexact, abs_zero]; exact maxFinite_pos.le)
    rwa [hexact, nearest_zero] at hspec
  have hexact : value (x - field.mean) / value field.deviation = 0 := by rw [hsub.2, zero_div]
  have hspec := div_spec hsub.1 h.deviation_finite h.deviation_ne_zero
    (by rw [hexact, abs_zero]; exact maxFinite_pos.le)
  rwa [hexact, nearest_zero] at hspec

/-- **A number that normalizes to zero is at the mean.** -/
theorem mean_of_normalizes_to_zero (h : field.Scaled)
    (hfinite : ((x - field.mean) / field.deviation).isFinite = true)
    (hzero : value ((x - field.mean) / field.deviation) = 0) :
    x.isFinite = true ∧ value x = value field.mean := by
  have hsub : (x - field.mean).isFinite = true := isFinite_of_div hfinite
  have hx : x.isFinite = true := (isFinite_of_sub hsub).1
  refine ⟨hx, ?_⟩
  by_contra hne
  -- Next to a mean all numbers are multiples of 2⁻⁶⁰, and a deviation is below 2²².
  have hmean : (2 : ℚ) ^ ((-60 : ℤ) + 53) ≤ |value field.mean| :=
    calc (2 : ℚ) ^ ((-60 : ℤ) + 53) = 1 / 128 := by norm_num
      _ ≤ value field.mean := h.mean_ge
      _ ≤ |value field.mean| := le_abs_self _
  have hdiff : (2 : ℚ) ^ (-60 : ℤ) ≤ |value (x - field.mean)| := by
    have hvalue : value (x - field.mean) = nearest (value x - value field.mean) := by
      rw [value_eq hx, value_eq h.mean_finite]
      exact value_of_rounded (unpacked_sub x field.mean)
        (sub_rounded (fits_unpacked hx) (fits_unpacked h.mean_finite)) hsub
    rw [hvalue]
    exact zpow_le_abs_nearest (by norm_num) (zpow_le_abs_sub hmean hne)
  have hquotient : (2 : ℚ) ^ (-82 : ℤ) ≤ |value (x - field.mean) / value field.deviation| := by
    have hpos : 0 < value field.deviation := by linarith [h.deviation_ge]
    rw [abs_div, abs_of_pos hpos, le_div_iff₀ hpos]
    calc (2 : ℚ) ^ (-82 : ℤ) * value field.deviation ≤ 2 ^ (-82 : ℤ) * 2 ^ 22 :=
          mul_le_mul_of_nonneg_left h.deviation_le (zpow_pos two_pos _).le
      _ = 2 ^ (-60 : ℤ) := by norm_num
      _ ≤ |value (x - field.mean)| := hdiff
  have hvalue : value ((x - field.mean) / field.deviation)
      = nearest (value (x - field.mean) / value field.deviation) := by
    have hne := h.deviation_ne_zero
    rw [value_eq h.deviation_finite] at hne
    rw [value_eq hsub, value_eq h.deviation_finite]
    exact value_of_rounded (unpacked_div _ _)
      (div_rounded (fits_unpacked hsub) (fits_unpacked h.deviation_finite) hne) hfinite
  have hlarge := zpow_le_abs_nearest (by norm_num) hquotient
  rw [← hvalue, hzero, abs_zero] at hlarge
  exact absurd hlarge (zpow_pos two_pos _).not_ge

end Field.Scaled

/-- **What normalizes to zero is what is missing or at its mean.** -/
theorem FeatureVector.normalizedValue_beq_zero_iff (v : FeatureVector) (field : Field) :
    (v.normalizedValue field == 0) = true ↔ ∀ x ∈ v.get? field, (x == field.mean) = true := by
  have hscaled := field.scaled
  cases hget : v.get? field with
  | none =>
      have hvalue : v.normalizedValue field = 0 := by rw [normalizedValue, hget]
      rw [hvalue]
      exact iff_of_true (beq_self isFinite_zero) fun x hx => by cases hx
  | some x =>
      have hvalue : v.normalizedValue field = (x - field.mean) / field.deviation := by
        rw [normalizedValue, hget]
      rw [hvalue]
      constructor
      · intro h y hy
        cases hy
        have hfinite := isFinite_of_beq isFinite_zero h
        rw [beq_iff hfinite isFinite_zero, value_zero] at h
        obtain ⟨hx, hmean⟩ := hscaled.mean_of_normalizes_to_zero hfinite h
        exact (beq_iff hx hscaled.mean_finite).mpr hmean
      · intro h
        have hmean := h x rfl
        have hx := isFinite_of_beq hscaled.mean_finite hmean
        obtain ⟨hfinite, hzero⟩ := hscaled.normalizes_to_zero hx
          ((beq_iff hx hscaled.mean_finite).mp hmean)
        rw [beq_iff hfinite isFinite_zero, hzero, value_zero]

end AdaptiveMtu
