/-
Weights that stay finite, and sums of them that do not.

Whatever a model is taught, its weights stay finite, also when steps in between do not.  Its weighted sum
may still be beyond the finite range.  But adding up terms that are smaller than half of the largest spacing
cannot leave the range, even if the constant weight is the largest number there is, so one of the terms has to
be larger than that, and its input is not near zero.
-/
import AdaptiveMtu.Proofs.Features.Normalization
import AdaptiveMtu.Proofs.Linear.Descent
import AdaptiveMtu.Proofs.Linear.Recovery
import AdaptiveMtu.Proofs.Linear.Starting
import AdaptiveMtu.Proofs.Model.Range

namespace AdaptiveMtu

open Binary64

namespace Weights

/-! ### The weighted sum, measurement by measurement -/

theorem dot_eq_foldl_fields (w : Weights) (v : FeatureVector) :
    w.dot v = Field.all.foldl (fun sum field => sum + w.of field * v.normalizedValue field)
      (-0.0 + w.get 0 * 1) := by
  have hplaces : List.finRange 9 = 0 :: Field.all.map Field.place := rfl
  rw [dot_eq_foldl, hplaces, List.foldl_cons, List.foldl_map]
  simp only [FeatureVector.input_place]
  rfl

/-- The sum starts with the constant weight as it is. -/
theorem isFinite_constant {x : Float} (hx : x.isFinite = true) : (-0.0 + x * 1).isFinite = true := by
  obtain ⟨hnegative, hzero⟩ := negative_zero_spec
  have hproduct : (x * 1).isFinite = true := by
    refine (mul_spec hx isFinite_one ?_).1
    rw [value_one, mul_one]
    exact abs_value_le_maxFinite hx
  refine (add_spec hnegative hproduct ?_).1
  rw [hzero, zero_add]
  exact abs_value_le_maxFinite hproduct

variable {w : Weights} {v : FeatureVector}

/-- **A sum of finite terms that are not very large is finite.** -/
theorem isFinite_dot (hw : w.allFinite = true)
    (hv : ∀ field, (v.normalizedValue field).isFinite = true ∧
      |value (w.of field) * value (v.normalizedValue field)| ≤ 2 ^ 969) :
    (w.dot v).isFinite = true := by
  have hget := w.allFinite_iff_get.mp hw
  rw [dot_eq_foldl_fields]
  refine isFinite_foldl_add (isFinite_constant (hget 0)) ?_
  intro field _
  obtain ⟨hinput, hsmall⟩ := hv field
  obtain ⟨hfinite, hle⟩ := mul_le_two_pow (by norm_num) (hget field.place) hinput hsmall
  refine ⟨hfinite, hle.trans_lt ?_⟩
  rw [← zpow_natCast]
  exact zpow_lt_zpow_right₀ one_lt_two (by norm_num)

/-- A sum that is finite has finite inputs. -/
theorem isFinite_normalizedValue_of_dot (h : (w.dot v).isFinite = true) (field : Field) :
    (v.normalizedValue field).isFinite = true := by
  rw [dot_eq_foldl_fields] at h
  exact (isFinite_of_mul ((isFinite_of_foldl_add h).2 field field.mem_all)).2

end Weights

namespace Learner

variable {m : Learner} {v : FeatureVector}

/-- What can be wrong with an input: it is not finite, or it is not near zero and large for its weight. -/
theorem exists_large_of_predict_error {fault : Error} (hm : m.weights.allFinite = true)
    (h : m.predict v = .error fault) :
    ∃ field, (v.normalizedValue field).isFinite = false ∨
      2 ^ (-55 : ℤ) < |value (v.normalizedValue field)| ∧
        2 ^ 969 < |value (m.weights.of field) * value (v.normalizedValue field)| := by
  by_contra hnone
  push Not at hnone
  have hget := m.weights.allFinite_iff_get.mp hm
  have hdot : (m.weights.dot v).isFinite = true := by
    refine Weights.isFinite_dot hm ?_
    intro field
    obtain ⟨hfinite, hsmall⟩ := hnone field
    refine ⟨Bool.ne_false_iff.mp hfinite, ?_⟩
    -- No weight reaches 2¹⁰²⁴, so that a tiny input has a small product with any weight.
    rcases lt_or_ge (2 ^ (-55 : ℤ)) |value (v.normalizedValue field)| with hlarge | htiny
    · exact hsmall hlarge
    · have hweight : |value (m.weights.of field)| ≤ 2 ^ (1024 : ℤ) :=
        (abs_value_le_maxFinite (hget field.place)).trans maxFinite_lt.le
      have hpow : (2 : ℚ) ^ 969 = 2 ^ (1024 : ℤ) * 2 ^ (-55 : ℤ) := by
        rw [← zpow_add₀ two_ne_zero]
        exact (zpow_natCast 2 969).symm
      rw [abs_mul, hpow]
      exact mul_le_mul hweight htiny (abs_nonneg _) (zpow_pos two_pos _).le
  rw [predict_of_finite hdot] at h
  cases h

/-- Nothing is known of the path, so that nothing can be wrong with it. -/
theorem exists_predict_empty (hm : m.weights.allFinite = true) : ∃ mtu, m.predict .empty = .ok mtu := by
  have hdot : (m.weights.dot .empty).isFinite = true := by
    refine Weights.isFinite_dot hm ?_
    intro field
    have hzero : FeatureVector.empty.normalizedValue field = 0 := by cases field <;> rfl
    rw [hzero, value_zero, mul_zero, abs_zero]
    exact ⟨isFinite_zero, by positivity⟩
  exact ⟨_, predict_of_finite hdot⟩

/-- **Weights stay finite, and the rate stays what it was.**  After any samples, whether they were
accepted or not, a model fails only to answer for inputs that are not finite or too large for its weights;
it does fail for all that are not finite, and it answers if nothing is known of the path. -/
theorem weights_stay_finite {bounds : MtuBounds} {start : Learner} (h : Begun bounds start)
    (samples : List (FeatureVector × Nat)) :
    let m := start.learnAll samples
    m.weights.allFinite = true ∧ m.rate = start.rate ∧ m.rate.isFinite = true ∧ 0 < m.rate ∧
    (∀ v fault, m.predict v = .error fault →
      ∃ field, (v.normalizedValue field).isFinite = false ∨
        2 ^ (-55 : ℤ) < |value (v.normalizedValue field)| ∧
          2 ^ 969 < |value (m.weights.of field) * value (v.normalizedValue field)|) ∧
    (∀ v field, (v.normalizedValue field).isFinite = false →
      ∃ fault, m.predict v = .error fault) ∧
    ∃ mtu, m.predict .empty = .ok mtu := by
  intro m
  have hsound : m.Sound := h.sound.learnAll samples
  have hfinite := hsound.weights_finite
  refine ⟨hfinite, (h.taught samples).rate, hsound.rate_finite, hsound.rate_pos, ?_, ?_, ?_⟩
  · intro v fault hfault
    exact exists_large_of_predict_error hfinite hfault
  · intro v field hinput
    rw [predict_error_iff, ← Bool.not_eq_true]
    intro hdot
    rw [Weights.isFinite_normalizedValue_of_dot hdot field] at hinput
    cases hinput
  · exact exists_predict_empty hfinite

/-- Of a sample that makes it diverge, a model keeps finite weights; it goes on to fail for a round-trip time
that is no number, and to answer for a path that nothing is known of. -/
theorem far_too_fast_leaves_finite_weights :
    let m := (fresh .full).learnAll [(farTooFast, 1500)]
    Begun .full (fresh .full) ∧
    ((fresh .full).update farTooFast 1500).1 = .error (.prediction .diverged) ∧
    m.weights.allFinite = true ∧ m.rate = defaultRate ∧
    (∃ fault, m.predict { FeatureVector.empty with rtt := some nan } = .error fault) ∧
    ∃ mtu, m.predict .empty = .ok mtu := by
  intro m
  have hbegun : Begun .full (fresh .full) := .fresh
  obtain ⟨hfinite, hrate, -, -, -, hfails, hempty⟩ :=
    weights_stay_finite hbegun [(farTooFast, 1500)]
  refine ⟨hbegun, farTooFast_diverges .full, hfinite, hrate, hfails _ .rtt ?_, hempty⟩
  decide +kernel

end Learner

end AdaptiveMtu
