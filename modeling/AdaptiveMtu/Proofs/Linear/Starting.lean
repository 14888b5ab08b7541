/-
How linear models come about.

A model starts with the initial weights and the default rate, or with those of an artifact that was
accepted, and with no samples either way.  An artifact is accepted only if its weights and its rate are
finite and the rate is above zero; the same is true of the initial weights and the default rate, and stays
true whatever the model is taught.
-/
import AdaptiveMtu.Linear.Artifact
import AdaptiveMtu.Proofs.Binary64.Extended
import AdaptiveMtu.Proofs.Linear.Memory

namespace AdaptiveMtu

open Binary64

/-! ### Sound models -/

namespace Learner

/-- The weights and the rate are finite, and the rate is above zero. -/
structure Sound (m : Learner) : Prop where
  weights_finite : m.weights.allFinite = true
  rate_finite : m.rate.isFinite = true
  rate_pos : 0 < m.rate

theorem sound_fresh (bounds : MtuBounds) : (fresh bounds).Sound := by
  have h : Weights.initial.allFinite = true ∧ defaultRate.isFinite = true ∧ 0 < defaultRate := by
    decide +kernel
  exact ⟨h.1, h.2.1, h.2.2⟩

variable {m : Learner} {bounds : MtuBounds}

/-- **An update keeps a model sound, whatever came of it**: weights are taken over only if they are finite. -/
theorem Sound.learn (h : m.Sound) (sample : FeatureVector × Nat) : (m.learn sample).Sound := by
  unfold Learner.learn
  rcases m.update_cases sample.1 sample.2 with ⟨hfinite, heq⟩ | ⟨-, heq⟩
  · rw [heq]
    exact ⟨hfinite, h.rate_finite, h.rate_pos⟩
  · rw [heq]
    exact ⟨(sound_fresh m.bounds).weights_finite, h.rate_finite, h.rate_pos⟩

theorem Sound.learnAll (h : m.Sound) (samples : List (FeatureVector × Nat)) :
    (m.learnAll samples).Sound := by
  induction samples generalizing m with
  | nil => exact h
  | cons sample rest ih => exact ih (h.learn sample)

end Learner

/-! ### Artifacts that are accepted -/

namespace Artifact

variable {bounds : MtuBounds} {m : Learner}

theorem spec_of_toLearner {a : Artifact} (h : a.toLearner bounds = .ok m) :
    m.Sound ∧ m = Learner.withWeights m.weights m.rate bounds := by
  unfold toLearner at h
  split at h
  · cases h
  · dsimp only at h
    split_ifs at h with hweights hrate
    cases h
    have hfinite : ¬ (!(a.rate.getD Learner.defaultRate).isFinite) = true := by
      intro hinfinite
      exact hrate (by rw [hinfinite, Bool.true_or])
    rw [Bool.not_eq_true', Bool.not_eq_false] at hweights hfinite
    have hpos : 0 < a.rate.getD Learner.defaultRate := by
      rw [lt_iff isFinite_zero hfinite, ← not_le, ← le_iff hfinite isFinite_zero]
      intro hle
      exact hrate (by rw [decide_eq_true hle, Bool.or_true])
    exact ⟨⟨hweights, hfinite, hpos⟩, rfl⟩

/-- An artifact with the weights and the rate of a sound model is accepted. -/
theorem toLearner_of_sound (h : m.Sound) :
    (Artifact.mk m.weights.toList (some m.rate)).toLearner bounds
      = .ok (Learner.withWeights m.weights m.rate bounds) := by
  have hlist : Weights.ofList? m.weights.toList = some m.weights := dif_pos m.weights.length_eq
  have hrate : decide (m.rate ≤ 0) = false :=
    decide_eq_false fun hle => not_lt_of_le hle h.rate_pos
  rw [toLearner, hlist]
  simp [h.weights_finite, h.rate_finite, hrate]

/-- **What an artifact is accepted as is sound**, and has not seen any samples. -/
theorem spec_of_load {read : TextReader} {path : String} (h : load read path bounds = .ok m) :
    m.Sound ∧ m = Learner.withWeights m.weights m.rate bounds := by
  unfold load at h
  split at h
  · cases h
  · split at h
    · cases h
    · exact spec_of_toLearner h

end Artifact

namespace Learner

/-! ### Models that have not been taught anything -/

/-- A model as it comes about: without an artifact, or from one that was accepted. -/
inductive Begun (bounds : MtuBounds) : Learner → Prop where
  | fresh : Begun bounds (fresh bounds)
  | loaded {read : TextReader} {path : String} {m : Learner}
      (h : Artifact.load read path bounds = .ok m) : Begun bounds m

variable {bounds : MtuBounds} {m : Learner}

theorem Begun.sound (h : Begun bounds m) : m.Sound := by
  cases h with
  | fresh => exact sound_fresh bounds
  | loaded h => exact (Artifact.spec_of_load h).1

theorem Begun.eq_withWeights (h : Begun bounds m) : m = withWeights m.weights m.rate bounds := by
  cases h with
  | fresh => rfl
  | loaded h => exact (Artifact.spec_of_load h).2

theorem Begun.taught (h : Begun bounds m) (samples : List (FeatureVector × Nat)) :
    Taught m.rate bounds samples (m.learnAll samples) := by
  have hstart := taught_withWeights m.weights m.rate bounds
  rw [← h.eq_withWeights] at hstart
  exact hstart.learnAll samples

end Learner

end AdaptiveMtu
