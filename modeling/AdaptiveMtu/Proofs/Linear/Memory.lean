/-
What a linear model does with its samples over time.

A model is taught a list of samples, one update after the other.  Whether these updates succeed or
not, each sample is remembered, the rate and the bounds stay, and the weights after an update are those of
the replay or the initial ones.  `Taught` is the invariant that says so of the list of all samples;
from it the outcome of any later update can be read as a replay of the last of them.
-/
import AdaptiveMtu.Linear.Learner
import AdaptiveMtu.Proofs.BoundedLog

namespace AdaptiveMtu

theorem Weights.descendAll_concat (rate : Float) (w : Weights)
    (samples : List (FeatureVector × Nat)) (sample : FeatureVector × Nat) :
    w.descendAll rate (samples ++ [sample]) = (w.descendAll rate samples).descend rate sample := by
  simp only [descendAll, List.foldl_append, List.foldl_cons, List.foldl_nil]

namespace Learner

/-- A model after one update, whatever came of it. -/
def learn (m : Learner) (sample : FeatureVector × Nat) : Learner := (m.update sample.1 sample.2).2

/-- A model after updates with all of the given samples, in order. -/
def learnAll (m : Learner) (samples : List (FeatureVector × Nat)) : Learner := samples.foldl learn m

/-- The samples that are replayed when one more is added to a list of them. -/
def window (samples : List (FeatureVector × Nat)) (sample : FeatureVector × Nat) :
    List (FeatureVector × Nat) :=
  samples.rtake (replayWindow - 1) ++ [sample]

theorem learnAll_append (m : Learner) (samples more : List (FeatureVector × Nat)) :
    m.learnAll (samples ++ more) = (m.learnAll samples).learnAll more := by
  rw [learnAll, List.foldl_append]
  rfl

theorem learnAll_concat (m : Learner) (samples : List (FeatureVector × Nat))
    (sample : FeatureVector × Nat) :
    m.learnAll (samples ++ [sample]) = (m.learnAll samples).learn sample :=
  m.learnAll_append samples [sample]

/-! ### One update -/

/-- An update succeeds with the replayed weights, or fails with the initial ones. -/
theorem update_cases (m : Learner) (v : FeatureVector) (mtu : Nat) :
    ((m.remember v mtu).replayed.allFinite = true ∧
      m.update v mtu = (.ok (), { m.remember v mtu with weights := (m.remember v mtu).replayed })) ∨
    ((m.remember v mtu).replayed.allFinite = false ∧
      m.update v mtu =
        (.error (.prediction .diverged), { m.remember v mtu with weights := .initial })) := by
  cases hfinite : (m.remember v mtu).replayed.allFinite with
  | true =>
      refine Or.inl ⟨rfl, ?_⟩
      rw [update, if_pos hfinite]
  | false =>
      refine Or.inr ⟨rfl, ?_⟩
      rw [update, if_neg (by rw [hfinite]; exact Bool.false_ne_true)]

theorem update_ok_iff (m : Learner) (v : FeatureVector) (mtu : Nat) :
    (m.update v mtu).1 = .ok () ↔ (m.remember v mtu).replayed.allFinite = true := by
  rcases m.update_cases v mtu with ⟨hfinite, heq⟩ | ⟨hfinite, heq⟩
  · rw [heq, hfinite]
    exact iff_of_true rfl rfl
  · rw [heq, hfinite]
    exact iff_of_false (fun h => by cases h) Bool.false_ne_true

theorem update_error_iff (m : Learner) (v : FeatureVector) (mtu : Nat) :
    (m.update v mtu).1 = .error (.prediction .diverged) ↔
      (m.remember v mtu).replayed.allFinite = false := by
  rcases m.update_cases v mtu with ⟨hfinite, heq⟩ | ⟨hfinite, heq⟩
  · rw [heq, hfinite]
    exact iff_of_false (fun h => by cases h) (fun h => by cases h)
  · rw [heq, hfinite]
    exact iff_of_true rfl rfl

theorem weights_learn_of_allFinite {m : Learner} (v : FeatureVector) (mtu : Nat)
    (h : (m.remember v mtu).replayed.allFinite = true) :
    (m.learn (v, mtu)).weights = (m.remember v mtu).replayed := by
  rw [learn, update, if_pos h]

theorem weights_learn_of_error {m : Learner} {sample : FeatureVector × Nat} {fault : Error}
    (h : (m.update sample.1 sample.2).1 = .error fault) : (m.learn sample).weights = .initial := by
  unfold learn
  rcases m.update_cases sample.1 sample.2 with ⟨-, heq⟩ | ⟨-, heq⟩
  · rw [heq] at h
    cases h
  · rw [heq]

/-! ### The samples of a whole life -/

/-- What a model with the given rate and bounds is like after it was taught the given samples. -/
structure Taught (rate : Float) (bounds : MtuBounds) (samples : List (FeatureVector × Nat))
    (m : Learner) : Prop where
  rate : m.rate = rate
  bounds : m.bounds = bounds
  capacity : m.samples.capacity = memory
  remembers : m.samples.Remembers samples

theorem taught_withWeights (weights : Weights) (rate : Float) (bounds : MtuBounds) :
    Taught rate bounds [] (withWeights weights rate bounds) :=
  ⟨rfl, rfl, rfl, BoundedLog.remembers_empty memory⟩

variable {rate : Float} {bounds : MtuBounds} {samples : List (FeatureVector × Nat)} {m : Learner}

/-- **An update remembers its sample, also when it fails, and touches nothing but the weights
besides.** -/
theorem Taught.learn (h : Taught rate bounds samples m) (sample : FeatureVector × Nat) :
    Taught rate bounds (samples ++ [sample]) (m.learn sample) := by
  have hsamples : (m.samples.push sample).Remembers (samples ++ [sample]) := h.remembers.push sample
  unfold Learner.learn
  rcases m.update_cases sample.1 sample.2 with ⟨-, heq⟩ | ⟨-, heq⟩
  all_goals
    rw [heq]
    exact ⟨h.rate, h.bounds, h.capacity, hsamples⟩

theorem Taught.learnAll (h : Taught rate bounds samples m) (more : List (FeatureVector × Nat)) :
    Taught rate bounds (samples ++ more) (m.learnAll more) := by
  induction more generalizing m samples with
  | nil =>
      rw [List.append_nil]
      exact h
  | cons sample rest ih =>
      rw [List.append_cons]
      exact ih (h.learn sample)

/-- What is replayed in an update are the last samples of all, with the new one at their end. -/
theorem Taught.replayed (h : Taught rate bounds samples m) (v : FeatureVector) (mtu : Nat) :
    (m.remember v mtu).replayed = m.weights.descendAll rate (window samples (v, mtu)) := by
  have hpush : (m.samples.push (v, mtu)).Remembers (samples ++ [(v, mtu)]) := h.remembers.push _
  have hcapacity : (m.samples.push (v, mtu)).capacity = memory := h.capacity
  have hrecent : (m.samples.push (v, mtu)).recent replayWindow = window samples (v, mtu) := by
    rw [hpush.recent, hcapacity]
    exact List.rtake_concat_succ samples (replayWindow - 1) (v, mtu)
  show m.weights.descendAll m.rate ((m.samples.push (v, mtu)).recent replayWindow) = _
  rw [hrecent, h.rate]

/-- An update succeeds exactly if replaying the last samples of all leaves finite weights. -/
theorem Taught.update_ok_iff (h : Taught rate bounds samples m) (v : FeatureVector) (mtu : Nat) :
    (m.update v mtu).1 = .ok () ↔
      (m.weights.descendAll rate (window samples (v, mtu))).allFinite = true := by
  rw [Learner.update_ok_iff, h.replayed]

theorem Taught.update_error_iff (h : Taught rate bounds samples m) (v : FeatureVector) (mtu : Nat) :
    (m.update v mtu).1 = .error (.prediction .diverged) ↔
      (m.weights.descendAll rate (window samples (v, mtu))).allFinite = false := by
  rw [Learner.update_error_iff, h.replayed]

theorem taught_fresh (bounds : MtuBounds) (samples : List (FeatureVector × Nat)) :
    Taught defaultRate bounds samples ((fresh bounds).learnAll samples) :=
  (taught_withWeights .initial defaultRate bounds).learnAll samples

end Learner

end AdaptiveMtu
