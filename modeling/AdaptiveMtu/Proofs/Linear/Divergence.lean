/-
What a divergence puts back.

An update that diverges puts the initial weights back, whatever weights the model started with.  A
model without an artifact is then what it was before it learned anything; one that was loaded has lost the
weights of its artifact, and answers as if it had never had one.  Its rate stays the artifact's.
-/
import AdaptiveMtu.Proofs.Linear.Recovery
import AdaptiveMtu.Proofs.Linear.Starting
import AdaptiveMtu.Proofs.Model.Range

namespace AdaptiveMtu

open Binary64

namespace Learner

variable {m n : Learner} {bounds : MtuBounds}

/-- Nothing but the weights and the bounds has a say in what a model answers. -/
theorem answers_congr (hweights : m.weights = n.weights) (hbounds : m.bounds = n.bounds)
    (v : FeatureVector) : m.predict v = n.predict v ∧ m.raw v = n.raw v := by
  rw [predict, predict, raw, raw, hweights, hbounds]
  exact ⟨rfl, rfl⟩

theorem error_of_update {v : FeatureVector} {mtu : Nat} {fault : Error}
    (h : (m.update v mtu).1 = .error fault) : fault = .prediction .diverged := by
  rcases m.update_cases v mtu with ⟨-, heq⟩ | ⟨-, heq⟩
  all_goals
    rw [heq] at h
    cases h
  rfl

/-- **After a divergence a model answers as one that never had an artifact.**  Its weights are those that it
started with exactly if these were the initial ones, and then it answers as it did before it learned anything. -/
theorem divergence_restores_initial {start : Learner} (h : Begun bounds start)
    (history : List (FeatureVector × Nat)) (bad : FeatureVector × Nat) {fault : Error}
    (hfails : ((start.learnAll history).update bad.1 bad.2).1 = .error fault) :
    let after := (start.learnAll history).learn bad
    fault = .prediction .diverged ∧ after.weights = .initial ∧ after.rate = start.rate ∧
    (∀ v, after.predict v = (fresh bounds).predict v ∧ after.raw v = (fresh bounds).raw v) ∧
    (after.weights = start.weights ↔ start.weights = .initial) ∧
    (start.weights = .initial →
      ∀ v, after.predict v = start.predict v ∧ after.raw v = start.raw v) := by
  intro after
  have htaught : Taught start.rate bounds (history ++ [bad]) after := (h.taught history).learn bad
  have hweights : after.weights = .initial := weights_learn_of_error hfails
  have hstart : start.bounds = bounds := by
    rw [h.eq_withWeights]
    rfl
  refine ⟨error_of_update hfails, hweights, htaught.rate, ?_, ?_, ?_⟩
  · exact answers_congr hweights htaught.bounds
  · rw [hweights]
    exact eq_comm
  · intro hinitial
    exact answers_congr (hweights.trans hinitial.symm) (htaught.bounds.trans hstart.symm)

/-! ### A model with weights of its own -/

/-- The weights of a model that predicts 1500 for a path that nothing is known of. -/
def tunedWeights : Weights := ⟨[1500, 0, 1, 0, 0, 0, 0, 0, 0], rfl⟩

/-- An artifact with these weights. -/
def tunedArtifact : String :=
  "\x7b\"weights\": [1500, 0, 1, 0, 0, 0, 0, 0, 0], \"learning_rate\": 0.005\x7d"

/-- The model of this artifact. -/
def tuned : Learner := withWeights tunedWeights 0.005 .full

theorem load_tuned :
    Artifact.load (fun _ => .ok tunedArtifact) "weights.json" .full = .ok tuned := by
  have hparse : (Artifact.parse? tunedArtifact).map (fun a => (a.weights, a.rate))
      = some (tunedWeights.toList, some 0.005) := by
    decide +kernel
  have hsound : tuned.weights.allFinite = true ∧ tuned.rate.isFinite = true ∧ 0 < tuned.rate := by
    decide +kernel
  have hlearner : (Artifact.mk tunedWeights.toList (some 0.005)).toLearner .full = .ok tuned :=
    Artifact.toLearner_of_sound (m := tuned) ⟨hsound.1, hsound.2.1, hsound.2.2⟩
  obtain ⟨⟨ws, rate⟩, hartifact, hpair⟩ := Option.map_eq_some_iff.mp hparse
  obtain ⟨rfl, rfl⟩ := Prod.mk.inj hpair
  simp only [Artifact.load, hartifact, hlearner]

/-- What the model answers for a path that nothing is known of, and that one sample is too much for it. -/
theorem tuned_run :
    (tuned.predict .empty = .ok 1500 ∧ (fresh .full).predict .empty = .ok 1200) ∧
      (tuned.update farTooFast 1500).1 = .error (.prediction .diverged) := by
  have hanswers : (tuned.weights.dot .empty).isFinite = true ∧
      roundToHundred (truncate (clamp (ofCount 576) (ofCount 9000) (tuned.weights.dot .empty))) = 1500 ∧
      ((fresh .full).weights.dot .empty).isFinite = true ∧
      roundToHundred (truncate (clamp (ofCount 576) (ofCount 9000)
        ((fresh .full).weights.dot .empty))) = 1200 ∧
      (tuned.remember farTooFast 1500).replayed.allFinite = false := by
    decide +kernel
  obtain ⟨htuned, htunedMtu, hfresh, hfreshMtu, hdiverges⟩ := hanswers
  refine ⟨⟨?_, ?_⟩, (tuned.update_error_iff farTooFast 1500).mpr hdiverges⟩
  · exact (predict_of_finite htuned).trans (congrArg Except.ok htunedMtu)
  · exact (predict_of_finite hfresh).trans (congrArg Except.ok hfreshMtu)

/-- A loaded model that diverges answers 1200, as a model without an artifact does, and still learns at the
artifact's rate. -/
theorem tuned_model_answers_as_fresh :
    Begun .full tuned ∧
    ((tuned.learnAll []).update farTooFast 1500).1 = .error (.prediction .diverged) ∧
    (tuned.learn (farTooFast, 1500)).predict .empty = .ok 1200 ∧
    (tuned.learn (farTooFast, 1500)).rate = tuned.rate := by
  have hbegun : Begun .full tuned := .loaded load_tuned
  have hfails : ((tuned.learnAll []).update farTooFast 1500).1 = .error (.prediction .diverged) :=
    tuned_run.2
  obtain ⟨-, -, hrate, hanswers, -⟩ := divergence_restores_initial hbegun [] (farTooFast, 1500) hfails
  exact ⟨hbegun, hfails, (hanswers .empty).1.trans tuned_run.1.2, hrate⟩

/-- The weights of an artifact are not put back, and the model does not answer as it did before it learned
anything. -/
theorem tuned_model_loses_its_weights :
    Artifact.load (fun _ => .ok tunedArtifact) "weights.json" .full = .ok tuned ∧
    (tuned.update farTooFast 1500).1 = .error (.prediction .diverged) ∧
    (tuned.learn (farTooFast, 1500)).weights ≠ tuned.weights ∧
    tuned.predict .empty = .ok 1500 ∧
    (tuned.learn (farTooFast, 1500)).predict .empty ≠ tuned.predict .empty := by
  obtain ⟨⟨htuned, hfresh⟩, hfails⟩ := tuned_run
  have hweights : (tuned.learn (farTooFast, 1500)).weights = .initial := weights_learn_of_error hfails
  have hbounds : (tuned.learn (farTooFast, 1500)).bounds = .full :=
    tuned.bounds_learn (farTooFast, 1500)
  have hafter : (tuned.learn (farTooFast, 1500)).predict .empty = .ok 1200 :=
    (answers_congr (n := fresh .full) hweights hbounds .empty).1.trans hfresh
  have hother : (tuned.learn (farTooFast, 1500)).predict .empty ≠ tuned.predict .empty := by
    intro h
    have hmtu : (Except.ok 1200 : Except Error Nat) = .ok 1500 := hafter.symm.trans (h.trans htuned)
    cases hmtu
  refine ⟨load_tuned, hfails, ?_, htuned, hother⟩
  intro hsame
  exact hother (answers_congr hsame hbounds .empty).1

end Learner

end AdaptiveMtu
