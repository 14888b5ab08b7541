/-
What a linear model learns of a sample.

A step of descent reads the inputs of a sample and its MTU, and nothing else of it.  Models with the
same weights that remember samples with the same inputs therefore stay in agreement: the same update
of both gives the same report and leaves the same weights, however often a sample is replayed.
-/
import AdaptiveMtu.Proofs.Features.Neutral
import AdaptiveMtu.Proofs.Linear.Memory
import Mathlib.Data.List.Forall2

namespace AdaptiveMtu

/-- The same is learned from two samples. -/
structure SampleAlike (s t : FeatureVector × Nat) : Prop where
  features : s.1.Alike t.1
  mtu : s.2 = t.2

namespace Weights

theorem dot_congr {v w : FeatureVector} (h : v.inputs = w.inputs) (weights : Weights) :
    weights.dot v = weights.dot w := by
  rw [dot, dot, h]

theorem descend_congr {s t : FeatureVector × Nat} (h : SampleAlike s t) (rate : Float)
    (weights : Weights) : weights.descend rate s = weights.descend rate t := by
  have hinputs := h.features.inputs
  simp only [descend, dot_congr hinputs, hinputs, h.mtu]

theorem descendAll_congr {samples samples' : List (FeatureVector × Nat)}
    (h : List.Forall₂ SampleAlike samples samples') (rate : Float) (weights : Weights) :
    weights.descendAll rate samples = weights.descendAll rate samples' := by
  unfold descendAll
  induction h generalizing weights with
  | nil => rfl
  | cons hfirst _ ih =>
      rw [List.foldl_cons, List.foldl_cons, descend_congr hfirst]
      exact ih _

end Weights

namespace Learner

/-- Two models have the same weights, rate and bounds and remember samples that are alike. -/
structure Alike (m n : Learner) : Prop where
  weights : m.weights = n.weights
  rate : m.rate = n.rate
  bounds : m.bounds = n.bounds
  capacity : m.samples.capacity = n.samples.capacity
  samples : List.Forall₂ SampleAlike m.samples.newestFirst n.samples.newestFirst

variable {m n : Learner} {v w : FeatureVector}

theorem Alike.refl (m : Learner) : Alike m m :=
  ⟨rfl, rfl, rfl, rfl, List.forall₂_same.mpr fun _ _ => ⟨.refl _, rfl⟩⟩

theorem Alike.dot (h : Alike m n) (hv : v.Alike w) : m.weights.dot v = n.weights.dot w := by
  rw [h.weights, Weights.dot_congr hv.inputs]

theorem Alike.raw (h : Alike m n) (hv : v.Alike w) : m.raw v = n.raw w := by
  simp only [Learner.raw, h.dot hv]

theorem Alike.predict (h : Alike m n) (hv : v.Alike w) : m.predict v = n.predict w := by
  simp only [Learner.predict, h.dot hv, h.bounds]

theorem Alike.remember (h : Alike m n) (hv : v.Alike w) (mtu : Nat) :
    Alike (m.remember v mtu) (n.remember w mtu) := by
  refine ⟨h.weights, h.rate, h.bounds, h.capacity, ?_⟩
  simp only [Learner.remember, BoundedLog.push, h.capacity]
  exact List.forall₂_take _ (.cons ⟨hv, rfl⟩ h.samples)

theorem Alike.replayed (h : Alike m n) : m.replayed = n.replayed := by
  have hrecent : List.Forall₂ SampleAlike (m.samples.recent replayWindow)
      (n.samples.recent replayWindow) :=
    List.forall₂_reverse_iff.mpr (List.forall₂_take _ h.samples)
  rw [Learner.replayed, Learner.replayed, h.weights, h.rate, Weights.descendAll_congr hrecent]

/-- **Models that are alike report an update alike, and are alike after it, also when it fails.** -/
theorem Alike.update (h : Alike m n) (hv : v.Alike w) (mtu : Nat) :
    (m.update v mtu).1 = (n.update w mtu).1 ∧ Alike (m.update v mtu).2 (n.update w mtu).2 := by
  have hremember := h.remember hv mtu
  have hreplayed := hremember.replayed
  simp only [Learner.update, hreplayed]
  by_cases hfinite : (n.remember w mtu).replayed.allFinite = true
  · rw [if_pos hfinite, if_pos hfinite]
    exact ⟨rfl, rfl, hremember.rate, hremember.bounds, hremember.capacity, hremember.samples⟩
  · rw [if_neg hfinite, if_neg hfinite]
    exact ⟨rfl, rfl, hremember.rate, hremember.bounds, hremember.capacity, hremember.samples⟩

end Learner

end AdaptiveMtu
