/-
Learning the same sample again and again.

A model that is taught one sample only gets no further from it, as long as the step size of its inputs is
below two: every update succeeds, and the distance between the MTU and the raw prediction does not grow,
except for what rounding may add to one that is nearly zero.  A step size of more than two, as of a link
with a hundred megabits per second, makes every step overshoot by more than the error was.
-/
import AdaptiveMtu.Proofs.Linear.Recovery
import AdaptiveMtu.Proofs.Linear.Replay

namespace AdaptiveMtu

open Binary64

namespace Learner

open Weights

/-- How far an MTU is from the raw prediction, if there is one. -/
def distance (m : Learner) (v : FeatureVector) (mtu : Nat) : Option ℚ :=
  (m.raw v).map fun raw => |(mtu : ℚ) - value raw|

/-- A distance that rounding can account for, with weights up to some limit. -/
def tolerance (v : FeatureVector) (limit : ℚ) : ℚ := 6 / 10 ^ 11 * limit / margin v

variable {m : Learner} {bounds : MtuBounds} {sample : FeatureVector × Nat} {limit bound : ℚ}

/-! ### An update with the only sample there is -/

theorem window_replicate (n : ℕ) (sample : FeatureVector × Nat) :
    window (List.replicate n sample) sample = List.replicate (min n 49 + 1) sample := by
  have hrtake : (List.replicate n sample).rtake 49 = List.replicate (min n 49) sample := by
    rw [List.rtake, List.length_replicate, List.drop_replicate]
    congr 1
    omega
  rw [window, replayWindow, hrtake, List.replicate_succ']

theorem Taught.replayed_same {n : ℕ} (h : Taught defaultRate bounds (List.replicate n sample) m) :
    (m.remember sample.1 sample.2).replayed = m.weights.steps sample (min n 49 + 1) := by
  rw [h.replayed, window_replicate]
  rfl

/-- An update whose steps leave weights within a bound succeeds and takes them. -/
theorem Taught.update_of_within {n : ℕ} (h : Taught defaultRate bounds (List.replicate n sample) m)
    (hw : (m.weights.steps sample (min n 49 + 1)).Within bound) (hmax : bound ≤ maxFinite) :
    (m.update sample.1 sample.2).1 = .ok () ∧
      (m.learn sample).weights = m.weights.steps sample (min n 49 + 1) := by
  have hfinite : (m.remember sample.1 sample.2).replayed.allFinite = true := by
    rw [h.replayed_same]
    exact hw.allFinite hmax
  refine ⟨(m.update_ok_iff _ _).mpr hfinite, ?_⟩
  rw [← h.replayed_same]
  exact weights_learn_of_allFinite sample.1 sample.2 hfinite

/-! ### The first thousand million updates -/

theorem initial_within : Weights.initial.Within 1200 := by
  unfold Weights.Within
  decide +kernel

theorem room_initial (hv : Mild sample.1) (ht : sample.2 ≤ 9000) {k : ℕ} (hk : k ≤ 50 * 10 ^ 9) :
    Room sample .initial 1200 (2 ^ 17) k where
  mild := hv
  mtu := ht
  origin := initial_within
  low := by norm_num
  high :=
    calc (45 : ℚ) * 2 ^ 17 ≤ 2 ^ 23 := by norm_num
      _ ≤ maxFinite := two_pow_le_maxFinite (by norm_num)
  room := by
    have hresidual := abs_residual_le hv ht initial_within (by norm_num)
    have hcast : (k : ℚ) ≤ 50 * 10 ^ 9 := by exact_mod_cast hk
    unfold roundoff
    linarith

/-- All updates so far have succeeded, so that nothing but steps has happened to the weights. -/
theorem weights_learnAll_replicate (bounds : MtuBounds) (hv : Mild sample.1) (ht : sample.2 ≤ 9000)
    {n : ℕ} (hn : n ≤ 10 ^ 9) :
    ∃ k ≤ 50 * n, ((fresh bounds).learnAll (List.replicate n sample)).weights
      = Weights.initial.steps sample k := by
  induction n with
  | zero => exact ⟨0, le_refl _, rfl⟩
  | succ n ih =>
      obtain ⟨k, hk, hweights⟩ := ih (by omega)
      have hroom : Room sample .initial 1200 (2 ^ 17) (k + (min n 49 + 1)) :=
        room_initial hv ht (by omega)
      have hmax := hroom.high
      have htaught := taught_fresh bounds (List.replicate n sample)
      have hwithin : (((fresh bounds).learnAll (List.replicate n sample)).weights.steps sample
          (min n 49 + 1)).Within (2 ^ 17) := by
        rw [hweights, steps_add]
        exact hroom.within
      have hlearn := (htaught.update_of_within hwithin (by linarith)).2
      refine ⟨k + (min n 49 + 1), by omega, ?_⟩
      rw [List.replicate_succ', learnAll_concat, hlearn, hweights, steps_add]

theorem within_learnAll_replicate (bounds : MtuBounds) (hv : Mild sample.1) (ht : sample.2 ≤ 9000)
    {n : ℕ} (hn : n ≤ 10 ^ 9) :
    ((fresh bounds).learnAll (List.replicate n sample)).weights.Within (2 ^ 17) := by
  obtain ⟨k, hk, hweights⟩ := weights_learnAll_replicate bounds hv ht hn
  rw [hweights]
  exact (room_initial hv ht (by omega)).within

/-! ### Any update -/

/-- The distance is near the residual. -/
theorem distance_near (hv : Mild sample.1) (hw : m.weights.Within bound) (hlow : 1 ≤ bound)
    (hhigh : 45 * bound ≤ maxFinite) :
    ∃ d ∈ m.distance sample.1 sample.2,
      |d - (|m.weights.residual sample|)| ≤ 540 * (roundoff * bound) := by
  have hdot := dot_near hv hw hlow hhigh
  refine ⟨|(sample.2 : ℚ) - value (m.weights.dot sample.1)|, ?_, ?_⟩
  · rw [distance, raw, if_pos hdot.finite]
    rfl
  · refine (abs_abs_sub_abs_le _ _).trans ?_
    have hdifference : (sample.2 : ℚ) - value (m.weights.dot sample.1) - m.weights.residual sample
        = -(value (m.weights.dot sample.1) - ∑ i, m.weights.exact i * sample.1.exact i) := by
      unfold Weights.residual
      ring
    rw [hdifference, abs_neg]
    exact hdot.close

theorem room_update (hv : Mild sample.1) (ht : sample.2 ≤ 9000) (hw : m.weights.Within limit)
    (hlow : 2 ^ 17 ≤ limit) (hhigh : limit ≤ 2 ^ 900) {k : ℕ} (hk : k ≤ 50) :
    Room sample m.weights limit (90 * limit) k where
  mild := hv
  mtu := ht
  origin := hw
  low := by linarith
  high :=
    calc 45 * (90 * limit) = 4050 * limit := by ring
      _ ≤ 2 ^ 12 * 2 ^ 900 := mul_le_mul (by norm_num) hhigh (by linarith) (by norm_num)
      _ = 2 ^ 912 := by rw [← pow_add]
      _ ≤ maxFinite := two_pow_le_maxFinite (by norm_num)
  room := by
    have hresidual := abs_residual_le hv ht hw (by linarith)
    have hcast : (k : ℚ) ≤ 50 := by exact_mod_cast hk
    have hnoise : (k : ℚ) * limit ≤ 50 * limit := mul_le_mul_of_nonneg_right hcast (by linarith)
    unfold roundoff
    linarith

/-- What a step takes at least off a distance that is not within the tolerance. -/
theorem le_margin_mul_max {v : FeatureVector} (hv : Mild v) (d limit : ℚ) :
    6 / 10 ^ 11 * limit ≤ margin v * max d (tolerance v limit) := by
  have hmargin := margin_pos hv
  calc 6 / 10 ^ 11 * limit = margin v * tolerance v limit :=
        (mul_div_cancel₀ _ hmargin.ne').symm
    _ ≤ margin v * max d (tolerance v limit) :=
        mul_le_mul_of_nonneg_left (le_max_right _ _) hmargin.le

/-- The share that the last step takes off the largest distance there may be makes up for all
rounding. -/
theorem Taught.update_of_same {n : ℕ} (h : Taught defaultRate bounds (List.replicate n sample) m)
    (hv : Mild sample.1) (ht : sample.2 ≤ 9000) (hw : m.weights.Within limit)
    (hlow : 2 ^ 17 ≤ limit) (hhigh : limit ≤ 2 ^ 900) :
    (m.update sample.1 sample.2).1 = .ok () ∧
      ∃ before ∈ m.distance sample.1 sample.2, ∃ after ∈ (m.learn sample).distance sample.1 sample.2,
        after ≤ max before (tolerance sample.1 limit) := by
  have hroom := room_update hv ht hw hlow hhigh (by omega : min n 49 + 1 ≤ 50)
  have hmax := hroom.high
  obtain ⟨hok, hweights⟩ := h.update_of_within hroom.within (by linarith)
  have hafter : (m.learn sample).weights.Within (90 * limit) := by
    rw [hweights]
    exact hroom.within
  obtain ⟨d, hd, hnear⟩ := distance_near hv hw (by linarith) (by linarith)
  obtain ⟨d', hd', hnear'⟩ := distance_near hv hafter (by linarith) hmax
  refine ⟨hok, d, hd, d', hd', ?_⟩
  have hmargin := margin_pos hv
  have hshare := le_margin_mul_max hv d limit
  have hnoise : 0 ≤ margin sample.1 * (540 * (roundoff * limit)) := by
    refine mul_nonneg hmargin.le (mul_nonneg (by norm_num) ?_)
    exact roundoff_mul_nonneg (by linarith)
  have hstart : |m.weights.residual sample| ≤
      max d (tolerance sample.1 limit) + 540 * (roundoff * limit) := by
    have := (abs_le.mp hnear).1
    linarith [le_max_left d (tolerance sample.1 limit)]
  have hmost : 5160 * (roundoff * (90 * limit)) ≤
      margin sample.1 * (max d (tolerance sample.1 limit) + 540 * (roundoff * limit)) := by
    unfold roundoff at hnoise ⊢
    linarith
  have hresidual := hroom.abs_residual_succ_le hmost hstart
  rw [← hweights] at hresidual
  have := (abs_le.mp hnear').2
  unfold roundoff at *
  linarith

/-- **Learning one sample again and again never leads away from it, if the step size is below two.**  No
weight gets beyond 2¹⁷ in the first thousand million updates; and at any time at which no weight is beyond
some limit, the next update succeeds, and the distance after it is not larger than before, or within what
rounding may make of weights up to that limit. -/
theorem learning_direction (bounds : MtuBounds) (v : FeatureVector) (mtu : Nat) (hmtu : mtu ≤ 9000)
    (hsmall : stepSize v < 2) :
    let model (n : ℕ) := (fresh bounds).learnAll (List.replicate n (v, mtu))
    (∀ n ≤ 10 ^ 9, (model n).weights.Within (2 ^ 17)) ∧
    ∀ n limit, 2 ^ 17 ≤ limit → limit ≤ 2 ^ 900 → (model n).weights.Within limit →
      ((model n).update v mtu).1 = .ok () ∧
        ∃ before ∈ (model n).distance v mtu, ∃ after ∈ (model (n + 1)).distance v mtu,
          after ≤ max before (tolerance v limit) := by
  intro model
  have hv : Mild v := mild_of_stepSize_lt hsmall
  refine ⟨?_, ?_⟩
  · intro n hn
    exact within_learnAll_replicate bounds hv hmtu hn
  · intro n limit hlow hhigh hw
    have hnext : model (n + 1) = (model n).learn (v, mtu) := by
      show (fresh bounds).learnAll (List.replicate (n + 1) (v, mtu)) = _
      rw [List.replicate_succ', learnAll_concat]
    rw [hnext]
    exact (taught_fresh bounds (List.replicate n (v, mtu))).update_of_same hv hmtu hw hlow hhigh

/-- A path of ordinary latency and throughput. -/
def ordinaryPath : FeatureVector :=
  ⟨some 60, some 6000000, some 0.01, some 12, some 1300, some 220, some .ethernet, some 14⟩

/-- With an ordinary path, no distance of more than a thousandth of a byte ever grows. -/
theorem ordinary_path_learns :
    stepSize ordinaryPath < 2 ∧ ∀ n ≤ 10 ^ 9,
      let model (n : ℕ) := (fresh .full).learnAll (List.replicate n (ordinaryPath, 3000))
      ((model n).update ordinaryPath 3000).1 = .ok () ∧
        ∃ before ∈ (model n).distance ordinaryPath 3000,
          ∃ after ∈ (model (n + 1)).distance ordinaryPath 3000, after ≤ max before (1 / 1000) := by
  have hsmall : stepSize ordinaryPath < 2 := by decide +kernel
  have htolerance : tolerance ordinaryPath (2 ^ 17) ≤ 1 / 1000 := by decide +kernel
  refine ⟨hsmall, ?_⟩
  intro n hn model
  have h := learning_direction .full ordinaryPath 3000 (by norm_num) hsmall
  obtain ⟨hok, before, hbefore, after, hafter, hle⟩ :=
    h.2 n (2 ^ 17) (le_refl _) (pow_le_pow_right₀ (by norm_num) (by norm_num)) (h.1 n hn)
  exact ⟨hok, before, hbefore, after, hafter, hle.trans (max_le_max_left before htolerance)⟩

/-- A link with a hundred megabits per second. -/
def fastLink : FeatureVector := { FeatureVector.empty with throughput := some 100000000 }

/-- A link whose step size is nearly one. -/
def steadyLink : FeatureVector :=
  { FeatureVector.empty with
    throughput := some 32000000, congestionWindow := some 7, sizeDeviation := some 620 }

/-- One sample of a link that is far too fast is an error; one of a fast link leads away from it; and near
the MTU itself rounding does. -/
theorem learning_leads_away :
    ((fresh .full).update farTooFast 1500).1 = .error (.prediction .diverged) ∧
    (((fresh .full).update fastLink 1500).1 = .ok () ∧
      ∃ before ∈ (fresh .full).distance fastLink 1500,
        ∃ after ∈ ((fresh .full).learn (fastLink, 1500)).distance fastLink 1500, before < after) ∧
    (stepSize steadyLink < 2 ∧
      ∃ before ∈ ((fresh .full).learnAll (List.replicate 2 (steadyLink, 8164))).distance
          steadyLink 8164,
        ∃ after ∈ ((fresh .full).learnAll (List.replicate 3 (steadyLink, 8164))).distance
          steadyLink 8164, before < after) := by
  have hfast : (Weights.initial.descend defaultRate (fastLink, 1500)).allFinite = true := by
    decide +kernel
  refine ⟨farTooFast_diverges .full, ⟨?_, ?_⟩, ?_, ?_⟩
  · exact (fresh_update_ok_iff .full fastLink 1500).mpr hfast
  · decide +kernel
  · decide +kernel
  · decide +kernel

end Learner

end AdaptiveMtu
