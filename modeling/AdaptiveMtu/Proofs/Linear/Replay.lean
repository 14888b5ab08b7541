/-
The same sample, step after step.

Steps with one sample move the weights along its inputs, and along nothing else but what is rounded.  The
residual says how far they have moved: as long as it stays as small as it was, the weights cannot get far
away, however many steps there are.  `Tracks` is the invariant of this, with the rounding of all
steps as its drift.  Each step takes a share of at least `margin` off the residual, so that it only ever
grows where rounding is more than that share.
-/
import AdaptiveMtu.Proofs.Linear.Descent
import AdaptiveMtu.Proofs.Linear.Memory

namespace AdaptiveMtu

open Binary64

/-- The share of the residual that an exact step takes off it at least. -/
def margin (v : FeatureVector) : ℚ := min (stepSize v) (2 - stepSize v)

theorem stepSize_ge (v : FeatureVector) : 1 / 100 ≤ stepSize v := by
  have hrate := value_defaultRate.1
  calc (1 : ℚ) / 100 ≤ value Learner.defaultRate * 1 := by rwa [mul_one]
    _ ≤ stepSize v := mul_le_mul_of_nonneg_left (one_le_sum_sq v) (by linarith)

theorem margin_pos {v : FeatureVector} (hv : Mild v) : 0 < margin v := by
  have hpos := stepSize_ge v
  have hlt := hv.stepSize_lt
  exact lt_min (by linarith) (by linarith)

theorem abs_one_sub_stepSize (v : FeatureVector) : |1 - stepSize v| = 1 - margin v := by
  unfold margin
  rcases le_total (stepSize v) 1 with hle | hle
  · rw [abs_of_nonneg (by linarith), min_eq_left (by linarith)]
  · rw [abs_of_nonpos (by linarith), min_eq_right (by linarith)]
    ring

theorem margin_le_one (v : FeatureVector) : margin v ≤ 1 := by
  have h := abs_nonneg (1 - stepSize v)
  rw [abs_one_sub_stepSize] at h
  linarith

namespace Weights

variable {sample : FeatureVector × Nat} {start w w' : Weights} {bound limit drift : ℚ}

/-- Moving along the inputs changes the residual by the squared length of the move's inputs. -/
theorem abs_residual_sub_le {a : ℚ} (hv : Mild sample.1)
    (h : ∀ i, |w'.exact i - (w.exact i + a * sample.1.exact i)| ≤ drift) :
    |w'.residual sample - (w.residual sample - a * ∑ i, sample.1.exact i ^ 2)| ≤ 43 * drift := by
  have hdrift : 0 ≤ drift := (abs_nonneg _).trans (h 0)
  have hsum : w'.residual sample - (w.residual sample - a * ∑ i, sample.1.exact i ^ 2) =
      -∑ i, (w'.exact i - (w.exact i + a * sample.1.exact i)) * sample.1.exact i := by
    unfold residual
    have hterm : ∀ i ∈ Finset.univ, (w'.exact i - (w.exact i + a * sample.1.exact i)) * sample.1.exact i
        = w'.exact i * sample.1.exact i - w.exact i * sample.1.exact i
          - a * sample.1.exact i ^ 2 := by
      intro i _
      ring
    rw [Finset.sum_congr rfl hterm, Finset.sum_sub_distrib, Finset.sum_sub_distrib, Finset.mul_sum]
    ring
  rw [hsum, abs_neg]
  calc |∑ i, (w'.exact i - (w.exact i + a * sample.1.exact i)) * sample.1.exact i|
      ≤ ∑ i, |(w'.exact i - (w.exact i + a * sample.1.exact i)) * sample.1.exact i| :=
        Finset.abs_sum_le_sum_abs _ _
    _ ≤ ∑ i, drift * |sample.1.exact i| := by
        refine Finset.sum_le_sum ?_
        intro i _
        rw [abs_mul]
        exact mul_le_mul_of_nonneg_right (h i) (abs_nonneg _)
    _ = drift * ∑ i, |sample.1.exact i| := (Finset.mul_sum _ _ _).symm
    _ ≤ drift * 43 := mul_le_mul_of_nonneg_left hv.sum_le hdrift
    _ = 43 * drift := mul_comm _ _

/-- **A step takes its share off the residual, up to rounding.** -/
theorem abs_residual_descend_le (hv : Mild sample.1) (ht : sample.2 ≤ 9000) (hw : w.Within bound)
    (hlow : 9000 ≤ bound) (hhigh : 45 * bound ≤ maxFinite) :
    |(w.descend Learner.defaultRate sample).residual sample| ≤
      (1 - margin sample.1) * |w.residual sample| + 5160 * (roundoff * bound) := by
  have hnear := abs_residual_sub_le hv fun i => (descend_near hv ht hw hlow hhigh i).close
  have hexact : w.residual sample
      - value Learner.defaultRate * w.residual sample * ∑ i, sample.1.exact i ^ 2
        = (1 - stepSize sample.1) * w.residual sample := by
    unfold stepSize
    ring
  rw [hexact] at hnear
  have habs := abs_sub_abs_le_abs_sub ((w.descend Learner.defaultRate sample).residual sample)
    ((1 - stepSize sample.1) * w.residual sample)
  rw [abs_mul, abs_one_sub_stepSize] at habs
  linarith

/-! ### How far the weights get -/

/-- The weights have only moved along the inputs of a sample, up to some drift, and are not further from
predicting its MTU than they were. -/
structure Tracks (sample : FeatureVector × Nat) (start w : Weights) (drift : ℚ) : Prop where
  along : ∃ a : ℚ, ∀ i, |w.exact i - (start.exact i + a * sample.1.exact i)| ≤ drift
  residual : |w.residual sample| ≤ |start.residual sample| + 43 * drift

theorem tracks_self (sample : FeatureVector × Nat) (w : Weights) : Tracks sample w w 0 where
  along := ⟨0, fun i => by simp⟩
  residual := by simp

theorem Tracks.nonneg (h : Tracks sample start w drift) : 0 ≤ drift := by
  obtain ⟨a, ha⟩ := h.along
  exact (abs_nonneg _).trans (ha 0)

/-- A move is as long as the residuals at its two ends say. -/
theorem Tracks.within (h : Tracks sample start w drift) (hv : Mild sample.1)
    (hstart : start.Within limit) :
    w.Within (limit + 2 * |start.residual sample| + 87 * drift) := by
  obtain ⟨a, ha⟩ := h.along
  have hmove := abs_residual_sub_le hv ha
  have hlength : |a| * ∑ i, sample.1.exact i ^ 2 ≤ 2 * |start.residual sample| + 86 * drift := by
    have hsq : 0 ≤ ∑ i, sample.1.exact i ^ 2 := zero_le_one.trans (one_le_sum_sq sample.1)
    rw [← abs_of_nonneg hsq, ← abs_mul]
    have hsplit : a * ∑ i, sample.1.exact i ^ 2 = start.residual sample - w.residual sample
        + (w.residual sample - (start.residual sample - a * ∑ i, sample.1.exact i ^ 2)) := by ring
    rw [hsplit]
    have h1 := abs_add_le (start.residual sample - w.residual sample)
      (w.residual sample - (start.residual sample - a * ∑ i, sample.1.exact i ^ 2))
    have h2 := abs_sub (start.residual sample) (w.residual sample)
    linarith [h.residual]
  intro i
  have hinput : |a * sample.1.exact i| ≤ |a| * ∑ i, sample.1.exact i ^ 2 := by
    rw [abs_mul]
    exact mul_le_mul_of_nonneg_left (abs_le_sum_sq sample.1 i) (abs_nonneg a)
  have hsplit : w.exact i = w.exact i - (start.exact i + a * sample.1.exact i)
      + (start.exact i + a * sample.1.exact i) := by ring
  rw [hsplit]
  have h1 := abs_add_le (w.exact i - (start.exact i + a * sample.1.exact i))
    (start.exact i + a * sample.1.exact i)
  have h2 := abs_add_le (start.exact i) (a * sample.1.exact i)
  linarith [ha i, hstart i]

theorem Tracks.descend (h : Tracks sample start w drift) (hv : Mild sample.1)
    (ht : sample.2 ≤ 9000) (hw : w.Within bound) (hlow : 9000 ≤ bound)
    (hhigh : 45 * bound ≤ maxFinite) :
    Tracks sample start (w.descend Learner.defaultRate sample)
      (drift + 120 * (roundoff * bound)) where
  along := by
    obtain ⟨a, ha⟩ := h.along
    refine ⟨a + value Learner.defaultRate * w.residual sample, ?_⟩
    intro i
    have hnear := (descend_near hv ht hw hlow hhigh i).close
    have hsplit : (w.descend Learner.defaultRate sample).exact i
        - (start.exact i + (a + value Learner.defaultRate * w.residual sample) * sample.1.exact i)
      = (w.exact i - (start.exact i + a * sample.1.exact i))
        + ((w.descend Learner.defaultRate sample).exact i
          - (w.exact i + value Learner.defaultRate * w.residual sample * sample.1.exact i)) := by
      ring
    rw [hsplit]
    exact (abs_add_le _ _).trans (add_le_add (ha i) hnear)
  residual := by
    have hstep := abs_residual_descend_le hv ht hw hlow hhigh
    have hshare := mul_nonneg (margin_pos hv).le (abs_nonneg (w.residual sample))
    linarith [h.residual]

/-! ### Many steps -/

/-- The weights after some steps with one sample. -/
def steps (w : Weights) (sample : FeatureVector × Nat) (k : ℕ) : Weights :=
  w.descendAll Learner.defaultRate (List.replicate k sample)

@[simp] theorem steps_zero (w : Weights) (sample : FeatureVector × Nat) : w.steps sample 0 = w := rfl

theorem steps_succ (w : Weights) (sample : FeatureVector × Nat) (k : ℕ) :
    w.steps sample (k + 1) = (w.steps sample k).descend Learner.defaultRate sample := by
  rw [steps, List.replicate_succ', descendAll_concat]
  rfl

theorem steps_add (w : Weights) (sample : FeatureVector × Nat) (j k : ℕ) :
    (w.steps sample j).steps sample k = w.steps sample (j + k) := by
  induction k with
  | zero => simp
  | succ k ih => rw [steps_succ, ih, ← add_assoc, steps_succ]

/-- A number of steps that cannot take any weight beyond a bound. -/
structure Room (sample : FeatureVector × Nat) (start : Weights) (limit bound : ℚ) (k : ℕ) : Prop where
  mild : Mild sample.1
  mtu : sample.2 ≤ 9000
  origin : start.Within limit
  low : 9000 ≤ bound
  high : 45 * bound ≤ maxFinite
  room : limit + 2 * |start.residual sample| + 87 * (k * (120 * (roundoff * bound))) ≤ bound

variable {k : ℕ}

theorem Room.noise_nonneg (h : Room sample start limit bound k) : 0 ≤ roundoff * bound := by
  have hlow := h.low
  exact roundoff_mul_nonneg (by linarith)

theorem Room.mono {j : ℕ} (h : Room sample start limit bound k) (hjk : j ≤ k) :
    Room sample start limit bound j := by
  refine { h with room := ?_ }
  have hcast : (j : ℚ) ≤ k := by exact_mod_cast hjk
  have hnoise : 0 ≤ 120 * (roundoff * bound) := by linarith [h.noise_nonneg]
  linarith [h.room, mul_le_mul_of_nonneg_right hcast hnoise]

theorem Room.before (h : Room sample start limit bound (k + 1)) :
    Room sample start limit bound k := h.mono (Nat.le_succ k)

theorem Room.tracks (h : Room sample start limit bound k) :
    Tracks sample start (start.steps sample k) (k * (120 * (roundoff * bound))) := by
  induction k with
  | zero => simpa using tracks_self sample start
  | succ k ih =>
      have htracks := ih h.before
      have hwithin : (start.steps sample k).Within bound := by
        intro i
        exact (htracks.within h.mild h.origin i).trans h.before.room
      have hnext := htracks.descend h.mild h.mtu hwithin h.low h.high
      rw [steps_succ]
      push_cast
      rwa [add_one_mul]

theorem Room.within (h : Room sample start limit bound k) :
    (start.steps sample k).Within bound := by
  intro i
  exact (h.tracks.within h.mild h.origin i).trans h.room

/-- A residual that is large enough for the margin to make up for rounding does not grow. -/
theorem Room.abs_residual_le {most : ℚ} (h : Room sample start limit bound k)
    (hmost : 5160 * (roundoff * bound) ≤ margin sample.1 * most)
    (hstart : |start.residual sample| ≤ most) : |(start.steps sample k).residual sample| ≤ most := by
  induction k with
  | zero => exact hstart
  | succ k ih =>
      have hstep := abs_residual_descend_le h.mild h.mtu h.before.within h.low h.high
      have hshare := mul_le_mul_of_nonneg_left (ih h.before)
        (sub_nonneg.mpr (margin_le_one sample.1))
      rw [steps_succ]
      linarith

/-- The last of the steps takes its share off it. -/
theorem Room.abs_residual_succ_le {most : ℚ} (h : Room sample start limit bound (k + 1))
    (hmost : 5160 * (roundoff * bound) ≤ margin sample.1 * most)
    (hstart : |start.residual sample| ≤ most) :
    |(start.steps sample (k + 1)).residual sample| ≤
      (1 - margin sample.1) * most + 5160 * (roundoff * bound) := by
  have hstep := abs_residual_descend_le h.mild h.mtu h.before.within h.low h.high
  have hshare := mul_le_mul_of_nonneg_left (h.before.abs_residual_le hmost hstart)
    (sub_nonneg.mpr (margin_le_one sample.1))
  rw [steps_succ]
  linarith

end Weights

end AdaptiveMtu
