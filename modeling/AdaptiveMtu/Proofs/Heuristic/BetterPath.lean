/-
Better paths under the rules.

A path that is no worse than another takes off no tenth that the other keeps, and misses no bonus.  So
before the packet size is looked at, its MTU is either the same or ahead by a tenth, but for what was cut off.
Reconciling with the packet size is not monotone: of two MTUs that are a little apart, the lower one may
come out higher, since it may grow where the other stays, or stay where the other shrinks.  A tenth is more
than the two twentieths that are at stake there, because no packets are both larger than one MTU and smaller
than half of the other.  MTUs of less than a hundred are too small for that argument, but all of those
are brought to the lower bound.
-/
import AdaptiveMtu.Proofs.Binary64.Extended
import AdaptiveMtu.Proofs.Features.Codec
import AdaptiveMtu.Proofs.Heuristic.WholeNumbers

namespace AdaptiveMtu

open Binary64

/-! ### Paths that are no worse -/

/-- The first path is no worse than the second: over the same kind of network it is no slower, loses no
more and carries no less.  A missing measurement is at its mean, and nothing compares with NaN. -/
structure FeatureVector.NoWorse (v w : FeatureVector) : Prop where
  network : v.networkType = w.networkType
  rtt : v.valueOrMean .rtt ≤ w.valueOrMean .rtt
  loss : v.valueOrMean .loss ≤ w.valueOrMean .loss
  throughput : w.valueOrMean .throughput ≤ v.valueOrMean .throughput

variable {v w : FeatureVector}

/-- Conditions that are bad for the better path are bad for the other one. -/
theorem FeatureVector.NoWorse.slow_or_lossy (h : v.NoWorse w) (rtt loss : Float)
    (hv : (rtt < (Conditions.ofFeatures v).rtt || loss < (Conditions.ofFeatures v).loss) = true) :
    (rtt < (Conditions.ofFeatures w).rtt || loss < (Conditions.ofFeatures w).loss) = true := by
  rw [Bool.or_eq_true, decide_eq_true_iff, decide_eq_true_iff] at hv ⊢
  exact hv.imp (fun hrtt => lt_of_lt_of_le hrtt h.rtt) fun hloss => lt_of_lt_of_le hloss h.loss

/-- Conditions that are good for the other path are good for the better one. -/
theorem FeatureVector.NoWorse.fast_and_clean (h : v.NoWorse w) (throughput loss : Float)
    (hw : (throughput < (Conditions.ofFeatures w).throughput
      && (Conditions.ofFeatures w).loss < loss) = true) :
    (throughput < (Conditions.ofFeatures v).throughput
      && (Conditions.ofFeatures v).loss < loss) = true := by
  rw [Bool.and_eq_true, decide_eq_true_iff, decide_eq_true_iff] at hw ⊢
  exact ⟨lt_of_lt_of_le hw.1 h.throughput, lt_of_le_of_lt h.loss hw.2⟩

/-- A path that is fast and clean. -/
def openPath (size : ℕ) : FeatureVector :=
  ((((FeatureVector.empty.set .rtt 10).set .loss 0).set .throughput 1000000000).withNetwork
    .ethernet).withAverageSize size

/-- A path that is slow and loses some packets, but is not among the worst. -/
def crowdedPath (size : ℕ) : FeatureVector :=
  ((((FeatureVector.empty.set .rtt 150).set .loss 0.02).set .throughput 1000000).withNetwork
    .ethernet).withAverageSize size

theorem isFinite_averageSize (v : FeatureVector) : (v.valueOrMean .averageSize).isFinite = true := by
  show ((v.averageSize.map ofCount).getD Field.averageSize.mean).isFinite = true
  cases v.averageSize with
  | none => decide +kernel
  | some bytes => exact FeatureVector.isFinite_ofCount bytes

theorem averageSize_mono (h : v.valueOrMean .averageSize ≤ w.valueOrMean .averageSize) :
    (Conditions.ofFeatures v).averageSize ≤ (Conditions.ofFeatures w).averageSize :=
  truncate_mono (isFinite_averageSize v) (isFinite_averageSize w) h

/-! ### Reconciling -/

theorem exactReconcile_mono_size (mtu : ℕ) {size size' : ℕ} (h : size ≤ size') :
    exactReconcile mtu size ≤ exactReconcile mtu size' := by
  unfold exactReconcile
  split_ifs <;> omega

/-- **Reconciling keeps the order of MTUs that are at least a twentieth apart.** -/
theorem exactReconcile_mono_of_gap {mtu mtu' size size' : ℕ} (hgap : 20 * mtu ≤ 19 * mtu')
    (hsize : size ≤ size') : exactReconcile mtu size ≤ exactReconcile mtu' size' := by
  unfold exactReconcile
  split_ifs <;> omega

/-! ### MTUs that are the same or a tenth apart -/

/-- The MTU of the worse path is that of the better one, or less by a tenth of itself, but for what was cut
off on the way. -/
def Behind (slack worse better : ℕ) : Prop := worse = better ∨ 11 * worse ≤ 10 * better + slack

namespace Behind

variable {slack worse better : ℕ} {p q : Prop} [Decidable p] [Decidable q]

/-- A tenth is taken off the worse path if it is taken off the better one. -/
theorem takeOff (h : Behind slack worse better) (hpq : q → p) :
    Behind (slack + 9) (if p then worse * 9 / 10 else worse) (if q then better * 9 / 10 else better) := by
  unfold Behind at h ⊢
  split_ifs with hp hq hq
  · omega
  · omega
  · exact absurd (hpq hq) hp
  · omega

/-- A tenth is added for the better path if it is added for the worse one. -/
theorem putOn (h : Behind slack worse better) (hpq : p → q) :
    Behind (2 * slack + 9) (if p then worse * 11 / 10 else worse)
      (if q then better * 11 / 10 else better) := by
  unfold Behind at h ⊢
  split_ifs with hp hq hq
  · omega
  · exact absurd (hpq hp) hq
  · omega
  · omega

/-- Reconciling keeps the order, unless the MTU of the worse path is a small one. -/
theorem reconcile (h : Behind slack worse better) (hslack : slack ≤ 45) {size size' : ℕ}
    (hsize : size ≤ size') :
    exactReconcile worse size ≤ exactReconcile better size' ∨
      exactReconcile worse size ≤ smallestMtu := by
  rcases h with rfl | hgap
  · exact .inl (exactReconcile_mono_size worse hsize)
  by_cases hsmall : worse < 100
  · refine .inr ?_
    unfold exactReconcile smallestMtu
    split_ifs <;> omega
  · exact .inl (exactReconcile_mono_of_gap (by omega) hsize)

end Behind

/-! ### The rules -/

namespace Rules

theorem predict_eq_exact {base : ℕ} (hbase : base ≤ largestCount) (bounds : MtuBounds)
    (v : FeatureVector) :
    predict base bounds v = bounds.finalize (exactPipeline base (Conditions.ofFeatures v)) := by
  rw [predict, MtuBounds.finalize, (alike_pipeline hbase _).clamp_eq, MtuBounds.finalize]

/-- The rules leave the better path with no lower MTU, unless bounds do not tell the difference. -/
theorem exactPipeline_mono (base : ℕ) (h : v.NoWorse w)
    (hsize : w.valueOrMean .averageSize ≤ v.valueOrMean .averageSize) :
    exactPipeline base (Conditions.ofFeatures w) ≤ exactPipeline base (Conditions.ofFeatures v) ∨
      exactPipeline base (Conditions.ofFeatures w) ≤ smallestMtu := by
  have hstart : Behind 0 base base := .inl rfl
  have heased := hstart.takeOff (h.slow_or_lossy 100 0.01)
  have hfurther := heased.takeOff (h.slow_or_lossy 200 0.05)
  have hspedUp := hfurther.putOn (h.fast_and_clean 5000000 0.005)
  have hreconciled := hspedUp.reconcile (by decide) (averageSize_mono hsize)
  have hnetwork : (Conditions.ofFeatures w).network = (Conditions.ofFeatures v).network :=
    h.network.symm
  unfold exactPipeline
  rw [hnetwork]
  cases (Conditions.ofFeatures v).network with
  | wifi | cellular => dsimp only; omega
  | ethernet | satellite | unknown => exact hreconciled

/-- **Better conditions and larger packets never lower the MTU that the rules arrive at.** -/
theorem monotone_in_conditions {base : ℕ} (hbase : base ≤ largestCount) (bounds : MtuBounds)
    (h : v.NoWorse w) (hsize : w.valueOrMean .averageSize ≤ v.valueOrMean .averageSize) :
    predict base bounds w ≤ predict base bounds v := by
  rw [predict_eq_exact hbase, predict_eq_exact hbase]
  rcases exactPipeline_mono base h hsize with hle | hsmall
  · exact bounds.finalize_mono hle
  · exact bounds.finalize_le_of_le_smallest hsmall _

/-- Packets a little larger than the MTU let the worse path grow, and the better one is still ahead. -/
theorem open_path_ahead :
    1500 ≤ largestCount ∧ (openPath 1600).NoWorse (crowdedPath 1520) ∧
      (crowdedPath 1520).valueOrMean .averageSize ≤ (openPath 1600).valueOrMean .averageSize ∧
      predict 1500 .full (crowdedPath 1520) = 1400 ∧
      1400 ≤ predict 1500 .full (openPath 1600) := by
  have hbase : 1500 ≤ largestCount := by decide
  have hpaths : (openPath 1600).NoWorse (crowdedPath 1520) := by constructor <;> decide +kernel
  have hsize : (crowdedPath 1520).valueOrMean .averageSize
      ≤ (openPath 1600).valueOrMean .averageSize := by decide +kernel
  have hanswer : predict 1500 .full (crowdedPath 1520) = 1400 := by decide +kernel
  refine ⟨hbase, hpaths, hsize, hanswer, ?_⟩
  rw [← hanswer]
  exact monotone_in_conditions hbase .full hpaths hsize

end Rules

end AdaptiveMtu
