/-
Better paths under the decision model.

The boost of an excellent path is cut at the largest MTU allowed before the packet size is looked at.  Where it
is cut and the packets are smaller than half of that MTU, a twentieth comes off the bound itself, while a
path without the boost may still be above the bound after it has lost its own twentieth, and be cut down
to it at the very end.  This is the only way in which better conditions come to a lower MTU, and
it costs no more than one hundred, because a boost that is cut ends below two thousand.
-/
import AdaptiveMtu.Proofs.Heuristic.BetterPath

namespace AdaptiveMtu

namespace Decision

open Binary64

variable {v w : FeatureVector} {bounds : MtuBounds} {c : Conditions} {mtu : ℕ}

/-! ### Branches -/

/-- The conditions that take off a fifth. -/
def Poor (c : Conditions) : Prop := (200 < c.rtt || 0.05 < c.loss) = true

/-- The conditions that bring the boost. -/
def Excellent (c : Conditions) : Prop :=
  (c.rtt < 20 && c.loss < 0.001 && 50000000 < c.throughput) = true

theorem Excellent.not_poor (h : Excellent c) : ¬ Poor c := by
  unfold Excellent at h
  unfold Poor
  simp only [Bool.and_eq_true, Bool.or_eq_true, decide_eq_true_iff] at h ⊢
  rintro (hrtt | hloss)
  · have hslow : (200 : Float) < 20 := lt_of_le_of_lt (le_of_lt hrtt) h.1.1
    exact absurd hslow (by decide +kernel)
  · have hlossy : (0.05 : Float) < 0.001 := lt_of_le_of_lt (le_of_lt hloss) h.1.2
    exact absurd hlossy (by decide +kernel)

theorem adjust_of_poor (h : Poor c) (hmtu : mtu ≤ exactLimit) :
    adjust bounds c mtu = mtu * 4 / 5 :=
  (if_pos h).trans (fourFifths.scaleMtu_eq hmtu)

theorem adjust_of_excellent (h : Excellent c) (hmtu : mtu ≤ exactLimit) :
    adjust bounds c mtu = min (mtu * 13 / 10) bounds.max := by
  rw [← thirteenTenths.scaleMtu_eq hmtu]
  exact (if_neg h.not_poor).trans (if_pos h)

theorem adjust_of_ordinary (hpoor : ¬ Poor c) (hexcellent : ¬ Excellent c) :
    adjust bounds c mtu = mtu :=
  (if_neg hpoor).trans (if_neg hexcellent)

theorem adjust_le (h : ¬ Excellent c) (hmtu : mtu ≤ exactLimit) : adjust bounds c mtu ≤ mtu := by
  by_cases hpoor : Poor c
  · rw [adjust_of_poor hpoor hmtu]
    omega
  · exact (adjust_of_ordinary hpoor h).le

theorem baseline_mem (network : NetworkType) :
    1200 ≤ baseline network ∧ baseline network ≤ 1500 := by
  cases network <;> decide

theorem baseline_le_exactLimit (network : NetworkType) : baseline network ≤ exactLimit :=
  (baseline_mem network).2.trans (by decide)

theorem predict_eq_exact (bounds : MtuBounds) (v : FeatureVector) :
    let c := Conditions.ofFeatures v
    predict bounds v
      = bounds.finalize (exactReconcile (adjust bounds c (baseline c.network)) c.averageSize) := by
  intro c
  have hbase := baseline_le_exactLimit c.network
  have hsmall : adjust bounds c (baseline c.network) ≤ exactLimit := by
    by_cases h : Excellent c
    · have hlimit : 2 * 1500 ≤ exactLimit := by decide
      have := (baseline_mem c.network).2
      rw [adjust_of_excellent h hbase]
      omega
    · exact (adjust_le h hbase).trans hbase
  rw [predict, pipeline, reconcileSize_eq hsmall]

/-! ### Paths that are no worse -/

theorem Poor.of_noWorse (h : v.NoWorse w) (hpoor : Poor (Conditions.ofFeatures v)) :
    Poor (Conditions.ofFeatures w) :=
  h.slow_or_lossy 200 0.05 hpoor

theorem Excellent.of_noWorse (h : v.NoWorse w) (hexcellent : Excellent (Conditions.ofFeatures w)) :
    Excellent (Conditions.ofFeatures v) := by
  unfold Excellent at hexcellent ⊢
  simp only [Bool.and_eq_true, decide_eq_true_iff] at hexcellent ⊢
  exact ⟨⟨lt_of_le_of_lt h.rtt hexcellent.1.1, lt_of_le_of_lt h.loss hexcellent.1.2⟩,
    lt_of_lt_of_le hexcellent.2 h.throughput⟩

/-- Without the boost, the better path starts with the same MTU or with one that is well ahead. -/
theorem adjust_cases (h : v.NoWorse w) (hv : ¬ Excellent (Conditions.ofFeatures v))
    (hmtu : mtu ≤ exactLimit) :
    adjust bounds (Conditions.ofFeatures w) mtu = adjust bounds (Conditions.ofFeatures v) mtu ∨
      20 * adjust bounds (Conditions.ofFeatures w) mtu
        ≤ 19 * adjust bounds (Conditions.ofFeatures v) mtu := by
  have hw : ¬ Excellent (Conditions.ofFeatures w) := fun hw => hv (hw.of_noWorse h)
  by_cases hpoor : Poor (Conditions.ofFeatures v)
  · rw [adjust_of_poor hpoor hmtu, adjust_of_poor (hpoor.of_noWorse h) hmtu]
    exact .inl rfl
  · rw [adjust_of_ordinary hpoor hv]
    by_cases hpoor' : Poor (Conditions.ofFeatures w)
    · rw [adjust_of_poor hpoor' hmtu]
      omega
    · exact .inl (adjust_of_ordinary hpoor' hw)

/-! ### A boost that is cut -/

/-- The boost of a path is cut at the largest MTU allowed, and its packets are smaller than half of that. -/
structure BoostCut (bounds : MtuBounds) (c : Conditions) : Prop where
  excellent : Excellent c
  cut : bounds.max < baseline c.network * 13 / 10
  small : c.averageSize < bounds.max / 2

theorem le_exactReconcile_of_half_le {size : ℕ} (h : mtu / 2 ≤ size) :
    mtu ≤ exactReconcile mtu size := by
  unfold exactReconcile
  split_ifs <;> omega

/-- A boost that ends at the bound ends above every other MTU, unless the packets are small. -/
theorem finalize_le_of_cut (hexcellent : Excellent c) (hcut : bounds.max < baseline c.network * 13 / 10)
    (hsize : bounds.max / 2 ≤ c.averageSize) (mtu : ℕ) :
    bounds.finalize mtu ≤ bounds.finalize
      (exactReconcile (adjust bounds c (baseline c.network)) c.averageSize) := by
  rw [adjust_of_excellent hexcellent (baseline_le_exactLimit _), min_eq_right hcut.le]
  exact (bounds.finalize_le_finalize_max mtu).trans
    (bounds.finalize_mono (le_exactReconcile_of_half_le hsize))

/-- A boost that is not cut is well ahead of every MTU without it. -/
theorem exactReconcile_le_of_boost (hexcellent : Excellent c)
    (hcut : ¬ bounds.max < baseline c.network * 13 / 10) (hmtu : mtu ≤ baseline c.network) (size : ℕ) :
    exactReconcile mtu size
      ≤ exactReconcile (adjust bounds c (baseline c.network)) size := by
  have hbase := (baseline_mem c.network).1
  rw [adjust_of_excellent hexcellent (baseline_le_exactLimit _), min_eq_left (not_lt.mp hcut)]
  exact exactReconcile_mono_of_gap (by omega) (Nat.le_refl size)

/-- A twentieth of a bound that cuts a boost is less than one hundred. -/
theorem finalize_max_le (hcut : bounds.max < baseline c.network * 13 / 10) :
    bounds.finalize bounds.max ≤ bounds.finalize (bounds.max * 19 / 20) + 100 := by
  have hmax : bounds.max < 1950 := hcut.trans_le (by have := (baseline_mem c.network).2; omega)
  obtain ⟨hmin, hle⟩ := bounds.clamp_mem (bounds.max * 19 / 20)
  have hlow : bounds.max * 19 / 20 ≤ bounds.clamp (bounds.max * 19 / 20) := by
    unfold MtuBounds.clamp clampNat
    split_ifs <;> omega
  have hroom : bounds.max + 50 ≤ largestCount := by
    unfold largestCount
    omega
  unfold MtuBounds.finalize
  rw [bounds.clamp_of_mem bounds.min_le_max (Nat.le_refl _), roundToHundred_eq hroom,
    roundToHundred_eq (by omega)]
  omega

/-- **Better conditions never lower the MTU of the decision model, except that a boost that is cut may
cost a hundred where the packets are small.** -/
theorem monotone_but_for_cut_boost (bounds : MtuBounds) (h : v.NoWorse w)
    (hsize : v.valueOrMean .averageSize = w.valueOrMean .averageSize) :
    let c := Conditions.ofFeatures v
    let d := Conditions.ofFeatures w
    (¬ (BoostCut bounds c ∧ ¬ Excellent d) → predict bounds w ≤ predict bounds v) ∧
    (BoostCut bounds c → predict bounds v = bounds.finalize (bounds.max * 19 / 20) ∧
      predict bounds w ≤ predict bounds v + 100) := by
  intro c d
  have hsizes : d.averageSize = c.averageSize := congrArg truncate hsize.symm
  have hnetwork : d.network = c.network := h.network.symm
  have hbase := baseline_le_exactLimit c.network
  have hv : predict bounds v = bounds.finalize
      (exactReconcile (adjust bounds c (baseline c.network)) c.averageSize) := predict_eq_exact bounds v
  have hw : predict bounds w = bounds.finalize
      (exactReconcile (adjust bounds d (baseline c.network)) c.averageSize) := by
    rw [← hsizes, ← hnetwork]
    exact predict_eq_exact bounds w
  constructor
  · intro hcut
    rw [hv, hw]
    by_cases hexcellent : Excellent c
    · by_cases hexcellent' : Excellent d
      · rw [adjust_of_excellent hexcellent hbase, adjust_of_excellent hexcellent' hbase]
      · by_cases hmax : bounds.max < baseline c.network * 13 / 10
        · refine finalize_le_of_cut hexcellent hmax ?_ _
          by_contra hsmall
          exact hcut ⟨⟨hexcellent, hmax, not_le.mp hsmall⟩, hexcellent'⟩
        · exact bounds.finalize_mono
            (exactReconcile_le_of_boost hexcellent hmax (adjust_le hexcellent' hbase) _)
    · rcases adjust_cases h hexcellent hbase with hsame | hgap
      · exact (congrArg (fun mtu => bounds.finalize (exactReconcile mtu c.averageSize)) hsame).le
      · exact bounds.finalize_mono (exactReconcile_mono_of_gap hgap (Nat.le_refl _))
  · intro hboost
    have hmtu : predict bounds v = bounds.finalize (bounds.max * 19 / 20) := by
      have hsmall := hboost.small
      rw [hv, adjust_of_excellent hboost.excellent hbase, min_eq_right hboost.cut.le, exactReconcile,
        if_neg (by omega), if_pos hsmall]
    refine ⟨hmtu, ?_⟩
    rw [hmtu, hw]
    exact (bounds.finalize_le_finalize_max _).trans (finalize_max_le hboost.cut)

/-! ### Where the boost costs a hundred -/

/-- **A path that is fast and clean gets a lower MTU than a crowded one** over which packets have the same
size, three hundred bytes, if no MTU is allowed above 1100. -/
theorem cut_boost_lowers :
    (openPath 300).NoWorse (crowdedPath 300) ∧
      (openPath 300).valueOrMean .averageSize = (crowdedPath 300).valueOrMean .averageSize ∧
      predict (.ofRange 576 1100) (openPath 300) = 1000 ∧
      predict (.ofRange 576 1100) (crowdedPath 300) = 1100 := by
  refine ⟨by constructor <;> decide +kernel, ?_, ?_, ?_⟩ <;> decide +kernel

/-- With packets of eight hundred bytes the boost is cut as well, and the better path is not behind. -/
theorem cut_boost_with_larger_packets :
    (openPath 800).NoWorse (crowdedPath 800) ∧
      (openPath 800).valueOrMean .averageSize = (crowdedPath 800).valueOrMean .averageSize ∧
      predict (.ofRange 576 1100) (crowdedPath 800) = 1100 ∧
      1100 ≤ predict (.ofRange 576 1100) (openPath 800) := by
  have hpaths : (openPath 800).NoWorse (crowdedPath 800) := by constructor <;> decide +kernel
  have hsize : (openPath 800).valueOrMean .averageSize = (crowdedPath 800).valueOrMean .averageSize := by
    decide +kernel
  have hlarge : ¬ BoostCut (.ofRange 576 1100) (Conditions.ofFeatures (openPath 800)) := by
    intro hcut
    exact absurd hcut.small (by decide +kernel)
  have hanswer : predict (.ofRange 576 1100) (crowdedPath 800) = 1100 := by decide +kernel
  refine ⟨hpaths, hsize, hanswer, ?_⟩
  rw [← hanswer]
  exact (monotone_but_for_cut_boost (.ofRange 576 1100) hpaths hsize).1 fun hcut => hlarge hcut.1

end Decision

end AdaptiveMtu
