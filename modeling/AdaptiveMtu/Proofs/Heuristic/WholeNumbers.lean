/-
The heuristics in whole numbers.

Both heuristics scale an MTU several times over and branch on what is left.  Here they are written down
with fractions of whole numbers, and shown to arrive at the same MTU.  While the MTU is small both go through
the same numbers; once it is large they may differ, also in the branches that they take, but `Alike` is
kept: a step at most halves an MTU, and what is beyond all bounds at the end is cut down to the same bound.
-/
import AdaptiveMtu.Heuristic.Decision
import AdaptiveMtu.Heuristic.Rules
import AdaptiveMtu.Proofs.Bounds
import AdaptiveMtu.Proofs.Heuristic.Scaling

namespace AdaptiveMtu

open Binary64

/-! ### The pipelines -/

/-- Reconciling an MTU with the average packet size, in whole numbers. -/
def exactReconcile (mtu averageSize : ℕ) : ℕ :=
  if mtu < averageSize then min (mtu * 21 / 20) (averageSize + 100)
  else if averageSize < mtu / 2 then mtu * 19 / 20
  else mtu

/-- The rules in whole numbers. -/
def Rules.exactPipeline (base : ℕ) (c : Conditions) : ℕ :=
  let eased := if 100 < c.rtt || 0.01 < c.loss then base * 9 / 10 else base
  let easedFurther := if 200 < c.rtt || 0.05 < c.loss then eased * 9 / 10 else eased
  let spedUp :=
    if 5000000 < c.throughput && c.loss < 0.005 then easedFurther * 11 / 10 else easedFurther
  let reconciled := exactReconcile spedUp c.averageSize
  match c.network with
  | .wifi => reconciled * 19 / 20
  | .cellular => reconciled * 17 / 20
  | .ethernet | .satellite | .unknown => reconciled

/-- The decision model in whole numbers. -/
def Decision.exactPipeline (bounds : MtuBounds) (c : Conditions) : ℕ :=
  let mtu := baseline c.network
  let adjusted :=
    if 200 < c.rtt || 0.05 < c.loss then mtu * 4 / 5
    else if c.rtt < 20 && c.loss < 0.001 && 50000000 < c.throughput then
      min (mtu * 13 / 10) bounds.max
    else mtu
  exactReconcile adjusted c.averageSize

/-! ### MTUs that are the same or both large -/

/-- A count that is the same as another and small enough to be scaled exactly, or one of two that are at
least `low`. -/
structure Alike (low mtu exact : ℕ) : Prop where
  count : mtu ≤ largestCount
  same_or_large : mtu = exact ∧ mtu ≤ exactLimit ∨ low ≤ mtu ∧ low ≤ exact

variable {low mtu exact : ℕ}

theorem alike_self (hlow : low ≤ exactLimit) (hmtu : mtu ≤ largestCount) : Alike low mtu mtu := by
  refine ⟨hmtu, ?_⟩
  by_cases hsmall : mtu ≤ exactLimit
  · exact .inl ⟨rfl, hsmall⟩
  · exact .inr ⟨by omega, by omega⟩

namespace Alike

theorem of_eq (hlow : low ≤ exactLimit) (hmtu : mtu ≤ largestCount) (h : mtu = exact) :
    Alike low mtu exact := h ▸ alike_self hlow hmtu

theorem halve (h : Alike (2 * low) mtu exact) : Alike low mtu exact := by
  refine ⟨h.count, h.same_or_large.imp_right fun hlarge => ?_⟩
  omega

/-- Scaling keeps two MTUs alike. -/
theorem scale {factor : Float} {num den : ℕ} (hfactor : StandsForFraction factor num den)
    (hlow : low ≤ exactLimit) (h : Alike (2 * low) mtu exact) :
    Alike low (scaleMtu mtu factor) (exact * num / den) := by
  have hcount : scaleMtu mtu factor ≤ largestCount := Nat.le_of_lt_succ (UInt64.toNat_lt _)
  rcases h.same_or_large with ⟨rfl, hsmall⟩ | ⟨hlarge, hlarge'⟩
  · exact of_eq hlow hcount (hfactor.scaleMtu_eq hsmall)
  · exact ⟨hcount, .inr ⟨hfactor.le_scaleMtu h.count hlarge hlow, hfactor.le_mul_div hlarge'⟩⟩

/-- One rule, which applies to both or to none, keeps two MTUs alike. -/
theorem scaleIf {factor : Float} {num den : ℕ} (applies : Bool)
    (hfactor : StandsForFraction factor num den) (hlow : low ≤ exactLimit)
    (h : Alike (2 * low) mtu exact) :
    Alike low (if applies then scaleMtu mtu factor else mtu)
      (if applies then exact * num / den else exact) := by
  cases applies with
  | true => exact h.scale hfactor hlow
  | false => exact h.halve

/-- Bounds do not tell two MTUs apart that are alike beyond the largest MTU. -/
theorem clamp_eq (h : Alike largestMtu mtu exact) (bounds : MtuBounds) :
    bounds.clamp mtu = bounds.clamp exact := by
  have hmax : ∀ n, largestMtu ≤ n → bounds.clamp n = bounds.max := by
    intro n hn
    have hle := bounds.min_le_max
    have hlargest := bounds.max_le_largest
    unfold MtuBounds.clamp clampNat
    split
    · omega
    · split <;> omega
  rcases h.same_or_large with ⟨rfl, -⟩ | ⟨hlarge, hlarge'⟩
  · rfl
  · rw [hmax mtu hlarge, hmax exact hlarge']

end Alike

/-! ### Reconciling -/

theorem le_reconcileSize (hmtu : mtu ≤ largestCount) (hlow : low ≤ exactLimit) (h : 2 * low ≤ mtu)
    (averageSize : ℕ) : low ≤ reconcileSize mtu averageSize := by
  have hgrown := twentyOneTwentieths.le_scaleMtu hmtu h hlow
  have hshrunk := nineteenTwentieths.le_scaleMtu hmtu h hlow
  unfold reconcileSize
  split
  · omega
  · split <;> omega

theorem le_exactReconcile (h : 2 * low ≤ exact) (averageSize : ℕ) :
    low ≤ exactReconcile exact averageSize := by
  have hgrown := twentyOneTwentieths.le_mul_div h
  have hshrunk := nineteenTwentieths.le_mul_div h
  unfold exactReconcile
  split
  · omega
  · split <;> omega

theorem reconcileSize_eq (h : mtu ≤ exactLimit) (averageSize : ℕ) :
    reconcileSize mtu averageSize = exactReconcile mtu averageSize := by
  unfold reconcileSize exactReconcile
  rw [twentyOneTwentieths.scaleMtu_eq h, nineteenTwentieths.scaleMtu_eq h]
  -- What has grown is still a count, so that the sum does not have to be one.
  have hgrown : mtu * 21 / 20 ≤ largestCount := by
    unfold exactLimit at h
    unfold largestCount
    omega
  split
  · omega
  · rfl

theorem reconcileSize_le (hmtu : mtu ≤ largestCount) (averageSize : ℕ) :
    reconcileSize mtu averageSize ≤ largestCount := by
  have hshrunk : scaleMtu mtu 0.95 ≤ largestCount := Nat.le_of_lt_succ (UInt64.toNat_lt _)
  unfold reconcileSize
  split
  · omega
  · split <;> omega

theorem Alike.reconcile (hlow : low ≤ exactLimit) (h : Alike (2 * low) mtu exact) (averageSize : ℕ) :
    Alike low (reconcileSize mtu averageSize) (exactReconcile exact averageSize) := by
  have hcount := reconcileSize_le h.count averageSize
  rcases h.same_or_large with ⟨rfl, hsmall⟩ | ⟨hlarge, hlarge'⟩
  · exact of_eq hlow hcount (reconcileSize_eq hsmall averageSize)
  · exact ⟨hcount, .inr ⟨le_reconcileSize h.count hlow hlarge averageSize,
      le_exactReconcile hlarge' averageSize⟩⟩

/-! ### Both heuristics -/

theorem Rules.alike_pipeline {base : ℕ} (hbase : base ≤ largestCount) (c : Conditions) :
    Alike largestMtu (pipeline base c) (exactPipeline base c) := by
  have hstart : Alike (2 * (2 * (2 * (2 * (2 * largestMtu))))) base base :=
    alike_self (by decide) hbase
  have heased : Alike _ (easeOff c base) _ :=
    hstart.scaleIf (100 < c.rtt || 0.01 < c.loss) nineTenths (by decide)
  have hfurther : Alike _ (easeOffFurther c _) _ :=
    heased.scaleIf (200 < c.rtt || 0.05 < c.loss) nineTenths (by decide)
  have hspedUp : Alike _ (speedUp c _) _ :=
    hfurther.scaleIf (5000000 < c.throughput && c.loss < 0.005) elevenTenths (by decide)
  have hreconciled := hspedUp.reconcile (by decide) c.averageSize
  unfold pipeline exactPipeline forNetwork
  cases c.network with
  | wifi => exact hreconciled.scale nineteenTwentieths (by decide)
  | cellular => exact hreconciled.scale seventeenTwentieths (by decide)
  | ethernet | satellite | unknown => exact hreconciled.halve

/-- The decision model never has a large MTU before it is reconciled. -/
theorem Decision.pipeline_eq (bounds : MtuBounds) (c : Conditions) :
    pipeline bounds c = exactPipeline bounds c := by
  have hbase : baseline c.network ≤ 1500 := by
    cases c.network <;> decide
  have hsmall : baseline c.network ≤ exactLimit := hbase.trans (by decide)
  unfold pipeline exactPipeline adjust
  rw [fourFifths.scaleMtu_eq hsmall, thirteenTenths.scaleMtu_eq hsmall]
  refine reconcileSize_eq ?_ _
  have hlimit : 2 * 1500 ≤ exactLimit := by decide
  split
  · omega
  · split <;> omega

/-- **Both heuristics arrive at the MTU that they would arrive at in whole numbers.** -/
theorem heuristics_exact {base : ℕ} (hbase : base ≤ largestCount) (bounds : MtuBounds)
    (v : FeatureVector) :
    let c := Conditions.ofFeatures v
    Rules.predict base bounds v = (bounds.clamp (Rules.exactPipeline base c) + 50) / 100 * 100 ∧
    Decision.predict bounds v
      = (bounds.clamp (Decision.exactPipeline bounds c) + 50) / 100 * 100 := by
  have hround : ∀ mtu, roundToHundred (bounds.clamp mtu) = (bounds.clamp mtu + 50) / 100 * 100 := by
    intro mtu
    have := (bounds.clamp_mem mtu).2.trans bounds.max_le_largest
    exact roundToHundred_eq ((Nat.add_le_add_right this 50).trans (by decide))
  intro c
  constructor
  · rw [← (Rules.alike_pipeline hbase c).clamp_eq bounds]
    exact hround _
  · rw [← Decision.pipeline_eq bounds c]
    exact hround _

/-- A lossy cellular path, from the largest base that there is. -/
theorem lossy_path_exact :
    let v := (FeatureVector.empty.set .loss 0.06).set .network 3
    largestCount ≤ largestCount ∧ Rules.predict largestCount .full v = 9000 ∧
      Decision.predict .full v = 1000 := by
  intro v
  obtain ⟨hrules, hdecision⟩ := heuristics_exact (Nat.le_refl largestCount) .full v
  exact ⟨Nat.le_refl _, hrules.trans (by decide +kernel), hdecision.trans (by decide +kernel)⟩

end AdaptiveMtu
