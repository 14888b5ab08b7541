/-
MTUs, the range that a model answers in, and rounding to whole hundreds.

A pair of bounds always lies within the smallest and the largest MTU and is never crossed: the type
carries the proof, and `MtuBounds.ofRange` repairs any two numbers into such a pair.
-/
import AdaptiveMtu.Binary64.Whole

namespace AdaptiveMtu

/-- The smallest MTU that a model answers. -/
def smallestMtu : Nat := 576

/-- The largest MTU that a model answers. -/
def largestMtu : Nat := 9000

/-- The MTU that is served when no model is there to ask. -/
def fallbackMtu : Nat := 1400

/-- The end of `low ... high` that is nearest to `n`, or `n` itself if it is between them. -/
def clampNat (low high n : Nat) : Nat :=
  if n < low then low else if high < n then high else n

theorem low_le_clampNat {low high : Nat} (h : low ≤ high) (n : Nat) : low ≤ clampNat low high n := by
  unfold clampNat; split
  · exact Nat.le_refl _
  · split <;> omega

theorem clampNat_le_high {low high : Nat} (h : low ≤ high) (n : Nat) :
    clampNat low high n ≤ high := by
  unfold clampNat; split
  · exact h
  · split <;> omega

/-- The multiple of a hundred nearest to an MTU, a half going up; the sum is one of counts, so it wraps. -/
def roundToHundred (mtu : Nat) : Nat := (mtu + 50) % (largestCount + 1) / 100 * 100

/-- A range of MTUs within the smallest and the largest one. -/
structure MtuBounds where
  min : Nat
  max : Nat
  smallest_le_min : smallestMtu ≤ min
  min_le_max : min ≤ max
  max_le_largest : max ≤ largestMtu
deriving DecidableEq

namespace MtuBounds

/-- The range that two numbers stand for: each is moved to the nearest place it may have. -/
def ofRange (min max : Nat) : MtuBounds :=
  let low := clampNat smallestMtu largestMtu min
  have low_le : low ≤ largestMtu := clampNat_le_high (by decide) min
  { min := low
    max := clampNat low largestMtu max
    smallest_le_min := low_le_clampNat (by decide) min
    min_le_max := low_le_clampNat low_le max
    max_le_largest := clampNat_le_high low_le max }

/-- The widest range. -/
def full : MtuBounds := ⟨smallestMtu, largestMtu, by decide, by decide, by decide⟩

/-- The MTU of the range that is nearest to the given one. -/
def clamp (b : MtuBounds) (mtu : Nat) : Nat := clampNat b.min b.max mtu

/-- The nearest MTU of the range, rounded to a whole hundred. -/
def finalize (b : MtuBounds) (mtu : Nat) : Nat := roundToHundred (b.clamp mtu)

end MtuBounds

end AdaptiveMtu
