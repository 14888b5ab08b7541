/-
Whole hundreds within bounds.

Bounds leave alone what is within them and nothing else.  Rounding keeps the order of MTUs, so what lies between two bounds is rounded to a whole hundred between the
rounded bounds.  These may be outside the bounds themselves, by half a hundred at most; 576 and
9000 round to 600 and 9000.
-/
import AdaptiveMtu.Bounds

namespace AdaptiveMtu

theorem MtuBounds.clamp_mem (b : MtuBounds) (mtu : Nat) : b.min ≤ b.clamp mtu ∧ b.clamp mtu ≤ b.max :=
  ⟨low_le_clampNat b.min_le_max mtu, clampNat_le_high b.min_le_max mtu⟩

/-- Bounds leave what is within them as it is. -/
theorem MtuBounds.clamp_of_mem (b : MtuBounds) {mtu : Nat} (hmin : b.min ≤ mtu) (hmax : mtu ≤ b.max) :
    b.clamp mtu = mtu := by
  rw [clamp, clampNat, if_neg (Nat.not_lt.mpr hmin), if_neg (Nat.not_lt.mpr hmax)]

/-- Two numbers are bounds as they stand if they are in order and within the smallest and the largest MTU. -/
theorem MtuBounds.ofRange_eq_iff {min max : Nat} :
    (ofRange min max).min = min ∧ (ofRange min max).max = max ↔
      smallestMtu ≤ min ∧ min ≤ max ∧ max ≤ largestMtu := by
  constructor
  · rintro ⟨hmin, hmax⟩
    have hlow := (ofRange min max).smallest_le_min
    have hle := (ofRange min max).min_le_max
    have hhigh := (ofRange min max).max_le_largest
    rw [hmin] at hlow hle
    rw [hmax] at hle hhigh
    exact ⟨hlow, hle, hhigh⟩
  · rintro ⟨hlow, hle, hhigh⟩
    have hmin : (ofRange min max).min = min := full.clamp_of_mem hlow (Nat.le_trans hle hhigh)
    refine ⟨hmin, ?_⟩
    show clampNat (ofRange min max).min largestMtu max = max
    rw [hmin]
    exact clamp_of_mem ⟨min, largestMtu, hlow, Nat.le_trans hle hhigh, Nat.le_refl _⟩ hle hhigh

theorem MtuBounds.clamp_eq_iff (b : MtuBounds) {mtu : Nat} :
    b.clamp mtu = mtu ↔ b.min ≤ mtu ∧ mtu ≤ b.max := by
  constructor
  · intro h
    have hmem := b.clamp_mem mtu
    rwa [h] at hmem
  · rintro ⟨hmin, hmax⟩
    exact b.clamp_of_mem hmin hmax

theorem MtuBounds.clamp_mono (b : MtuBounds) {mtu mtu' : Nat} (h : mtu ≤ mtu') :
    b.clamp mtu ≤ b.clamp mtu' := by
  have hle := b.min_le_max
  unfold clamp clampNat
  repeat' split
  all_goals omega

/-- A whole hundred within a range. -/
structure WholeWithin (low high mtu : Nat) : Prop where
  whole : 100 ∣ mtu
  low_le : low ≤ mtu
  le_high : mtu ≤ high

theorem WholeWithin.mono {low high low' high' mtu : Nat} (h : WholeWithin low high mtu)
    (hlow : low' ≤ low) (hhigh : high ≤ high') : WholeWithin low' high' mtu :=
  ⟨h.whole, Nat.le_trans hlow h.low_le, Nat.le_trans h.le_high hhigh⟩

/-! ### Rounding to a whole hundred -/

theorem hundred_dvd_roundToHundred (mtu : Nat) : 100 ∣ roundToHundred mtu :=
  Nat.dvd_mul_left 100 _

/-- The sum does not wrap for anything near an MTU. -/
theorem roundToHundred_eq {mtu : Nat} (h : mtu + 50 ≤ largestCount) :
    roundToHundred mtu = (mtu + 50) / 100 * 100 := by
  rw [roundToHundred, Nat.mod_eq_of_lt (Nat.lt_succ_of_le h)]

theorem roundToHundred_mono {mtu mtu' : Nat} (h : mtu ≤ mtu') (hmax : mtu' ≤ largestMtu) :
    roundToHundred mtu ≤ roundToHundred mtu' := by
  have hmtu' : mtu' + 50 ≤ largestCount := Nat.le_trans (Nat.add_le_add_right hmax 50) (by decide)
  have hmtu : mtu + 50 ≤ largestCount := Nat.le_trans (Nat.add_le_add_right h 50) hmtu'
  rw [roundToHundred_eq hmtu, roundToHundred_eq hmtu']
  omega

namespace MtuBounds

theorem round_whole (b : MtuBounds) {mtu : Nat} (hmin : b.min ≤ mtu) (hmax : mtu ≤ b.max) :
    WholeWithin (roundToHundred b.min) (roundToHundred b.max) (roundToHundred mtu) where
  whole := hundred_dvd_roundToHundred mtu
  low_le := roundToHundred_mono hmin (Nat.le_trans hmax b.max_le_largest)
  le_high := roundToHundred_mono hmax b.max_le_largest

theorem finalize_whole (b : MtuBounds) (mtu : Nat) :
    WholeWithin (roundToHundred b.min) (roundToHundred b.max) (b.finalize mtu) :=
  b.round_whole (b.clamp_mem mtu).1 (b.clamp_mem mtu).2

theorem finalize_mono (b : MtuBounds) {mtu mtu' : Nat} (h : mtu ≤ mtu') :
    b.finalize mtu ≤ b.finalize mtu' :=
  roundToHundred_mono (b.clamp_mono h) (Nat.le_trans (b.clamp_mem mtu').2 b.max_le_largest)

theorem finalize_le_finalize_max (b : MtuBounds) (mtu : Nat) : b.finalize mtu ≤ b.finalize b.max := by
  have hmax : b.clamp b.max = b.max := b.clamp_of_mem b.min_le_max (Nat.le_refl _)
  unfold finalize
  rw [hmax]
  exact roundToHundred_mono (b.clamp_mem mtu).2 b.max_le_largest

/-- What is not above the smallest MTU is rounded like the lower bound. -/
theorem finalize_le_of_le_smallest (b : MtuBounds) {mtu : Nat} (h : mtu ≤ smallestMtu) (mtu' : Nat) :
    b.finalize mtu ≤ b.finalize mtu' := by
  have hmin := b.smallest_le_min
  have hclamp : b.clamp mtu ≤ b.clamp mtu' := by
    refine Nat.le_trans ?_ (b.clamp_mem mtu').1
    unfold clamp clampNat
    repeat' split
    all_goals omega
  exact roundToHundred_mono hclamp (Nat.le_trans (b.clamp_mem mtu').2 b.max_le_largest)

/-- Bounds round to whole hundreds from 600 to 9000. -/
theorem roundToHundred_bounds (b : MtuBounds) :
    WholeWithin 600 9000 (roundToHundred b.min) ∧ WholeWithin 600 9000 (roundToHundred b.max) := by
  have hmin := roundToHundred_mono b.smallest_le_min (Nat.le_trans b.min_le_max b.max_le_largest)
  have hmax := roundToHundred_mono b.max_le_largest (Nat.le_refl _)
  have hle := roundToHundred_mono b.min_le_max b.max_le_largest
  exact ⟨⟨hundred_dvd_roundToHundred _, hmin, Nat.le_trans hle hmax⟩,
    ⟨hundred_dvd_roundToHundred _, Nat.le_trans hmin hle, hmax⟩⟩

end MtuBounds

end AdaptiveMtu
