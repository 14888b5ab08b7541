/-
The order of all numbers but NaN.

Finite numbers are in the order of the rationals that they are, and the infinities are at its two ends.
NaN has no place among them, and no comparison with it holds.  So comparisons that hold can be chained, whatever
the numbers are.
-/
import AdaptiveMtu.Proofs.Binary64.InRange
import Mathlib.Data.EReal.Basic

namespace AdaptiveMtu

namespace Binary64

open Float.Model
open Float.Model.UnpackedFloat (Sign)

/-- The place of an unpacked number among the extended reals; NaN has none. -/
noncomputable def place : UnpackedFloat → Option EReal
  | .notANumber => none
  | .infinity .negative => some ⊥
  | .infinity .positive => some ⊤
  | .zero s => some (toRat (.zero s) : ℝ)
  | .finite s m e hm => some (toRat (.finite s m e hm) : ℝ)

/-- **Numbers of the format and the infinities are in the order of their places.** -/
theorem unpackedLt_iff_place {a b : UnpackedFloat} (ha : a.isFinite = true → Fits a)
    (hb : b.isFinite = true → Fits b) :
    a.lt b = true ↔ ∃ p ∈ place a, ∃ q ∈ place b, p < q := by
  have hsigns : compare Sign.negative Sign.positive = .lt := rfl
  cases a with
  | notANumber => simp [place, UnpackedFloat.lt, UnpackedFloat.compare]
  | infinity s =>
      cases b with
      | infinity s' =>
          cases s <;> cases s' <;> simp [place, UnpackedFloat.lt, UnpackedFloat.compare, hsigns]
      | notANumber | zero _ | finite _ _ _ _ =>
          cases s <;> simp [place, UnpackedFloat.lt, UnpackedFloat.compare]
  | zero s | finite s m e hm =>
      cases b with
      | notANumber => simp [place, UnpackedFloat.lt, UnpackedFloat.compare]
      | infinity s' => cases s' <;> simp [place, UnpackedFloat.lt, UnpackedFloat.compare]
      | zero s' | finite s' m' e' hm' =>
          rw [unpackedLt_iff (ha rfl) (hb rfl)]
          simp [place]

variable {x y z : Float}

theorem lt_iff_place : x < y ↔ ∃ p ∈ place (unpacked x), ∃ q ∈ place (unpacked y), p < q :=
  decide_eq_true_iff.trans
    (unpackedLt_iff_place (fun h => fits_unpacked h) fun h => fits_unpacked h)

theorem exists_mem_place {u : UnpackedFloat} (h : u ≠ .notANumber) : ∃ p, p ∈ place u := by
  cases u with
  | notANumber => exact absurd rfl h
  | infinity s => cases s <;> exact ⟨_, rfl⟩
  | zero s | finite s m e hm => exact ⟨_, rfl⟩

/-- What is at most a number has a place that is at most its place. -/
theorem exists_place_of_le (h : x ≤ y) :
    ∃ p ∈ place (unpacked x), ∃ q ∈ place (unpacked y), p ≤ q := by
  have hle : ((unpacked x).compare (unpacked y)).any (·.isLE) = true := of_decide_eq_true h
  have hx : unpacked x ≠ .notANumber := by
    intro hnan
    rw [hnan] at hle
    cases hle
  have hy : unpacked y ≠ .notANumber := by
    intro hnan
    rw [hnan, compare_swap] at hle
    cases hle
  obtain ⟨p, hp⟩ := exists_mem_place hx
  obtain ⟨q, hq⟩ := exists_mem_place hy
  refine ⟨p, hp, q, hq, not_lt.mp ?_⟩
  intro hlt
  exact not_lt_of_le h (lt_iff_place.mpr ⟨q, hq, p, hp, hlt⟩)

/-! ### Chains of comparisons -/

theorem le_of_lt (h : x < y) : x ≤ y := by
  have hlt : ((unpacked x).compare (unpacked y) == some .lt) = true := of_decide_eq_true h
  refine decide_eq_true_iff.mpr ?_
  show ((unpacked x).compare (unpacked y)).any (·.isLE) = true
  rw [beq_iff_eq.mp hlt]
  rfl

theorem lt_of_le_of_lt (h : x ≤ y) (h' : y < z) : x < z := by
  obtain ⟨p, hp, q, hq, hle⟩ := exists_place_of_le h
  obtain ⟨q', hq', r, hr, hlt⟩ := lt_iff_place.mp h'
  cases Option.mem_unique hq hq'
  exact lt_iff_place.mpr ⟨p, hp, r, hr, hle.trans_lt hlt⟩

theorem lt_of_lt_of_le (h : x < y) (h' : y ≤ z) : x < z := by
  obtain ⟨p, hp, q, hq, hlt⟩ := lt_iff_place.mp h
  obtain ⟨q', hq', r, hr, hle⟩ := exists_place_of_le h'
  cases Option.mem_unique hq hq'
  exact lt_iff_place.mpr ⟨p, hp, r, hr, hlt.trans_le hle⟩

/-! ### Finite numbers -/

theorem compare_ne_none {a b : UnpackedFloat} (ha : a.isFinite = true) (hb : b.isFinite = true) :
    a.compare b ≠ none := by
  cases a with
  | infinity _ | notANumber => cases ha
  | zero s =>
      cases b with
      | infinity _ | notANumber => cases hb
      | zero s' => exact Option.some_ne_none _
      | finite s' m' e' hm' => cases s' <;> exact Option.some_ne_none _
  | finite s m e hm =>
      cases b with
      | infinity _ | notANumber => cases hb
      | zero s' => cases s <;> exact Option.some_ne_none _
      | finite s' m' e' hm' => cases s <;> cases s' <;> exact Option.some_ne_none _

/-- **Finite numbers are in the order of the rationals that they are**, also where they may be equal. -/
theorem le_iff (hx : x.isFinite = true) (hy : y.isFinite = true) : x ≤ y ↔ value x ≤ value y := by
  rw [← not_lt, ← lt_iff hy hx]
  refine ⟨not_lt_of_le, fun hnot => decide_eq_true_iff.mpr ?_⟩
  show ((unpacked x).compare (unpacked y)).any (·.isLE) = true
  cases hcompare : (unpacked x).compare (unpacked y) with
  | none => exact absurd hcompare (compare_ne_none hx hy)
  | some order =>
      cases order with
      | lt | eq => rfl
      | gt =>
          refine absurd (decide_eq_true_iff.mpr ?_) hnot
          show ((unpacked y).compare (unpacked x) == some .lt) = true
          rw [compare_swap, hcompare]
          rfl

/-- Cutting down to counts keeps the order of finite numbers. -/
theorem truncate_mono (hx : x.isFinite = true) (hy : y.isFinite = true) (h : x ≤ y) :
    truncate x ≤ truncate y := by
  have hvalue : value x ≤ value y := by
    have hnot := not_lt_of_le h
    rwa [lt_iff hy hx, not_lt] at hnot
  rw [truncate_eq hx, truncate_eq hy]
  exact min_le_min_right _ (Nat.floor_mono hvalue)

end Binary64

end AdaptiveMtu
