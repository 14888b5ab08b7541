/-
Where the finite range ends, and what does not reach its end.

A computed number leaves the range when the exact one is half of a spacing or more beyond the largest
number; below that it is rounded back to the largest one (`nearest_le_maxFinite`).  So adding to a finite
number, however large, does no harm as long as what is added is smaller than that half
(`isFinite_add_of_small`), and this can be repeated.  A zero of either sign is the extreme case: it adds
nothing at all.
-/
import AdaptiveMtu.Proofs.Binary64.Extended

namespace AdaptiveMtu

namespace Binary64

open Float.Model
open Float.Model.UnpackedFloat (Sign)

variable {x y : Float}

/-! ### The end of the range -/

theorem maxFinite_pos : 0 < maxFinite := magnitude_pos canonical_maxFinite.pos 971

/-- No finite number is beyond the largest one. -/
theorem abs_value_le_maxFinite (hx : x.isFinite = true) : |value x| ≤ maxFinite := by
  have hfits := fits_unpacked hx
  rw [value_eq hx]
  cases hu : unpacked x with
  | infinity s | notANumber =>
      rw [hu] at hfits
      exact absurd hfits id
  | zero s =>
      rw [toRat_zero, abs_zero]
      exact maxFinite_pos.le
  | finite s m e hm =>
      obtain ⟨hcanonical, he⟩ := canonical_of_unpacked hu
      have hlt := hcanonical.lt
      show |signed s (m * 2 ^ e)| ≤ _
      rw [abs_signed, abs_of_pos (magnitude_pos hm e), maxFinite]
      refine mul_le_mul ?_ (zpow_le_zpow_right₀ one_le_two he) (zpow_pos two_pos e).le
        (Nat.cast_nonneg _)
      exact_mod_cast Nat.le_sub_one_of_lt hlt

/-- Half of a spacing beyond the largest number, from where on rounding leaves the range. -/
def overflow : ℚ := maxFinite + 2 ^ (970 : ℤ)

theorem overflow_eq : overflow = ((2 ^ 53 - 1 : ℕ) + 1 / 2) * 2 ^ (971 : ℤ) := by
  have hhalf : (2 : ℚ) ^ (971 : ℤ) = 2 * 2 ^ (970 : ℤ) := zpow_one_add₀ two_ne_zero 970
  rw [overflow, maxFinite, hhalf]
  ring

theorem spacingExponent_of_largest {z : ℚ} (hlow : maxFinite ≤ z) (hhigh : z < overflow) :
    spacingExponent z = 971 := by
  have hz : 0 < z := maxFinite_pos.trans_le hlow
  refine le_antisymm ?_ ?_
  · have hlt : z < 2 ^ (1024 : ℤ) := by
      have hpow : (2 : ℚ) ^ (1024 : ℤ) = 2 ^ (53 : ℤ) * 2 ^ (971 : ℤ) :=
        zpow_add₀ two_ne_zero 53 971
      rw [hpow]
      refine hhigh.trans ?_
      rw [overflow_eq]
      refine mul_lt_mul_of_pos_right ?_ (zpow_pos two_pos 971)
      norm_num
    have hlog : Int.log 2 z < 1024 := (Int.lt_zpow_iff_log_lt one_lt_two hz).mp hlt
    rw [spacingExponent, abs_of_pos hz]
    omega
  · have hexponent : spacingExponent maxFinite = 971 :=
      spacingExponent_of_canonical canonical_maxFinite
    rw [← hexponent]
    refine spacingExponent_mono maxFinite_pos.ne' ?_
    rwa [abs_of_pos maxFinite_pos, abs_of_pos hz]

/-- **What is less than half of a spacing beyond the largest number is rounded to that number.** -/
theorem nearest_le_maxFinite {z : ℚ} (hz : z < overflow) : nearest z ≤ maxFinite := by
  have hmax : nearest maxFinite = maxFinite := nearest_of_canonical canonical_maxFinite .positive
  rcases le_or_gt z maxFinite with hle | hgt
  · exact (nearest_mono hle).trans_eq hmax
  · have hspacing : (0 : ℚ) < 2 ^ (971 : ℤ) := zpow_pos two_pos _
    have hpos : 0 < z := maxFinite_pos.trans hgt
    have hlow : ((2 ^ 53 - 1 : ℕ) : ℚ) ≤ z / 2 ^ (971 : ℤ) := (le_div_iff₀ hspacing).mpr hgt.le
    have hhigh : z / 2 ^ (971 : ℤ) < (2 ^ 53 - 1 : ℕ) + 1 / 2 := by
      rw [div_lt_iff₀ hspacing, ← overflow_eq]
      exact hz
    have hfloor : ⌊z / 2 ^ (971 : ℤ)⌋₊ = 2 ^ 53 - 1 := by
      rw [Nat.floor_eq_iff (div_nonneg hpos.le hspacing.le)]
      exact ⟨hlow, by linarith⟩
    have hround : roundEven (z / 2 ^ (971 : ℤ)) = 2 ^ 53 - 1 := by
      rw [roundEven, hfloor, if_pos (by linarith)]
    rw [nearest_of_pos hpos, spacing, spacingExponent_of_largest hgt.le hz, hround, maxFinite]

theorem abs_nearest_lt_of_lt_overflow {z : ℚ} (hz : |z| < overflow) :
    |nearest z| < 2 ^ (1024 : ℤ) := by
  rw [abs_nearest]
  exact (nearest_le_maxFinite hz).trans_lt maxFinite_lt

/-! ### Small next to the end of the range -/

/-- **Adding less than half of the largest spacing leaves a finite number finite**, however large it is. -/
theorem isFinite_add_of_small (hx : x.isFinite = true) (hy : y.isFinite = true)
    (hsmall : |value y| < 2 ^ (970 : ℤ)) : (x + y).isFinite = true := by
  have hsum : |value x + value y| < overflow :=
    calc |value x + value y| ≤ |value x| + |value y| := abs_add_le _ _
      _ < overflow := add_lt_add_of_le_of_lt (abs_value_le_maxFinite hx) hsmall
  rw [value_eq hx, value_eq hy] at hsum
  exact (finite_of_nearest_lt (unpacked_add x y) (add_rounded (fits_unpacked hx) (fits_unpacked hy))
    (abs_nearest_lt_of_lt_overflow hsum)).1

/-- A product that is not beyond a power of two is not rounded beyond it. -/
theorem mul_le_two_pow {n : ℕ} (hn : n ≤ 1000) (hx : x.isFinite = true) (hy : y.isFinite = true)
    (h : |value x * value y| ≤ 2 ^ n) : (x * y).isFinite = true ∧ |value (x * y)| ≤ 2 ^ n := by
  have hspec := mul_spec hx hy (h.trans (two_pow_le_maxFinite hn))
  refine ⟨hspec.1, ?_⟩
  rw [hspec.2, abs_nearest]
  calc nearest |value x * value y| ≤ nearest (2 ^ n) := nearest_mono h
    _ = 2 ^ n := by
      rw [← zpow_natCast]
      exact nearest_zpow (by omega)

/-- Any number of small terms can be added to a finite number. -/
theorem isFinite_foldl_add {ι : Type} {term : ι → Float} {is : List ι} {start : Float}
    (hstart : start.isFinite = true)
    (hterms : ∀ i ∈ is, (term i).isFinite = true ∧ |value (term i)| < 2 ^ (970 : ℤ)) :
    (is.foldl (fun sum i => sum + term i) start).isFinite = true := by
  induction is generalizing start with
  | nil => exact hstart
  | cons i rest ih =>
      obtain ⟨hfinite, hsmall⟩ := hterms i List.mem_cons_self
      rw [List.foldl_cons]
      refine ih (isFinite_add_of_small hstart hfinite hsmall) ?_
      intro j hj
      exact hterms j (List.mem_cons_of_mem _ hj)

/-- A running sum that is finite has finite terms. -/
theorem isFinite_of_foldl_add {ι : Type} {term : ι → Float} {is : List ι} {start : Float}
    (h : (is.foldl (fun sum i => sum + term i) start).isFinite = true) :
    start.isFinite = true ∧ ∀ i ∈ is, (term i).isFinite = true := by
  induction is generalizing start with
  | nil => exact ⟨h, fun i hi => by cases hi⟩
  | cons i rest ih =>
      obtain ⟨hfirst, hrest⟩ := ih h
      obtain ⟨hstart, hterm⟩ := isFinite_of_add hfirst
      exact ⟨hstart, List.forall_mem_cons.mpr ⟨hterm, hrest⟩⟩

/-! ### What is not too small to be told from zero -/

/-- Rounding brings nothing below a power of two that was not below it. -/
theorem zpow_le_abs_nearest {e : ℤ} {z : ℚ} (he : -1022 ≤ e) (h : 2 ^ e ≤ |z|) :
    2 ^ e ≤ |nearest z| := by
  rw [abs_nearest, ← nearest_zpow he]
  exact nearest_mono h

/-- **A number that differs from another one differs from it by a fair share of its size.** -/
theorem zpow_le_abs_sub {e : ℤ} (hlarge : 2 ^ (e + 53) ≤ |value y|) (hne : value x ≠ value y) :
    2 ^ e ≤ |value x - value y| := by
  have hpow : (2 : ℚ) ^ (e + 53) = 2 * 2 ^ (e + 52) := by
    rw [← zpow_one_add₀ two_ne_zero]
    congr 1
    ring
  rcases lt_or_ge |value x| (2 ^ (e + 52)) with hsmall | hgrid
  · -- Numbers of different size are as far apart as the larger one is large.
    have hfar : |value y| - |value x| ≤ |value x - value y| := by
      rw [abs_sub_comm]
      exact abs_sub_abs_le_abs_sub _ _
    have hle : (2 : ℚ) ^ e ≤ 2 ^ (e + 52) := zpow_le_zpow_right₀ one_le_two (by omega)
    linarith
  · obtain ⟨j, hj⟩ := exists_multiple_of_le_abs hgrid
    obtain ⟨k, hk⟩ : ∃ k : ℤ, value y = k * 2 ^ e := by
      refine exists_multiple_of_le_abs (le_trans ?_ hlarge)
      exact zpow_le_zpow_right₀ one_le_two (by omega)
    rw [hj, hk] at hne
    have hjk : 1 ≤ |j - k| := Int.one_le_abs (sub_ne_zero.mpr fun heq => hne (by rw [heq]))
    have hone : (1 : ℚ) ≤ |(j : ℚ) - k| := by exact_mod_cast hjk
    have hpos : (0 : ℚ) < 2 ^ e := zpow_pos two_pos e
    rw [hj, hk, ← sub_mul, abs_mul, abs_of_pos hpos]
    exact le_mul_of_one_le_left hpos.le hone

/-! ### Zeros -/

/-- A product with a zero is a zero. -/
theorem mul_zero_spec (hx : x.isFinite = true) (hy : y.isFinite = true) (hzero : value y = 0) :
    (x * y).isFinite = true ∧ value (x * y) = 0 := by
  have hproduct : value x * value y = 0 := by rw [hzero, mul_zero]
  have h := mul_spec hx hy (by rw [hproduct, abs_zero]; exact maxFinite_pos.le)
  rwa [hproduct, nearest_zero] at h

/-- Adding a zero adds nothing. -/
theorem add_zero_spec (hx : x.isFinite = true) (hy : y.isFinite = true) (hzero : value y = 0) :
    (x + y).isFinite = true ∧ value (x + y) = value x := by
  have hsum : value x + value y = value x := by rw [hzero, add_zero]
  have h := add_spec hx hy (by rw [hsum]; exact abs_value_le_maxFinite hx)
  rwa [hsum, nearest_value hx] at h

/-! ### Equality -/

/-- **Finite numbers are equal if they are the same rational**, so that the two zeros are. -/
theorem beq_iff (hx : x.isFinite = true) (hy : y.isFinite = true) :
    (x == y) = true ↔ value x = value y := by
  have hlt : x < y ↔ ((unpacked x).compare (unpacked y) == some .lt) = true := decide_eq_true_iff
  have hgt : y < x ↔ ((unpacked y).compare (unpacked x) == some .lt) = true := decide_eq_true_iff
  rw [lt_iff hx hy] at hlt
  rw [lt_iff hy hx, compare_swap] at hgt
  show ((unpacked x).compare (unpacked y) == some .eq) = true ↔ _
  cases hcompare : (unpacked x).compare (unpacked y) with
  | none => exact absurd hcompare (compare_ne_none hx hy)
  | some order =>
      rw [hcompare] at hlt hgt
      cases order with
      | lt => exact iff_of_false (by decide) (hlt.mpr rfl).ne
      | gt => exact iff_of_false (by decide) (hgt.mpr rfl).ne'
      | eq =>
          refine iff_of_true rfl (le_antisymm ?_ ?_)
          · exact not_lt.mp fun h => by cases hgt.mp h
          · exact not_lt.mp fun h => by cases hlt.mp h

/-- Nothing but a finite number is equal to a finite number. -/
theorem isFinite_of_beq (hy : y.isFinite = true) (h : (x == y) = true) : x.isFinite = true := by
  replace h : (unpacked x).compare (unpacked y) = some .eq := beq_iff_eq.mp h
  rw [isFinite_eq] at hy ⊢
  cases hx : unpacked x with
  | zero _ | finite _ _ _ _ => rfl
  | notANumber =>
      rw [hx] at h
      cases h
  | infinity s =>
      rw [hx] at h
      cases hu : unpacked y with
      | notANumber | infinity _ =>
          rw [hu] at hy
          cases hy
      | zero _ | finite _ _ _ _ =>
          rw [hu] at h
          cases s <;> cases h

end Binary64

end AdaptiveMtu
