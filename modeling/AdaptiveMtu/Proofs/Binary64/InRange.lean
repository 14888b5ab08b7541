/-
Numbers that are in range already.

Bringing a number into a range leaves it as it is if it was in the range: a share between zero and
one, or a count that a binary64 number holds.  Only at zero is there a choice of two
bit patterns, and a number that is held above zero comes out with the positive one.
-/
import AdaptiveMtu.Binary64.Whole
import AdaptiveMtu.Proofs.Binary64.Order
import AdaptiveMtu.Proofs.Binary64.Quotient

namespace AdaptiveMtu

namespace Binary64

open Float.Model
open Float.Model.UnpackedFloat (Sign)

variable {x : Float}

/-! ### Comparing -/

theorem compare_swap (a b : UnpackedFloat) : b.compare a = (a.compare b).map Ordering.swap := by
  cases a with
  | notANumber => cases b <;> rfl
  | infinity s =>
      cases b with
      | infinity s' => cases s <;> cases s' <;> rfl
      | _ => cases s <;> rfl
  | zero s =>
      cases b with
      | notANumber | zero _ => rfl
      | infinity s' | finite s' _ _ _ => cases s' <;> rfl
  | finite s m e hm =>
      cases b with
      | notANumber => cases s <;> rfl
      | zero s' => cases s <;> rfl
      | infinity s' => cases s <;> cases s' <;> rfl
      | finite s' m' e' hm' =>
          have hswap : ((compare e e').then (compare m m')).swap
              = (compare e' e).then (compare m' m) := by
            rw [Ordering.swap_then, Int.compare_swap, Nat.compare_swap]
          have hswap' : ((compare e' e).then (compare m' m)).swap
              = (compare e e').then (compare m m') := by
            rw [Ordering.swap_then, Int.compare_swap, Nat.compare_swap]
          cases s <;> cases s' <;> simp [UnpackedFloat.compare, hswap, hswap']

/-- What is at most a number is not above it. -/
theorem not_lt_of_le {y : Float} (h : x ≤ y) : ¬ y < x := by
  intro hlt
  have hle : ((unpacked x).compare (unpacked y)).any (·.isLE) = true := of_decide_eq_true h
  have hlt' : ((unpacked y).compare (unpacked x) == some .lt) = true := of_decide_eq_true hlt
  rw [compare_swap, beq_iff_eq] at hlt'
  cases hcompare : (unpacked x).compare (unpacked y) with
  | none =>
      rw [hcompare] at hle
      cases hle
  | some order =>
      rw [hcompare] at hle hlt'
      cases order <;> simp_all

/-- Every number but NaN is equal to itself. -/
theorem beq_self (hx : x.isFinite = true) : (x == x) = true := by
  show ((unpacked x).compare (unpacked x) == some .eq) = true
  rw [isFinite_eq] at hx
  cases hu : unpacked x with
  | notANumber | infinity _ =>
      rw [hu] at hx
      cases hx
  | zero s => rfl
  | finite s m e hm => cases s <;> simp [UnpackedFloat.compare]

theorem value_nonneg_of_le (hx : x.isFinite = true) (h : 0 ≤ x) : 0 ≤ value x := by
  have hnot := not_lt_of_le h
  rw [lt_iff hx isFinite_zero, value_zero] at hnot
  exact not_lt.mp hnot

theorem negative_of_pos (h : 0 < value x) : negative x = false := by
  by_contra hsign
  rw [Bool.not_eq_false] at hsign
  rw [value, if_pos hsign, neg_div] at h
  have : (0 : ℚ) ≤ units x / unitsPerOne := by positivity
  linarith

theorem value_of_nonneg (h : 0 ≤ value x) : value x = units x / unitsPerOne := by
  have hpos := unitsPerOne_pos
  unfold value at h ⊢
  split_ifs at h ⊢ with hsign
  · -- A negative number that is not below zero is zero.
    have hunits : (0 : ℚ) ≤ units x := Nat.cast_nonneg _
    rw [le_div_iff₀ hpos, zero_mul] at h
    have hzero : (units x : ℚ) = 0 := by linarith
    rw [hzero, neg_zero]
  · rfl

/-- Zero has two bit patterns. -/
theorem eq_zero_of_value (h : value x = 0) : x = 0 ∨ x = -0.0 := by
  have hunits : units x = 0 := by
    rw [value_of_nonneg h.ge, div_eq_zero_iff] at h
    exact_mod_cast h.resolve_right unitsPerOne_pos.ne'
  have hx := ofFields_fields x
  rw [fields_eq_zero hunits] at hx
  cases hsign : negative x with
  | false =>
      rw [hsign] at hx
      exact .inl hx.symm
  | true =>
      rw [hsign] at hx
      exact .inr hx.symm

/-! ### Above zero -/

theorem atLeastZero_eq (hx : x.isFinite = true) (h : 0 ≤ x) (hne : x ≠ -0.0) : atLeastZero x = x := by
  unfold atLeastZero
  by_cases hpos : 0 < x
  · rw [if_pos hpos]
  · rw [if_neg hpos]
    rw [lt_iff isFinite_zero hx, value_zero, not_lt] at hpos
    have heq : value x = 0 := le_antisymm hpos (value_nonneg_of_le hx h)
    exact ((eq_zero_of_value heq).resolve_right hne).symm

/-- A number that is not below zero is equal to what it is brought to, also a negative zero. -/
theorem beq_atLeastZero (hx : x.isFinite = true) (h : 0 ≤ x) : (x == atLeastZero x) = true := by
  by_cases hne : x = -0.0
  · rw [hne]
    rfl
  · rw [atLeastZero_eq hx h hne]
    exact beq_self hx

theorem isFinite_atLeastZero (hx : x.isFinite = true) : (atLeastZero x).isFinite = true := by
  unfold atLeastZero
  split_ifs
  · exact hx
  · exact isFinite_zero

/-! ### Between two numbers -/

theorem clamp_eq {low high : Float} (hlow : low ≤ x) (hhigh : x ≤ high) : clamp low high x = x := by
  rw [clamp, if_neg (not_lt_of_le hlow), if_neg (not_lt_of_le hhigh)]

theorem isFinite_clamp {low high : Float} (hlow : low.isFinite = true) (hhigh : high.isFinite = true)
    (hx : x.isFinite = true) : (clamp low high x).isFinite = true := by
  unfold clamp
  split_ifs
  · exact hlow
  · exact hhigh
  · exact hx

/-! ### Units -/

/-- A number of units that is the magnitude of a number is rounded to it. -/
theorem ofQuotient?_units (hx : x.isFinite = true) : ofQuotient? (negative x) (units x) 1 = some x := by
  have hslack := slack_pos x
  have hexact : ((units x : ℕ) : ℚ) / (1 : ℕ) / 2 ^ lift x = significand x := by
    have hpow : ((Nat.pow 2 (lift x) : ℕ) : ℚ) = 2 ^ lift x := Nat.cast_pow 2 _
    rw [units, Nat.cast_mul, hpow, Nat.cast_one, div_one, mul_div_assoc,
      div_self (pow_pos two_pos _).ne', mul_one]
  refine RoundsTo.ofQuotient?_eq hx Nat.one_pos ⟨?_, ?_, fun _ => ⟨?_, ?_⟩⟩
  all_goals
    rw [hexact]
    linarith

theorem abs_value (x : Float) : |value x| = units x / unitsPerOne := by
  rw [value_eq_signed, abs_signed, abs_of_nonneg (div_nonneg (Nat.cast_nonneg _) (Nat.cast_nonneg _))]

theorem value_eq_abs (x : Float) : value x = if negative x then -|value x| else |value x| := by
  rw [abs_value, value]
  split_ifs with hsign
  · rw [neg_div]
  · rfl

/-- **From 2⁵² times a power of two on, all numbers are multiples of that power.** -/
theorem exists_multiple_of_le_abs {e : ℤ} (h : (2 : ℚ) ^ (e + 52) ≤ |value x|) :
    ∃ k : ℤ, value x = k * 2 ^ e := by
  have hvalue : |value x| = significand x * 2 ^ ((lift x : ℤ) - 1074) := by
    rw [abs_value, units_div_unitsPerOne]
  rw [hvalue] at h
  obtain ⟨e', he'⟩ : ∃ e', (lift x : ℤ) - 1074 = e' := ⟨_, rfl⟩
  rw [he'] at h hvalue
  have hshort : (significand x : ℚ) < 2 ^ 53 := by exact_mod_cast significand_lt x
  have hexponent : e ≤ e' := by
    by_contra hsmall
    have hpow : (2 : ℚ) ^ e' ≤ 2 ^ (e - 1) := zpow_le_zpow_right₀ one_le_two (by omega)
    have hsplit : (2 : ℚ) ^ (e + 52) = 2 ^ 53 * 2 ^ (e - 1) := by
      rw [← zpow_natCast 2 53, ← zpow_add₀ two_ne_zero]
      congr 1
      push_cast
      ring
    have : (significand x : ℚ) * 2 ^ e' < 2 ^ 53 * 2 ^ (e - 1) :=
      mul_lt_mul hshort hpow (zpow_pos two_pos e') (by norm_num)
    linarith
  obtain ⟨j, hj⟩ := Int.eq_ofNat_of_zero_le (sub_nonneg.mpr hexponent)
  have habs : |value x| = (significand x * 2 ^ j : ℕ) * 2 ^ e := by
    have hsplit : e' = j + e := by omega
    rw [hvalue, hsplit, zpow_add₀ two_ne_zero, zpow_natCast]
    push_cast
    ring
  rw [value_eq_abs, habs]
  split_ifs
  · exact ⟨-(significand x * 2 ^ j : ℕ), by push_cast; ring⟩
  · exact ⟨(significand x * 2 ^ j : ℕ), by push_cast; rfl⟩

/-- A number above zero is known by its value. -/
theorem eq_of_value {y : Float} (hx : x.isFinite = true) (hy : y.isFinite = true) (hpos : 0 < value x)
    (h : value x = value y) : x = y := by
  have hunits : units x = units y := by
    have hsame : |value x| = |value y| := by rw [h]
    rw [abs_value, abs_value, div_left_inj' unitsPerOne_pos.ne'] at hsame
    exact_mod_cast hsame
  have hback := ofQuotient?_units hx
  rw [hunits, negative_of_pos hpos, ← negative_of_pos (h ▸ hpos), ofQuotient?_units hy] at hback
  exact (Option.some.inj hback).symm

/-- A whole number of units is rounded to fields that grow with its length. -/
theorem nearestFields_le {m k : ℕ} (hm : m < 2 ^ (53 + k)) : nearestFields m 1 ≤ (k + 2) * 2 ^ 52 := by
  obtain ⟨shift, hshift⟩ : ∃ j, m.log2 - 52 = j := ⟨_, rfl⟩
  have hle : shift ≤ k := by
    rcases m.eq_zero_or_pos with rfl | hpos
    · rw [Nat.log2_zero] at hshift
      omega
    · have := (Nat.log2_lt hpos.ne').mpr hm
      omega
  have hlong : m ≤ 2 ^ 53 * 2 ^ shift := by
    rw [← pow_add]
    exact (Nat.lt_log2_self.trans_le (Nat.pow_le_pow_right two_pos (by omega))).le
  have hround : roundHalfEven m (1 * Nat.pow 2 shift) ≤ 2 ^ 53 := by
    have hpos : 0 < 1 * Nat.pow 2 shift := by
      rw [Nat.one_mul]
      exact Nat.two_pow_pos shift
    rw [roundHalfEven_eq hpos]
    refine roundEven_le ?_
    rw [div_le_iff₀ (by exact_mod_cast hpos), Nat.one_mul]
    exact_mod_cast hlong
  have hsum : nearestFields m 1
      = roundHalfEven m (1 * Nat.pow 2 shift) + shift * 0x10000000000000 := by
    rw [nearestFields, Nat.div_one, hshift]
  rw [hsum]
  omega

theorem two_pow_mul_unitsPerOne {j k : ℕ} (h : j + 1074 = k) : 2 ^ j * unitsPerOne = 2 ^ k := by
  rw [← h, pow_add]
  rfl

/-! ### Counts -/

/-- Every count is in the finite range. -/
theorem isSome_ofQuotient?_count {n : ℕ} (h : n ≤ largestCount) (sign : Bool) :
    (ofQuotient? sign (n * unitsPerOne) 1).isSome = true := by
  have hpos : 0 < unitsPerOne := by exact_mod_cast unitsPerOne_pos
  have hlt : n * unitsPerOne < 2 ^ (53 + 1085) :=
    calc n * unitsPerOne < 2 ^ 64 * unitsPerOne :=
          Nat.mul_lt_mul_of_pos_right (Nat.lt_succ_of_le h) hpos
      _ = 2 ^ (53 + 1085) := two_pow_mul_unitsPerOne rfl
  have hfields := nearestFields_le hlt
  have hinfinity : nearestFields (n * unitsPerOne) 1 < infinityFields := by
    unfold infinityFields
    omega
  rw [ofQuotient?, if_pos hinfinity]
  rfl

theorem isNaN_of_isFinite (hx : x.isFinite = true) : x.isNaN = false ∧ x.isInf = false := by
  show (unpacked x).isNaN = false ∧ (unpacked x).isInf = false
  rw [isFinite_eq] at hx
  cases hu : unpacked x with
  | notANumber | infinity _ =>
      rw [hu] at hx
      cases hx
  | zero _ | finite _ _ _ _ => exact ⟨rfl, rfl⟩

/-- A whole number is rounded to a whole number. -/
theorem nearest_natCast_eq (n : ℕ) : ∃ k : ℕ, nearest n = k := by
  rcases n.eq_zero_or_pos with rfl | hpos
  · exact ⟨0, by rw [Nat.cast_zero, nearest_zero]⟩
  · have hn : (0 : ℚ) < n := by exact_mod_cast hpos
    rcases le_total 0 (spacingExponent n) with hwhole | hpart
    · rw [nearest_of_pos hn]
      obtain ⟨j, hj⟩ := Int.eq_ofNat_of_zero_le hwhole
      refine ⟨roundEven (n / spacing n) * 2 ^ j, ?_⟩
      have hspacing : spacing n = 2 ^ j := by
        rw [spacing, hj]
        exact zpow_natCast 2 j
      rw [hspacing]
      push_cast
      rfl
    · -- Finer than one: the number is a multiple of the spacing already.
      obtain ⟨j, hj⟩ := Int.eq_ofNat_of_zero_le (neg_nonneg.mpr hpart)
      refine ⟨n, nearest_of_multiple hn (n * 2 ^ j) ?_⟩
      have hexp : spacingExponent n = -(j : ℤ) := by
        rw [← neg_neg (spacingExponent n)]
        exact congrArg Neg.neg hj
      rw [spacing, hexp, zpow_neg, zpow_natCast]
      push_cast
      field_simp

/-- **A count that a binary64 number holds is the count nearest to that number.** -/
theorem nearestCount_ofCount {n : ℕ} (h : truncate (ofCount n) = n) : nearestCount (ofCount n) = n := by
  have hn : n ≤ largestCount := by
    have : truncate (ofCount n) < 2 ^ 64 := UInt64.toNat_lt _
    rw [h] at this
    exact Nat.le_of_lt_succ this
  obtain ⟨hfinite, hvalue⟩ := ofCount_nearest hn
  obtain ⟨k, hk⟩ := nearest_natCast_eq n
  obtain ⟨hnan, hinf⟩ := isNaN_of_isFinite hfinite
  have hnonneg : negative (ofCount n) = false := by
    rcases n.eq_zero_or_pos with rfl | hpos
    · decide +kernel
    · have hone : nearest (1 : ℕ) ≤ nearest n := nearest_mono (by exact_mod_cast hpos)
      rw [nearest_natCast (by norm_num), ← hvalue, Nat.cast_one] at hone
      exact negative_of_pos (by linarith)
  have hunits : units (ofCount n) = k * unitsPerOne := by
    have hvalue' : value (ofCount n) = k := hvalue.trans hk
    rw [value_of_nonneg (hvalue' ▸ k.cast_nonneg), div_eq_iff unitsPerOne_pos.ne'] at hvalue'
    exact_mod_cast hvalue'
  rw [truncate_eq hfinite, hvalue, hk, Nat.floor_natCast] at h
  have hround : (k * unitsPerOne + unitsPerOne / 2) / unitsPerOne = k := by
    have hpos : 0 < unitsPerOne := by exact_mod_cast unitsPerOne_pos
    rw [Nat.mul_comm, Nat.mul_add_div hpos, Nat.div_eq_of_lt (Nat.div_lt_self hpos (by norm_num)),
      Nat.add_zero]
  rw [nearestCount, hnan, hnonneg, hinf, hunits, hround]
  exact h

end Binary64

end AdaptiveMtu
