/-
Hours of a day.

Taking whole days off a finite number is exact: what is left is a whole number of units with no more
digits than the number had.  If that is negative, one day is put on top, and this sum is rounded.  So an
hour is the number nearest to the exact one (`wrapDay_spec`).  Nearest may be the full day itself, and it is
for the numbers that are below zero by 2⁻⁴⁹ at most (`wrapDay_eq_day`); from sixteen hours on, numbers are too
far apart to come that close to a whole number of days, so all others stay below the day (`wrapDay_lt_day`).
-/
import AdaptiveMtu.Proofs.Binary64.Extended

namespace AdaptiveMtu

namespace Binary64

variable {x : Float}

/-! ### Putting units together exactly -/

/-- What fields of a sum of digits and exponent are read as; the leading digit makes the exponent one more. -/
theorem ofFields_spec (sign : Bool) {c k : ℕ} (hshort : c < 2 ^ 53) (hlong : 2 ^ 52 ≤ c ∨ k = 0)
    (hk : k ≤ 1026) {y : Float} (hy : ofFields sign (c + k * 2 ^ 52) = y) :
    y.isFinite = true ∧ negative y = sign ∧ units y = 2 ^ k * c := by
  have hinfinity : c + k * 2 ^ 52 < infinityFields := by
    unfold infinityFields
    omega
  have hback : exponentField y * 2 ^ 52 + fractionField y = c + k * 2 ^ 52 :=
    hy ▸ fields_ofFields sign hinfinity
  have hfraction : fractionField y < 2 ^ 52 := Nat.mod_lt _ (by norm_num)
  refine ⟨?_, ?_, ?_⟩
  · rw [isFinite_iff]
    omega
  · have hword := word_ofFields sign hinfinity
    rw [hy] at hword
    unfold infinityFields at hinfinity
    unfold negative
    rw [hword]
    cases sign with
    | false => simpa using Nat.lt_of_lt_of_le hinfinity (by norm_num)
    | true => simp
  · rw [units, significand, lift]
    rcases hlong with hlong | rfl
    · have hexponent : exponentField y = k + 1 := by omega
      rw [hexponent, if_neg (Nat.succ_ne_zero k), Nat.add_sub_cancel, Nat.mul_comm]
      show 2 ^ k * _ = _
      congr 1
      omega
    · by_cases hexponent : exponentField y = 0
      · rw [if_pos hexponent, hexponent]
        show fractionField y * 2 ^ 0 = _
        omega
      · have hone : exponentField y = 1 := by omega
        rw [if_neg hexponent, hone]
        show _ * 2 ^ 0 = _
        omega

/-- A number of units with at most fifty-three digits, followed by zeros, is put together exactly. -/
theorem ofQuotient?_exact (sign : Bool) {m : ℕ} (hdvd : 2 ^ (m.log2 - 52) ∣ m) (hm : m < 2 ^ 1079) :
    ∃ y, ofQuotient? sign m 1 = some y ∧ y.isFinite = true ∧ negative y = sign ∧ units y = m := by
  obtain ⟨k, hk⟩ : ∃ k, m.log2 - 52 = k := ⟨_, rfl⟩
  rw [hk] at hdvd
  obtain ⟨c, hc⟩ := hdvd
  have hpow : 0 < 2 ^ k := Nat.two_pow_pos k
  have hshort : c < 2 ^ 53 := by
    have hlt : m < 2 ^ k * 2 ^ 53 := by
      rw [← pow_add]
      exact Nat.lt_log2_self.trans_le (Nat.pow_le_pow_right two_pos (by omega))
    rw [hc] at hlt
    exact Nat.lt_of_mul_lt_mul_left hlt
  have hlong : 2 ^ 52 ≤ c ∨ k = 0 := by
    by_cases hzero : k = 0
    · exact .inr hzero
    · have hne : m ≠ 0 := by
        rintro rfl
        simp at hk
        omega
      have hle : 2 ^ k * 2 ^ 52 ≤ 2 ^ k * c := by
        rw [← pow_add, ← hc]
        exact (Nat.pow_le_pow_right two_pos (by omega)).trans (Nat.log2_self_le hne)
      exact .inl (Nat.le_of_mul_le_mul_left hle hpow)
  have hsmall : k ≤ 1026 := by
    by_cases hzero : m = 0
    · rw [hzero, Nat.log2_zero] at hk
      omega
    · have := (Nat.log2_lt hzero).mpr hm
      omega
  have hround : roundHalfEven m (1 * Nat.pow 2 k) = c := by
    rw [Nat.one_mul, hc]
    show roundHalfEven (2 ^ k * c) (2 ^ k) = c
    simp [roundHalfEven, hpow]
  have hfields : nearestFields m 1 = c + k * 2 ^ 52 := by
    rw [nearestFields, Nat.div_one, hk, hround]
    rfl
  have hinfinity : c + k * 2 ^ 52 < infinityFields := by
    unfold infinityFields
    omega
  refine ⟨ofFields sign (c + k * 2 ^ 52), ?_, hc ▸ ofFields_spec sign hshort hlong hsmall rfl⟩
  rw [ofQuotient?, hfields]
  exact if_pos hinfinity

/-! ### Taking whole days off -/

theorem day_units : 24 * unitsPerOne = 2 ^ 1077 * 3 := by
  rw [← two_pow_mul_unitsPerOne (j := 3) rfl]
  omega

theorem units_mod_day_lt (x : Float) : units x % (24 * unitsPerOne) < 2 ^ 1079 := by
  have hpos : 0 < 24 * unitsPerOne := by
    rw [day_units]
    positivity
  calc units x % (24 * unitsPerOne) < 24 * unitsPerOne := Nat.mod_lt _ hpos
    _ = 2 ^ 1077 * 3 := day_units
    _ ≤ 2 ^ 1077 * 2 ^ 2 := Nat.mul_le_mul_left _ (by norm_num)
    _ = 2 ^ 1079 := (pow_add 2 1077 2).symm

/-- What is left of whole days ends in all zeros that both the number and the day end in, and is not longer than
either, so it has at most fifty-three digits before them. -/
theorem two_pow_dvd_mod_day (x : Float) :
    2 ^ ((units x % (24 * unitsPerOne)).log2 - 52) ∣ units x % (24 * unitsPerOne) := by
  have hlt := units_mod_day_lt x
  have hle : units x % (24 * unitsPerOne) ≤ units x := Nat.mod_le _ _
  obtain ⟨j, hj⟩ : ∃ j, min (lift x) 1077 = j := ⟨_, rfl⟩
  have hjlift : j ≤ lift x := hj ▸ min_le_left _ _
  have hjday : 2 ^ j ∣ 2 ^ 1077 := Nat.pow_dvd_pow 2 (hj ▸ min_le_right _ _)
  have hday : 2 ^ j ∣ 24 * unitsPerOne := by
    rw [day_units]
    exact Nat.dvd_mul_right_of_dvd hjday 3
  have hunits : 2 ^ j ∣ units x := Dvd.dvd.mul_left (Nat.pow_dvd_pow 2 hjlift) (significand x)
  have hdvd := (Nat.dvd_mod_iff hday).mpr hunits
  obtain ⟨m, hm⟩ : ∃ m, units x % (24 * unitsPerOne) = m := ⟨_, rfl⟩
  rw [hm] at hlt hle hdvd ⊢
  refine (Nat.pow_dvd_pow 2 ?_).trans hdvd
  by_cases hzero : m = 0
  · rw [hzero, Nat.log2_zero]
    omega
  · have hbelow : m < 2 ^ (53 + lift x) := by
      rw [pow_add]
      exact hle.trans_lt (Nat.mul_lt_mul_of_pos_right (significand_lt x) (Nat.two_pow_pos _))
    have := (Nat.log2_lt hzero).mpr hbelow
    have := (Nat.log2_lt hzero).mpr hlt
    omega

/-- **Taking whole days off is exact.** -/
theorem remainder_day (hx : x.isFinite = true) :
    (remainder x 24).isFinite = true ∧ negative (remainder x 24) = negative x ∧
      units (remainder x 24) = units x % (24 * unitsPerOne) := by
  obtain ⟨y, hsome, hexact⟩ :=
    ofQuotient?_exact (negative x) (two_pow_dvd_mod_day x) (units_mod_day_lt x)
  have hy : remainder x 24 = y := by rw [remainder, if_pos hx, hsome, Option.getD_some]
  rw [hy]
  exact hexact

theorem isFinite_day : (24 : Float).isFinite = true := (ofCount_spec (n := 24) (by norm_num)).1

theorem value_day : value 24 = 24 := (ofCount_spec (n := 24) (by norm_num)).2

theorem wrapDay_eq (hx : x.isFinite = true) (hlow : 0 ≤ x) (hhigh : x < 24) : wrapDay x = x := by
  have hvalue : value x < 24 := by
    rw [← value_day]
    exact (lt_iff hx isFinite_day).mp hhigh
  have hunits : units x < 24 * unitsPerOne := by
    rw [value_of_nonneg (value_nonneg_of_le hx hlow), div_lt_iff₀ unitsPerOne_pos] at hvalue
    exact_mod_cast hvalue
  have hremainder : remainder x 24 = x := by
    rw [remainder, if_pos hx, Nat.mod_eq_of_lt hunits, ofQuotient?_units hx]
    rfl
  rw [wrapDay, hremainder]
  simp only [if_neg (not_lt_of_le hlow)]

/-! ### The exact hour -/

/-- What is left of a number of hours after taking off whole days. -/
def hour (q : ℚ) : ℚ := 24 * Int.fract (q / 24)

theorem hour_nonneg (q : ℚ) : 0 ≤ hour q := mul_nonneg (by norm_num) (Int.fract_nonneg _)

theorem hour_lt (q : ℚ) : hour q < 24 := by
  have := Int.fract_lt_one (q / 24)
  unfold hour
  linarith

/-- Before midnight, the hours are what a day has left of the hours after it. -/
theorem hour_neg {q : ℚ} (h : hour q ≠ 0) : hour (-q) = 24 - hour q := by
  have hfract : Int.fract (q / 24) ≠ 0 := right_ne_zero_of_mul h
  rw [hour, neg_div, Int.fract_neg hfract, mul_sub, mul_one, hour]

theorem hour_neg_eq_zero {q : ℚ} (h : hour q = 0) : hour (-q) = 0 := by
  have hfract : Int.fract (q / 24) = 0 := (mul_eq_zero.mp h).resolve_left (by norm_num)
  rw [hour, neg_div, Int.fract_neg_eq_zero.mpr hfract, mul_zero]

theorem hour_natCast_div (m : ℕ) {d : ℕ} (hd : 0 < d) : hour (m / d) = (m % (24 * d) : ℕ) / d := by
  have hpos : (0 : ℚ) < d := by exact_mod_cast hd
  have hsplit : (m : ℚ) / d / 24 = m / (24 * d : ℕ) := by
    push_cast
    rw [div_div, mul_comm]
  rw [hour, hsplit, Int.fract_div_natCast_eq_div_natCast_mod]
  push_cast
  field_simp

/-! ### The computed hour -/

theorem value_remainder_day (hx : x.isFinite = true) :
    value (remainder x 24) = if negative x then -hour |value x| else hour |value x| := by
  obtain ⟨-, hsign, hunits⟩ := remainder_day hx
  have hhour : |value (remainder x 24)| = hour |value x| := by
    rw [abs_value, abs_value, hunits, hour_natCast_div _ (by exact_mod_cast unitsPerOne_pos)]
  rw [value_eq_abs, hsign, hhour]

/-- What is left of whole days is the exact hour, or one day short of it where it is negative. -/
theorem hour_value (hx : x.isFinite = true) : hour (value x) =
    if value (remainder x 24) < 0 then value (remainder x 24) + 24 else value (remainder x 24) := by
  have hlow := hour_nonneg |value x|
  rw [value_remainder_day hx]
  cases hsign : negative x with
  | false =>
      have hvalue : value x = |value x| := by simpa [hsign] using value_eq_abs x
      rw [if_neg Bool.false_ne_true, if_neg (not_lt.mpr hlow), ← hvalue]
  | true =>
      have hvalue : value x = -|value x| := by simpa [hsign] using value_eq_abs x
      rw [if_pos rfl]
      by_cases hnone : hour |value x| = 0
      · rw [hnone, neg_zero, if_neg (lt_irrefl 0), hvalue, hour_neg_eq_zero hnone]
      · have hneg : -hour |value x| < 0 := neg_lt_zero.mpr (lt_of_le_of_ne hlow (Ne.symm hnone))
        rw [if_pos hneg, hvalue, hour_neg hnone, abs_neg, abs_abs]
        ring

/-- **The hour of the day that is computed is the number nearest to the exact one.** -/
theorem wrapDay_spec (hx : x.isFinite = true) :
    (wrapDay x).isFinite = true ∧ value (wrapDay x) = nearest (hour (value x)) := by
  obtain ⟨hfinite, -, -⟩ := remainder_day hx
  have hexact := hour_value hx
  have hnegative : remainder x 24 < 0 ↔ value (remainder x 24) < 0 := by
    rw [lt_iff hfinite isFinite_zero, value_zero]
  have hwrap : wrapDay x = if remainder x 24 < 0 then remainder x 24 + 24 else remainder x 24 := rfl
  rw [hwrap]
  by_cases hneg : value (remainder x 24) < 0
  · rw [if_pos hneg, ← value_day] at hexact
    rw [if_pos (hnegative.mpr hneg)]
    have hsmall : |value (remainder x 24) + value 24| ≤ maxFinite := by
      have hmax : (2 : ℚ) ^ 5 ≤ maxFinite := two_pow_le_maxFinite (by norm_num)
      rw [← hexact, abs_of_nonneg (hour_nonneg _)]
      linarith [hour_lt (value x)]
    rw [hexact]
    exact add_spec hfinite isFinite_day hsmall
  · rw [if_neg hneg] at hexact
    rw [if_neg (mt hnegative.mp hneg), hexact, nearest_value hfinite]
    exact ⟨hfinite, rfl⟩

theorem wrapDay_nonneg (hx : x.isFinite = true) : 0 ≤ wrapDay x := by
  obtain ⟨hfinite, hvalue⟩ := wrapDay_spec hx
  rw [le_iff isFinite_zero hfinite, value_zero, hvalue]
  exact nearest_nonneg (hour_nonneg _)

/-! ### The end of the day -/

/-- Below zero by at most half of the gap between the last hour of the format and the full day. -/
def JustBeforeMidnight (q : ℚ) : Prop := -(1 / 2 ^ 49) ≤ q ∧ q < 0

/-- From sixteen up to thirty-two, numbers are 2⁻⁴⁸ apart. -/
theorem spacingExponent_of_hours {z : ℚ} (hlow : 16 ≤ z) (hhigh : z < 32) : spacingExponent z = -48 := by
  have hpos : 0 < z := by linarith
  have hge : 4 ≤ Int.log 2 z := by
    rw [← Int.zpow_le_iff_le_log one_lt_two hpos]
    norm_num
    exact hlow
  have hlt : Int.log 2 z < 5 := by
    rw [← Int.lt_zpow_iff_log_lt one_lt_two hpos]
    norm_num
    exact hhigh
  rw [spacingExponent, abs_of_pos hpos]
  omega

/-- Between the last hour of the format and the full day, a tie goes to the full day, which is even. -/
theorem nearest_tie : nearest (24 - 1 / 2 ^ 49) = 24 := by
  have hspacing : spacing (24 - 1 / 2 ^ 49) = 1 / 2 ^ 48 := by
    rw [spacing, spacingExponent_of_hours (by norm_num) (by norm_num)]
    norm_num
  have hquotient : (24 - 1 / 2 ^ 49 : ℚ) / (1 / 2 ^ 48) = 24 * 2 ^ 48 - 1 / 2 := by norm_num
  have hfloor : ⌊(24 * 2 ^ 48 - 1 / 2 : ℚ)⌋₊ = 24 * 2 ^ 48 - 1 := by
    rw [Nat.floor_eq_iff (by norm_num)]
    norm_num
  rw [nearest_of_pos (by norm_num), hspacing, hquotient, roundEven, hfloor]
  norm_num

theorem nearest_eq_day {h : ℚ} (hge : 24 - 1 / 2 ^ 49 ≤ h) (hle : h ≤ 24) : nearest h = 24 := by
  have hday : nearest 24 = 24 := by exact_mod_cast nearest_natCast (n := 24) (by norm_num)
  refine le_antisymm ?_ ?_
  · exact (nearest_mono hle).trans_eq hday
  · exact nearest_tie.symm.trans_le (nearest_mono hge)

theorem nearest_lt_day {h : ℚ} (hnonneg : 0 ≤ h) (hlt : h < 24 - 1 / 2 ^ 49) : nearest h < 24 := by
  by_cases hzero : h = 0
  · rw [hzero, nearest_zero]
    norm_num
  · have hday : spacingExponent 24 = -48 := spacingExponent_of_hours (by norm_num) (by norm_num)
    have habs : |h| ≤ |24| := by
      rw [abs_of_nonneg hnonneg]
      norm_num
      linarith
    have hspacing : spacing h ≤ 2 ^ (-48 : ℤ) :=
      zpow_le_zpow_right₀ one_le_two (hday ▸ spacingExponent_mono hzero habs)
    have hpow : (2 : ℚ) ^ (-48 : ℤ) = 1 / 2 ^ 48 := by norm_num
    have hclose := (abs_le.mp (abs_nearest_sub_le_spacing h)).2
    rw [hpow] at hspacing
    linarith

/-- From sixteen on, all numbers are multiples of 2⁻⁴⁸. -/
theorem exists_int_of_large (h : 16 ≤ |value x|) : ∃ k : ℤ, value x * 2 ^ 48 = k := by
  have hlow : (2 : ℚ) ^ ((-48 : ℤ) + 52) ≤ |value x| := by
    norm_num
    exact h
  obtain ⟨k, hk⟩ := exists_multiple_of_le_abs hlow
  refine ⟨k, ?_⟩
  rw [hk, mul_assoc]
  norm_num

/-- **An exact hour is that close to the full day only for the smallest numbers below zero.** -/
theorem le_hour_iff : 24 - 1 / 2 ^ 49 ≤ hour (value x) ↔ JustBeforeMidnight (value x) := by
  obtain ⟨n, hn⟩ : ∃ n, ⌊value x / 24⌋ = n := ⟨_, rfl⟩
  have hsplit : value x = 24 * n + hour (value x) := by
    have := Int.floor_add_fract (value x / 24)
    rw [hn] at this
    unfold hour
    linarith
  have hlow := hour_nonneg (value x)
  have hhigh := hour_lt (value x)
  constructor
  · intro hclose
    by_cases hlast : n = -1
    · rw [hlast] at hsplit
      push_cast at hsplit
      constructor <;> linarith
    · -- The number is near to a whole number of days other than zero, so it is large.
      have hfar : n + 1 ≤ -1 ∨ 1 ≤ n + 1 := by omega
      have hlarge : 16 ≤ |value x| := by
        rw [le_abs]
        rcases hfar with hbelow | habove
        · have : (n : ℚ) + 1 ≤ -1 := by exact_mod_cast hbelow
          right
          linarith
        · have : (1 : ℚ) ≤ n + 1 := by exact_mod_cast habove
          left
          linarith
      obtain ⟨k, hk⟩ := exists_int_of_large hlarge
      have hpos : (0 : ℚ) < (24 * (n + 1) * 2 ^ 48 - k : ℤ) := by
        push_cast
        linarith
      have hlt : ((24 * (n + 1) * 2 ^ 48 - k : ℤ) : ℚ) < 1 := by
        push_cast
        linarith
      have hpos' : 0 < 24 * (n + 1) * 2 ^ 48 - k := by exact_mod_cast hpos
      have hlt' : 24 * (n + 1) * 2 ^ 48 - k < 1 := by exact_mod_cast hlt
      omega
  · rintro ⟨hge, hneg⟩
    have hlast : n = -1 := by
      rw [← hn, Int.floor_eq_iff]
      push_cast
      constructor <;> linarith
    rw [hlast] at hsplit
    push_cast at hsplit
    linarith

theorem wrapDay_lt_day (hx : x.isFinite = true) (h : ¬JustBeforeMidnight (value x)) : wrapDay x < 24 := by
  obtain ⟨hfinite, hvalue⟩ := wrapDay_spec hx
  rw [lt_iff hfinite isFinite_day, hvalue, value_day]
  rw [← le_hour_iff, not_le] at h
  exact nearest_lt_day (hour_nonneg _) h

theorem wrapDay_eq_day (hx : x.isFinite = true) (h : JustBeforeMidnight (value x)) : wrapDay x = 24 := by
  obtain ⟨hfinite, hvalue⟩ := wrapDay_spec hx
  have hfull : value (wrapDay x) = 24 := hvalue.trans (nearest_eq_day (le_hour_iff.mpr h) (hour_lt _).le)
  exact eq_of_value hfinite isFinite_day (hfull ▸ by norm_num) (hfull.trans value_day.symm)

end Binary64

end AdaptiveMtu
