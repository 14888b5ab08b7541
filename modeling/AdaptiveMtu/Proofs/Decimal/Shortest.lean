/-
The decimal that is found for a number.

What is found on a grid lies in the interval of rationals that round to the number, so it reads back
to it. Something is found: the finest grid that is tried has its points closer together than the
interval is wide.
-/
import AdaptiveMtu.Decimal.Shortest
import AdaptiveMtu.Proofs.Binary64.Quotient

namespace AdaptiveMtu

namespace Decimal

open Binary64

/-- A decimal in units. -/
def inUnits (d : Decimal) : ℚ := d.digits * 10 ^ d.exponent * unitsPerOne

/-- How many grid points make a unit, for grids finer than one. -/
def gridScale (e : ℤ) : ℕ := Nat.pow 10 (-e).toNat

/-- How many quarter units are between two grid points, for each of `gridScale`. -/
def gridStep (e : ℤ) : ℕ := 4 * unitsPerOne * Nat.pow 10 e.toNat

theorem gridScale_pos (e : ℤ) : (0 : ℚ) < gridScale e := by
  exact_mod_cast Nat.pow_pos (by norm_num : 0 < 10)

theorem tenPow_eq (e : ℤ) : (10 : ℚ) ^ e = Nat.pow 10 e.toNat / Nat.pow 10 (-e).toNat := by
  have hsplit : e = e.toNat - (-e).toNat := by omega
  conv_lhs => rw [hsplit, zpow_sub₀ (by norm_num), zpow_natCast, zpow_natCast]
  rw [← Nat.cast_ofNat, ← Nat.cast_pow, ← Nat.cast_pow]
  rfl

theorem gridStep_eq (e : ℤ) : (gridStep e : ℚ) = 4 * gridScale e * (10 ^ e * unitsPerOne) := by
  have hscale := gridScale_pos e
  have htwo : (10 : ℚ) ^ e * gridScale e = Nat.pow 10 e.toNat := by
    rw [tenPow_eq]
    exact div_mul_cancel₀ _ hscale.ne'
  rw [gridStep, Nat.cast_mul, Nat.cast_mul, ← htwo]
  push_cast
  ring

/-! ### What is found lies in the interval -/

variable {x : Float}

theorem reachBelow_eq (x : Float) : (reachBelow x : ℚ) = 4 * slack x * 2 ^ lift x := by
  have hpow : ((Nat.pow 2 (lift x) : ℕ) : ℚ) = 2 ^ lift x := Nat.cast_pow 2 _
  unfold reachBelow slack
  by_cases h : fractionField x = 0 ∧ 1 < exponentField x
  · rw [if_pos (by simpa using h), if_pos h, hpow]
    ring
  · rw [if_neg (by simpa using h), if_neg h, Nat.cast_mul, hpow]
    push_cast
    ring

theorem reachAbove_eq (x : Float) : (reachAbove x : ℚ) = 2 * 2 ^ lift x := by
  have hpow : ((Nat.pow 2 (lift x) : ℕ) : ℚ) = 2 ^ lift x := Nat.cast_pow 2 _
  rw [reachAbove, Nat.cast_mul, hpow]
  rfl

theorem units_eq (x : Float) : (units x : ℚ) = significand x * 2 ^ lift x := by
  rw [units, Nat.cast_mul]
  exact congrArg _ (Nat.cast_pow 2 _)

theorem within_le {gap reach : ℕ} (h : within x gap reach = true) : gap ≤ reach := by
  unfold within at h
  split_ifs at h
  · simpa using h
  · exact (show gap < reach by simpa using h).le

theorem within_lt {gap reach : ℕ} (h : within x gap reach = true) (hodd : significand x % 2 = 1) :
    gap < reach := by
  rw [within, if_neg (by omega)] at h
  simpa using h

theorem point_eq (digits : ℕ) (e : ℤ) :
    (digits * gridStep e : ℚ) = 4 * gridScale e * inUnits ⟨digits, e⟩ := by
  rw [gridStep_eq, inUnits]
  ring

theorem number_eq (x : Float) (e : ℤ) :
    (4 * units x * gridScale e : ℚ) = 4 * gridScale e * (significand x * 2 ^ lift x) := by
  rw [units_eq]
  ring

/-- A gap that is within reach in the measure of the grid is so in units. -/
theorem gap_le_of_within {gap reach : ℕ} {e : ℤ} {g r : ℚ} (h : within x gap reach = true)
    (hgap : (gap : ℚ) = 4 * gridScale e * g) (hreach : (reach : ℚ) = 4 * gridScale e * r) :
    g ≤ r ∧ (significand x % 2 = 1 → g < r) := by
  have hfour : (0 : ℚ) < 4 * gridScale e := mul_pos (by norm_num) (gridScale_pos e)
  constructor
  · have hcast : (gap : ℚ) ≤ reach := Nat.cast_le.mpr (within_le h)
    rwa [hgap, hreach, mul_le_mul_iff_right₀ hfour] at hcast
  · intro hodd
    have hcast : (gap : ℚ) < reach := Nat.cast_lt.mpr (within_lt h hodd)
    rwa [hgap, hreach, mul_lt_mul_iff_right₀ hfour] at hcast

/-- A grid point below the number and within reach of it is in the interval. -/
theorem roundsTo_of_below {digits : ℕ} {e : ℤ}
    (hle : digits * gridStep e ≤ 4 * units x * gridScale e)
    (h : within x (4 * units x * gridScale e - digits * gridStep e) (reachBelow x * gridScale e)
      = true) : RoundsTo (inUnits ⟨digits, e⟩) x := by
  have hpow : (0 : ℚ) < 2 ^ lift x := by positivity
  have hgap : ((4 * units x * gridScale e - digits * gridStep e : ℕ) : ℚ)
      = 4 * gridScale e * (significand x * 2 ^ lift x - inUnits ⟨digits, e⟩) := by
    rw [Nat.cast_sub hle, mul_sub, ← number_eq, ← point_eq]
    push_cast
    rfl
  have hreach : ((reachBelow x * gridScale e : ℕ) : ℚ)
      = 4 * gridScale e * (slack x * 2 ^ lift x) := by
    rw [Nat.cast_mul, reachBelow_eq]
    ring
  have hbelow : inUnits ⟨digits, e⟩ ≤ significand x * 2 ^ lift x := by
    have hcast : (digits * gridStep e : ℚ) ≤ 4 * units x * gridScale e := by exact_mod_cast hle
    rw [point_eq, number_eq] at hcast
    exact le_of_mul_le_mul_left hcast (mul_pos (by norm_num) (gridScale_pos e))
  obtain ⟨hnear, hnearer⟩ := gap_le_of_within h hgap hreach
  refine ⟨?_, ?_, fun hodd => ⟨?_, ?_⟩⟩
  · rw [le_div_iff₀ hpow]
    linarith
  · rw [div_le_iff₀ hpow]
    linarith
  · have := hnearer hodd
    rw [lt_div_iff₀ hpow]
    linarith
  · rw [div_lt_iff₀ hpow]
    linarith

/-- A grid point above the number and within reach of it is in the interval. -/
theorem roundsTo_of_above {digits : ℕ} {e : ℤ}
    (hle : 4 * units x * gridScale e ≤ digits * gridStep e)
    (h : within x (digits * gridStep e - 4 * units x * gridScale e) (reachAbove x * gridScale e)
      = true) : RoundsTo (inUnits ⟨digits, e⟩) x := by
  have hpow : (0 : ℚ) < 2 ^ lift x := by positivity
  have hgap : ((digits * gridStep e - 4 * units x * gridScale e : ℕ) : ℚ)
      = 4 * gridScale e * (inUnits ⟨digits, e⟩ - significand x * 2 ^ lift x) := by
    rw [Nat.cast_sub hle, mul_sub, ← number_eq, ← point_eq]
    push_cast
    rfl
  have hreach : ((reachAbove x * gridScale e : ℕ) : ℚ) = 4 * gridScale e * (2 ^ lift x / 2) := by
    rw [Nat.cast_mul, reachAbove_eq]
    ring
  have habove : significand x * 2 ^ lift x ≤ inUnits ⟨digits, e⟩ := by
    have hcast : (4 * units x * gridScale e : ℚ) ≤ digits * gridStep e := by exact_mod_cast hle
    rw [point_eq, number_eq] at hcast
    exact le_of_mul_le_mul_left hcast (mul_pos (by norm_num) (gridScale_pos e))
  have hslack : 0 < slack x * 2 ^ lift x := mul_pos (slack_pos x) hpow
  obtain ⟨hnear, hnearer⟩ := gap_le_of_within h hgap hreach
  refine ⟨?_, ?_, fun hodd => ⟨?_, ?_⟩⟩
  · rw [le_div_iff₀ hpow]
    linarith
  · rw [div_le_iff₀ hpow]
    linarith
  · rw [lt_div_iff₀ hpow]
    linarith
  · have := hnearer hodd
    rw [div_lt_iff₀ hpow]
    linarith

/-- The last grid point that is not above the number. -/
def gridBelow (x : Float) (e : ℤ) : ℕ := 4 * units x * gridScale e / gridStep e

/-- How far that grid point is below the number. -/
def gapBelow (x : Float) (e : ℤ) : ℕ := 4 * units x * gridScale e - gridBelow x e * gridStep e

/-- How far the next grid point is above the number. -/
def gapAbove (x : Float) (e : ℤ) : ℕ := (gridBelow x e + 1) * gridStep e - 4 * units x * gridScale e

theorem onGrid?_eq (tie : Tie) (x : Float) (e : ℤ) :
    onGrid? tie x e =
      match within x (gapBelow x e) (reachBelow x * gridScale e),
        within x (gapAbove x e) (reachAbove x * gridScale e) with
      | false, false => none
      | true, false => some (gridBelow x e)
      | false, true => some (gridBelow x e + 1)
      | true, true =>
        if gapBelow x e < gapAbove x e then some (gridBelow x e)
        else if gapAbove x e < gapBelow x e then some (gridBelow x e + 1)
        else match tie with
          | .up => some (gridBelow x e + 1)
          | .toEven => some (gridBelow x e + gridBelow x e % 2) := rfl

theorem gridStep_pos (e : ℤ) : 0 < gridStep e := by
  have hunits : 0 < unitsPerOne := by exact_mod_cast unitsPerOne_pos
  exact Nat.mul_pos (Nat.mul_pos (by norm_num) hunits) (Nat.pow_pos (by norm_num))

theorem gridBelow_le (x : Float) (e : ℤ) :
    gridBelow x e * gridStep e ≤ 4 * units x * gridScale e := Nat.div_mul_le_self _ _

theorem lt_gridAbove (x : Float) (e : ℤ) :
    4 * units x * gridScale e < (gridBelow x e + 1) * gridStep e := by
  have hlt := Nat.lt_mul_div_succ (4 * units x * gridScale e) (gridStep_pos e)
  rwa [Nat.mul_comm (gridStep e)] at hlt

/-- Whatever is found is one of the two neighbours, and that neighbour is within reach. -/
theorem onGrid?_cases {tie : Tie} {e : ℤ} {digits : ℕ} (h : onGrid? tie x e = some digits) :
    (digits = gridBelow x e ∧ within x (gapBelow x e) (reachBelow x * gridScale e) = true) ∨
      (digits = gridBelow x e + 1 ∧
        within x (gapAbove x e) (reachAbove x * gridScale e) = true) := by
  rw [onGrid?_eq] at h
  split at h
  · cases h
  · next hhit _ => exact .inl ⟨(Option.some.inj h).symm, hhit⟩
  · next _ hhit => exact .inr ⟨(Option.some.inj h).symm, hhit⟩
  · next hhitBelow hhitAbove =>
      have hneighbour : digits = gridBelow x e ∨ digits = gridBelow x e + 1 := by
        split_ifs at h
        · exact .inl (Option.some.inj h).symm
        · exact .inr (Option.some.inj h).symm
        · cases tie with
          | up => exact .inr (Option.some.inj h).symm
          | toEven =>
              have heven := Option.some.inj h
              rcases Nat.mod_two_eq_zero_or_one (gridBelow x e) with hmod | hmod
              · exact .inl (by omega)
              · exact .inr (by omega)
      exact hneighbour.imp (⟨·, hhitBelow⟩) (⟨·, hhitAbove⟩)

/-- **What is found on a grid reads back to the number.** -/
theorem roundsTo_of_onGrid? {tie : Tie} {e : ℤ} {digits : ℕ} (h : onGrid? tie x e = some digits) :
    RoundsTo (inUnits ⟨digits, e⟩) x := by
  rcases onGrid?_cases h with ⟨rfl, hwithin⟩ | ⟨rfl, hwithin⟩
  · exact roundsTo_of_below (gridBelow_le x e) hwithin
  · exact roundsTo_of_above (lt_gridAbove x e).le hwithin

/-! ### Something is found -/

/-- On a grid whose points are closer together than the interval is wide, something is found. -/
theorem onGrid?_isSome (tie : Tie) {e : ℤ} (h : gridStep e ≤ Nat.pow 2 (lift x) * gridScale e) :
    (onGrid? tie x e).isSome := by
  have hreach : Nat.pow 2 (lift x) ≤ reachBelow x := by
    unfold reachBelow
    split <;> omega
  have hgap : gapBelow x e < gridStep e := by
    have := lt_gridAbove x e
    have := gridBelow_le x e
    rw [Nat.add_mul] at *
    unfold gapBelow
    omega
  have hlt : gapBelow x e < reachBelow x * gridScale e :=
    hgap.trans_le (h.trans (Nat.mul_le_mul_right _ hreach))
  have hwithin : within x (gapBelow x e) (reachBelow x * gridScale e) = true := by
    unfold within
    split_ifs
    · simpa using hlt.le
    · simpa using hlt
  rw [onGrid?_eq, hwithin]
  cases within x (gapAbove x e) (reachAbove x * gridScale e) with
  | false => rfl
  | true =>
      dsimp only
      split_ifs <;> cases tie <;> rfl

/-- Three powers of ten are less than ten powers of two. -/
theorem tenPow_le_of_nonneg {e m : ℤ} (he : 0 ≤ e) (h : 10 * e ≤ 3 * m) : (10 : ℚ) ^ e ≤ 2 ^ m := by
  have hcube : ((10 : ℚ) ^ e) ^ 3 ≤ (2 ^ m) ^ 3 :=
    calc ((10 : ℚ) ^ e) ^ 3 = (10 ^ (3 : ℤ)) ^ e := by
          rw [← zpow_natCast, ← zpow_mul, ← zpow_mul, mul_comm]
          rfl
      _ ≤ (2 ^ (10 : ℤ)) ^ e := zpow_le_zpow_left₀ he (by norm_num) (by norm_num)
      _ = 2 ^ (10 * e) := by rw [← zpow_mul]
      _ ≤ 2 ^ (3 * m) := zpow_le_zpow_right₀ (by norm_num) h
      _ = (2 ^ m) ^ 3 := by
          rw [← zpow_natCast, ← zpow_mul, mul_comm]
          rfl
  exact (pow_le_pow_iff_left₀ (by positivity) (by positivity) (by norm_num)).mp hcube

/-- Ten powers of ten are more than thirty-three powers of two. -/
theorem tenPow_le_of_nonpos {e m : ℤ} (he : e ≤ 0) (h : 33 * e ≤ 10 * m) : (10 : ℚ) ^ e ≤ 2 ^ m := by
  have htenth : ((10 : ℚ) ^ e) ^ 10 ≤ (2 ^ m) ^ 10 :=
    calc ((10 : ℚ) ^ e) ^ 10 = (10 ^ (10 : ℤ)) ^ e := by
          rw [← zpow_natCast, ← zpow_mul, ← zpow_mul, mul_comm]
          rfl
      _ ≤ (2 ^ (33 : ℤ)) ^ e := by
          obtain ⟨k, rfl⟩ : ∃ k : ℕ, e = -(k : ℤ) := ⟨e.natAbs, by omega⟩
          rw [zpow_neg, zpow_neg, zpow_natCast, zpow_natCast]
          exact inv_anti₀ (by positivity) (pow_le_pow_left₀ (by norm_num) (by norm_num) k)
      _ = 2 ^ (33 * e) := by rw [← zpow_mul]
      _ ≤ 2 ^ (10 * m) := zpow_le_zpow_right₀ (by norm_num) h
      _ = (2 ^ m) ^ 10 := by
          rw [← zpow_natCast, ← zpow_mul, mul_comm]
          rfl
  exact (pow_le_pow_iff_left₀ (by positivity) (by positivity) (by norm_num)).mp htenth

theorem log2_units_le (x : Float) : (units x).log2 ≤ 52 + lift x := by
  by_cases hzero : units x = 0
  · rw [hzero, Nat.log2_zero]
    omega
  · have hlt : units x < 2 ^ (53 + lift x) := by
      rw [pow_add]
      exact Nat.mul_lt_mul_of_pos_right (significand_lt x) (Nat.two_pow_pos _)
    have := (Nat.log2_lt hzero).mpr hlt
    omega

theorem lift_le (hx : x.isFinite = true) : lift x ≤ 2045 := by
  have := exponentField_lt hx
  unfold lift
  omega

/-- The finest grid that is tried is fine enough. -/
theorem finest_grid (hx : x.isFinite = true) {e : ℤ} (he : e = topExponent x - 23) :
    gridStep e ≤ Nat.pow 2 (lift x) * gridScale e := by
  have hlog := log2_units_le x
  have hlift := lift_le hx
  unfold topExponent at he
  have hten : (10 : ℚ) ^ e ≤ 2 ^ ((lift x : ℤ) - 1076) := by
    rcases le_total 0 e with hnonneg | hnonpos
    · exact tenPow_le_of_nonneg hnonneg (by omega)
    · exact tenPow_le_of_nonpos hnonpos (by omega)
  have hscale := gridScale_pos e
  have hcast : (gridStep e : ℚ) ≤ ((Nat.pow 2 (lift x) * gridScale e : ℕ) : ℚ) :=
    calc (gridStep e : ℚ) = 4 * gridScale e * (10 ^ e * 2 ^ (1074 : ℤ)) := by
          rw [gridStep_eq, unitsPerOne_eq]
      _ ≤ 4 * gridScale e * (2 ^ ((lift x : ℤ) - 1076) * 2 ^ (1074 : ℤ)) := by gcongr
      _ = gridScale e * (2 ^ (2 : ℤ) * (2 ^ ((lift x : ℤ) - 1076) * 2 ^ (1074 : ℤ))) := by
          rw [show (2 : ℚ) ^ (2 : ℤ) = 4 by norm_num]
          ring
      _ = gridScale e * 2 ^ (lift x : ℤ) := by
          rw [← zpow_add₀ two_ne_zero, ← zpow_add₀ two_ne_zero]
          congr 2
          omega
      _ = ((Nat.pow 2 (lift x) * gridScale e : ℕ) : ℚ) := by
          rw [zpow_natCast, mul_comm, Nat.cast_mul]
          congr 1
          exact (Nat.cast_pow 2 _).symm
  exact_mod_cast hcast

/-- Zero is too far away from a number that is not zero, whose significand is at least one. -/
theorem digits_ne_zero {d : Decimal} (hne : units x ≠ 0) (h : RoundsTo d.inUnits x) :
    d.digits ≠ 0 := by
  intro hdigits
  have hlow := h.low
  have hzero : d.inUnits = 0 := by rw [inUnits, hdigits, Nat.cast_zero, zero_mul, zero_mul]
  have hone : (1 : ℚ) ≤ significand x := by
    have : significand x ≠ 0 := fun h => hne (by rw [units, h, Nat.zero_mul])
    exact_mod_cast Nat.pos_of_ne_zero this
  rw [hzero, zero_div] at hlow
  linarith [slack_le x]

/-- **Some decimal is found for every finite number that is not zero, and it reads back to the number.** -/
theorem shortest_spec (tie : Tie) (hx : x.isFinite = true) (hne : units x ≠ 0) :
    RoundsTo (inUnits (shortest tie x)) x ∧ (shortest tie x).digits ≠ 0 ∧
      -350 ≤ (shortest tie x).exponent ∧ (shortest tie x).exponent ≤ 350 := by
  have hlog := log2_units_le x
  have hlift := lift_le hx
  have hfinest : topExponent x - 23 ∈ grids x :=
    List.mem_map.mpr ⟨23, List.mem_range.mpr (by decide), rfl⟩
  obtain ⟨d, hd⟩ : ∃ d, (grids x).findSome?
      (fun e => (onGrid? tie x e).map fun digits => (⟨digits, e⟩ : Decimal)) = some d := by
    rw [← Option.isSome_iff_exists, List.findSome?_isSome_iff]
    refine ⟨_, hfinest, ?_⟩
    rw [Option.isSome_map]
    exact onGrid?_isSome tie (finest_grid hx rfl)
  have hshortest : shortest tie x = d := by rw [shortest, hd, Option.getD_some]
  obtain ⟨e, hmem, hfound⟩ := List.exists_of_findSome?_eq_some hd
  rw [Option.map_eq_some_iff] at hfound
  obtain ⟨digits, hgrid, rfl⟩ := hfound
  obtain ⟨i, hi, rfl⟩ := List.mem_map.mp hmem
  have hi24 : i < 24 := List.mem_range.mp hi
  have hrounds := roundsTo_of_onGrid? hgrid
  rw [hshortest]
  refine ⟨hrounds, digits_ne_zero hne hrounds, ?_, ?_⟩
  · show -350 ≤ topExponent x - i
    unfold topExponent
    omega
  · show topExponent x - i ≤ 350
    unfold topExponent
    omega

end Decimal

end AdaptiveMtu
