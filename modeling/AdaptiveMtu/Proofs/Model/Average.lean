/-
The computed mean of MTUs.

As long as the sum of the answers is a count, it is the exact sum, and the mean that is computed from it is
off by two roundings.  Both are far below one byte, so the mean cut down to whole bytes is at most one byte
outside the range of the answers, and rounding to a whole hundred brings it back.
-/
import AdaptiveMtu.Proofs.Binary64.Order
import AdaptiveMtu.Proofs.Bounds
import AdaptiveMtu.Proofs.Model.Composition

namespace AdaptiveMtu

namespace Model

open Binary64

theorem total_eq_sum {mtus : List Nat} (h : mtus.sum ≤ largestCount) : total mtus = mtus.sum := by
  suffices hfold : ∀ start, start + mtus.sum ≤ largestCount →
      mtus.foldl (fun sum mtu => (sum + mtu) % (largestCount + 1)) start = start + mtus.sum by
    rw [total, hfold 0 (by rwa [Nat.zero_add]), Nat.zero_add]
  clear h
  induction mtus with
  | nil =>
      intro start _
      rfl
  | cons mtu rest ih =>
      intro start hstart
      rw [List.sum_cons] at hstart
      rw [List.foldl_cons, Nat.mod_eq_of_lt (by omega), ih _ (by omega), List.sum_cons, Nat.add_assoc]

/-- The sum of answers is between the multiples of their number. -/
theorem sum_mem {mtus : List Nat} {low high : Nat} (h : ∀ mtu ∈ mtus, low ≤ mtu ∧ mtu ≤ high) :
    mtus.length * low ≤ mtus.sum ∧ mtus.sum ≤ mtus.length * high :=
  ⟨mtus.card_nsmul_le_sum low fun mtu hmtu => (h mtu hmtu).1,
    mtus.sum_le_card_nsmul high fun mtu hmtu => (h mtu hmtu).2⟩

/-- The sum of answers is off by less than their number when it is converted. -/
theorem abs_nearest_sum_sub_le {n sum : Nat} (hn : 0 < n) (hsum : sum ≤ n * largestMtu) :
    |nearest sum - sum| ≤ n := by
  have hone : (1 : ℚ) ≤ n := by exact_mod_cast hn
  have hbound : (sum : ℚ) ≤ n * 9000 := by exact_mod_cast hsum
  have htiny : (2 : ℚ) ^ (-1075 : ℤ) ≤ 1 / 2 :=
    calc (2 : ℚ) ^ (-1075 : ℤ) ≤ 2 ^ (-1 : ℤ) := zpow_le_zpow_right₀ one_le_two (by norm_num)
      _ = 1 / 2 := by norm_num
  have h := abs_nearest_sub_le (sum : ℚ)
  rw [Nat.abs_cast] at h
  linarith

/-- The computed mean is finite and at most one byte outside the range of the answers. -/
theorem average_mem {mtus : List Nat} {low high : Nat} (hne : mtus ≠ [])
    (h : ∀ mtu ∈ mtus, low + 1 ≤ mtu ∧ mtu ≤ high) (hhigh : high ≤ largestMtu)
    (hcount : mtus.length * largestMtu ≤ largestCount) :
    (average mtus).isFinite = true ∧ (low : ℚ) ≤ value (average mtus) ∧
      value (average mtus) ≤ (high + 1 : ℕ) := by
  obtain ⟨n, hn⟩ : ∃ n, mtus.length = n := ⟨_, rfl⟩
  obtain ⟨sum, hsum⟩ : ∃ sum, mtus.sum = sum := ⟨_, rfl⟩
  have hpos : 0 < n := hn ▸ List.length_pos_of_ne_nil hne
  obtain ⟨hlow, hupper⟩ := sum_mem h
  rw [hn, hsum] at hlow hupper
  rw [hn] at hcount
  have hrange : low + 1 ≤ high := Nat.le_of_mul_le_mul_left (hlow.trans hupper) hpos
  have hlargest : sum ≤ n * largestMtu := hupper.trans (Nat.mul_le_mul_left n hhigh)
  have htotal : total mtus = sum := by rw [total_eq_sum (by omega), hsum]
  have hsmall : n ≤ 2 ^ 53 := by
    unfold largestMtu largestCount at hcount
    omega
  have hnine : high ≤ 9000 := hhigh
  obtain ⟨hsumFinite, hsumValue⟩ := ofCount_nearest (hlargest.trans hcount)
  obtain ⟨hnFinite, hnValue⟩ := ofCount_spec hsmall
  have hnpos : (0 : ℚ) < n := by exact_mod_cast hpos
  -- The sum is rounded, but by less than one byte for each answer.
  have hround := abs_le.mp (abs_nearest_sum_sub_le hpos hlargest)
  have hquotLow : (low : ℚ) ≤ nearest sum / n := by
    rw [le_div_iff₀ hnpos]
    have : (n : ℚ) * (low + 1) ≤ sum := by exact_mod_cast hlow
    linarith
  have hquotHigh : nearest sum / n ≤ (high + 1 : ℕ) := by
    rw [div_le_iff₀ hnpos]
    have : (sum : ℚ) ≤ n * high := by exact_mod_cast hupper
    push_cast
    linarith
  have hmax : |nearest sum / n| ≤ maxFinite := by
    rw [abs_of_nonneg ((Nat.cast_nonneg low).trans hquotLow)]
    calc nearest sum / n ≤ (high + 1 : ℕ) := hquotHigh
      _ ≤ 2 ^ 64 := by exact_mod_cast (Nat.succ_le_succ hhigh).trans (by decide)
      _ ≤ maxFinite := two_pow_le_maxFinite (by norm_num)
  have hdiv := div_spec hsumFinite hnFinite (by rw [hnValue]; exact hnpos.ne')
    (by rwa [hsumValue, hnValue])
  rw [hsumValue, hnValue] at hdiv
  rw [average, htotal, hn]
  refine ⟨hdiv.1, ?_, ?_⟩
  · rw [hdiv.2, ← nearest_natCast (n := low) (by omega)]
    exact nearest_mono hquotLow
  · rw [hdiv.2, ← nearest_natCast (n := high + 1) (by omega)]
    exact nearest_mono hquotHigh

/-- **The mean of whole hundreds within a range is a whole hundred within it.** -/
theorem roundMean_average {mtus : List Nat} {low high : Nat} (hne : mtus ≠ [])
    (h : ∀ mtu ∈ mtus, WholeWithin low high mtu) (hlow : WholeWithin 600 9000 low)
    (hhigh : WholeWithin 600 9000 high) (hcount : mtus.length * largestMtu ≤ largestCount) :
    WholeWithin low high (roundMean (average mtus)) := by
  have hnine : high ≤ 9000 := hhigh.le_high
  have hsix : 600 ≤ low := hlow.low_le
  have hnear : ∀ mtu ∈ mtus, low - 1 + 1 ≤ mtu ∧ mtu ≤ high := by
    intro mtu hmtu
    have hlower := (h mtu hmtu).low_le
    exact ⟨by omega, (h mtu hmtu).le_high⟩
  obtain ⟨hfinite, hlower, hupper⟩ := average_mem hne hnear hnine hcount
  obtain ⟨hmin, hmax⟩ := truncate_mem hfinite hlower hupper (by unfold largestCount; omega)
  obtain ⟨bytes, hbytes⟩ : ∃ bytes, truncate (average mtus) = bytes := ⟨_, rfl⟩
  rw [hbytes] at hmin hmax
  have hroom : bytes + 50 ≤ largestCount := by
    unfold largestCount
    omega
  have hrounded : WholeWithin low high (roundToHundred bytes) := by
    obtain ⟨a, ha⟩ := hlow.whole
    obtain ⟨b, hb⟩ := hhigh.whole
    refine ⟨hundred_dvd_roundToHundred bytes, ?_, ?_⟩
    all_goals
      rw [roundToHundred_eq hroom]
      omega
  -- The widest bounds have nothing left to do.
  have hclamp : MtuBounds.full.clamp (roundToHundred bytes) = roundToHundred bytes := by
    refine MtuBounds.full.clamp_of_mem ?_ (hrounded.le_high.trans hnine)
    exact le_trans (by decide) (hsix.trans hrounded.low_le)
  rw [roundMean, hbytes, hclamp]
  exact hrounded

end Model

end AdaptiveMtu
