/-
A finite number that is written and read again.

A layout moves the point of a decimal and adds zeros, and so the numeral denotes the decimal it was
made from.  That decimal rounds to the number, so the number is what is read: the same bits, also for
a negative zero.
-/
import AdaptiveMtu.Decimal.Numeral
import AdaptiveMtu.Proofs.Decimal.Digits
import AdaptiveMtu.Proofs.Decimal.Shortest

namespace AdaptiveMtu

namespace Numeral

open Binary64

variable {x : Float}

/-! ### What a numeral denotes -/

/-- A numeral in units, its sign left aside. -/
def inUnits (n : Numeral) : ℚ := n.allDigits * 10 ^ n.scale * unitsPerOne

/-- **A numeral that rounds to a finite number is read as that number.** -/
theorem toFloat?_eq {n : Numeral} (hx : x.isFinite = true) (hdigits : n.allDigits ≠ 0)
    (hlow : -400 ≤ n.scale) (hhigh : n.scale ≤ 400) (hsign : n.negative = Binary64.negative x)
    (h : RoundsTo n.inUnits x) : n.toFloat? = some x := by
  have hden : 0 < Nat.pow 10 (-n.scale).toNat := Nat.pow_pos (by norm_num)
  have hquotient : n.inUnits = ((n.allDigits * Nat.pow 10 n.scale.toNat * unitsPerOne : ℕ) : ℚ)
      / (Nat.pow 10 (-n.scale).toNat : ℕ) := by
    rw [inUnits, Decimal.tenPow_eq, Nat.cast_mul, Nat.cast_mul]
    ring
  rw [hquotient] at h
  rw [toFloat?, if_neg hdigits, if_neg (by omega), if_neg (by omega), hsign]
  exact h.ofQuotient?_eq hx hden

/-! ### Layouts -/

variable {wholeFraction : List Nat}

/-- The zeros that a whole number gets for a fraction do not change it. -/
theorem inUnits_whole (h : wholeFraction = [] ∨ wholeFraction = [0]) (sign : Bool) (w : Nat) :
    inUnits ⟨sign, w, wholeFraction, none⟩ = w * unitsPerOne := by
  rcases h with rfl | rfl
  · show (w : ℚ) * 10 ^ (0 : ℤ) * unitsPerOne = _
    rw [zpow_zero, mul_one]
  · show ((10 * w + 0 : ℕ) : ℚ) * 10 ^ (-1 : ℤ) * unitsPerOne = _
    rw [Nat.add_zero, Nat.cast_mul, zpow_neg_one]
    push_cast
    ring

theorem allDigits_padded (sign : Bool) (places digits : Nat) (exponent : Option Int) :
    allDigits ⟨sign, digits / Nat.pow 10 places, padded places digits, exponent⟩ = digits :=
  foldl_padded places digits

/-- **A layout denotes the decimal that it was made from.** -/
theorem positional_spec (h : wholeFraction = [] ∨ wholeFraction = [0]) (sign : Bool) {d : Decimal}
    (hdigits : d.digits ≠ 0) (hlow : -350 ≤ d.exponent) :
    (positional sign d wholeFraction).inUnits = d.inUnits ∧
      (positional sign d wholeFraction).allDigits ≠ 0 ∧
      -400 ≤ (positional sign d wholeFraction).scale ∧
      (positional sign d wholeFraction).scale ≤ 400 := by
  unfold positional
  by_cases hwhole : 0 ≤ d.exponent
  · rw [if_pos hwhole]
    have hpow : ((Nat.pow 10 d.exponent.toNat : ℕ) : ℚ) = 10 ^ d.exponent := by
      rw [Decimal.tenPow_eq, show (-d.exponent).toNat = 0 by omega]
      exact (div_one _).symm
    have hne : d.digits * Nat.pow 10 d.exponent.toNat ≠ 0 :=
      Nat.mul_ne_zero hdigits (Nat.pow_pos (by norm_num)).ne'
    refine ⟨?_, ?_, ?_⟩
    · rw [inUnits_whole h, Nat.cast_mul, hpow, Decimal.inUnits]
    · rcases h with rfl | rfl
      · exact hne
      · exact Nat.mul_ne_zero (by norm_num) hne
    · rcases h with rfl | rfl
      · constructor <;> simp [scale]
      · constructor <;> simp [scale]
  · rw [if_neg hwhole]
    obtain ⟨places, hplaces⟩ : ∃ n, (-d.exponent).toNat = n := ⟨_, rfl⟩
    simp only [hplaces]
    have hscale : scale ⟨sign, d.digits / Nat.pow 10 places, padded places d.digits, none⟩
        = d.exponent := by
      show (0 : Int) - (padded places d.digits).length = _
      rw [length_padded]
      omega
    rw [inUnits, hscale, allDigits_padded]
    exact ⟨rfl, hdigits, by omega, by omega⟩

theorem scientific_spec (sign : Bool) {d : Decimal} (hdigits : d.digits ≠ 0)
    (hlow : -350 ≤ d.exponent) (hhigh : d.exponent ≤ 350) :
    (scientific sign d).inUnits = d.inUnits ∧ (scientific sign d).allDigits ≠ 0 ∧
      -400 ≤ (scientific sign d).scale ∧ (scientific sign d).scale ≤ 400 := by
  unfold scientific
  obtain ⟨places, hplaces⟩ : ∃ n, (digitsOf d.digits).length - 1 = n := ⟨_, rfl⟩
  simp only [hplaces]
  have hscale : scale ⟨sign, d.digits / Nat.pow 10 places, padded places d.digits,
      some (d.exponent + places)⟩ = d.exponent := by
    show d.exponent + places - (padded places d.digits).length = _
    rw [length_padded]
    omega
  rw [inUnits, hscale, allDigits_padded]
  exact ⟨rfl, hdigits, by omega, by omega⟩

/-! ### Zero -/

theorem toFloat?_zero (h : wholeFraction = [] ∨ wholeFraction = [0]) (hzero : units x = 0) :
    toFloat? ⟨Binary64.negative x, 0, wholeFraction, none⟩ = some x := by
  have hdigits : allDigits ⟨Binary64.negative x, 0, wholeFraction, none⟩ = 0 := by
    rcases h with rfl | rfl <;> rfl
  have hx := ofFields_fields x
  rw [fields_eq_zero hzero] at hx
  rw [toFloat?, if_pos hdigits]
  exact congrArg some hx

/-! ### Written numbers -/

variable {style : NumberStyle}

/-- **A finite number that is written is read back, bit by bit.** -/
theorem toFloat?_ofFloat (h : style.wholeFraction = [] ∨ style.wholeFraction = [0])
    (hx : x.isFinite = true) : (ofFloat style x).toFloat? = some x := by
  by_cases hzero : units x = 0
  · rw [ofFloat, if_pos hzero]
    exact toFloat?_zero h hzero
  · obtain ⟨hrounds, hdigits, hlow, hhigh⟩ := Decimal.shortest_spec style.tie hx hzero
    rw [ofFloat, if_neg hzero]
    simp only
    split_ifs
    · obtain ⟨hunits, hne, hscale⟩ := positional_spec h (Binary64.negative x) hdigits hlow
      refine toFloat?_eq hx hne hscale.1 hscale.2 ?_ (hunits ▸ hrounds)
      unfold positional
      split_ifs <;> rfl
    · obtain ⟨hunits, hne, hscale⟩ := scientific_spec (Binary64.negative x) hdigits hlow hhigh
      exact toFloat?_eq hx hne hscale.1 hscale.2 rfl (hunits ▸ hrounds)

/-- A written number is made of digits. -/
theorem proper_ofFloat (h : style.wholeFraction = [] ∨ style.wholeFraction = [0]) (x : Float) :
    (ofFloat style x).Proper := by
  have hwhole : ∀ d ∈ style.wholeFraction, d < 10 := by
    intro d hd
    rcases h with h | h
    · rw [h] at hd
      cases hd
    · rw [h, List.mem_singleton] at hd
      omega
  unfold ofFloat positional scientific
  simp only
  split_ifs
  · exact hwhole
  · exact hwhole
  · exact padded_lt _ _
  · exact padded_lt _ _

end Numeral

end AdaptiveMtu
