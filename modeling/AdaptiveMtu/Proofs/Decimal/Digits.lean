/-
The digits of whole numbers.

A written number is read digit by digit, the newest digit last.  So the digits of a number are those
of a tenth of it and one more, and what is said of all of them is said by induction on the number.
-/
import AdaptiveMtu.Decimal.Numeral
import Mathlib.Tactic.IntervalCases

namespace AdaptiveMtu

namespace Numeral

/-! ### One digit -/

theorem isDigit_digitChar {d : Nat} (h : d < 10) : (digitChar d).isDigit = true := by
  interval_cases d <;> rfl

theorem digitChar_toNat {d : Nat} (h : d < 10) : (digitChar d).toNat - '0'.toNat = d := by
  interval_cases d <;> rfl

theorem digitChar_eq {d : Nat} (h : d < 10) : Nat.digitChar d = digitChar d := by
  interval_cases d <;> rfl

/-! ### All digits -/

theorem digitsOf_of_lt {n : Nat} (h : n < 10) : digitsOf n = [digitChar n] := by
  rw [digitsOf, Nat.toDigits_of_lt_base h, digitChar_eq h]

theorem digitsOf_append {n d : Nat} (hn : 0 < n) (hd : d < 10) :
    digitsOf (10 * n + d) = digitsOf n ++ [digitChar d] := by
  rw [digitsOf, ← Nat.toDigits_append_toDigits (by omega) hn hd, Nat.toDigits_of_lt_base hd,
    digitChar_eq hd]
  rfl

/-- What holds of a single digit and of one more digit behind a number holds of all numbers. -/
@[elab_as_elim]
theorem digits_induct {P : Nat → Prop} (single : ∀ d, d < 10 → P d)
    (append : ∀ n d, 0 < n → d < 10 → P n → P (10 * n + d)) (n : Nat) : P n := by
  induction n using Nat.strongRecOn with
  | ind n ih =>
      by_cases hn : n < 10
      · exact single n hn
      · have h := append (n / 10) (n % 10) (by omega) (by omega) (ih (n / 10) (by omega))
        rwa [Nat.div_add_mod] at h

/-! ### Fraction digits -/

/-- A numeral whose fraction is made of digits. -/
def Proper (n : Numeral) : Prop := ∀ d ∈ n.fraction, d < 10

theorem length_padded (places n : Nat) : (padded places n).length = places := by
  induction places generalizing n with
  | zero => rfl
  | succ places ih => rw [padded, List.length_append, ih]; rfl

theorem padded_lt (places n : Nat) : ∀ d ∈ padded places n, d < 10 := by
  induction places generalizing n with
  | zero => intro d hd; cases hd
  | succ places ih =>
      intro d hd
      rw [padded, List.mem_append, List.mem_singleton] at hd
      rcases hd with hd | rfl
      · exact ih _ d hd
      · exact Nat.mod_lt _ (by omega)

/-- A number's last digits, put behind its other digits, give the number back. -/
theorem foldl_padded (places n : Nat) :
    (padded places n).foldl (fun acc d => 10 * acc + d) (n / Nat.pow 10 places) = n := by
  induction places generalizing n with
  | zero => exact Nat.div_one n
  | succ places ih =>
      have hdiv : n / Nat.pow 10 (places + 1) = n / 10 / Nat.pow 10 places := by
        rw [Nat.div_div_eq_div_mul, Nat.mul_comm]
        rfl
      rw [padded, List.foldl_append, hdiv, ih]
      exact Nat.div_add_mod n 10

theorem proper_ofNat (n : Nat) : (ofNat n).Proper := by
  intro d hd
  cases hd

end Numeral

end AdaptiveMtu
