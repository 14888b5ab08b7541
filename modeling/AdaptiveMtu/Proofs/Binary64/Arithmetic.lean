/-
The four operations on finite numbers are exact up to one rounding.

A sum, a difference, a product or a quotient of finite numbers is computed exactly and then rounded to the
nearest number, unless it is beyond the largest number of the format.  Each operation is dealt with on
numbers taken apart first, where there is no largest number; that the result survives being packed
is the same argument for all four.
-/
import AdaptiveMtu.Proofs.Binary64.Value

namespace AdaptiveMtu

namespace Binary64

open Float.Model
open Float.Model.UnpackedFloat (Sign)

/-! ### Numbers of the format are their own nearest numbers -/

theorem spacingExponent_of_canonical {m : ℕ} {e : ℤ} (h : Canonical m e) :
    spacingExponent (m * 2 ^ e) = e := by
  have hne : m ≠ 0 := h.pos.ne'
  have hone : (1 : ℚ) ≤ m := by exact_mod_cast h.pos
  have htarget := targetExponent_of_one_le hone e
  rw [Nat.floor_natCast] at htarget
  rw [← htarget]
  show max ((m.log2 : ℤ) + 1 + e - 53) (-1074) = e
  have hupper : m.log2 < 53 := (Nat.log2_lt hne).mpr h.lt
  have hge := h.ge_exponent
  rcases h.normal with hnormal | hsub
  · have hlower : 52 ≤ m.log2 := (Nat.le_log2 hne).mpr hnormal
    omega
  · omega

theorem nearest_of_canonical {m : ℕ} {e : ℤ} (h : Canonical m e) (s : Sign) :
    nearest (signed s (m * 2 ^ e)) = signed s (m * 2 ^ e) := by
  have hpos : (0 : ℚ) < m * 2 ^ e :=
    mul_pos (by exact_mod_cast h.pos) (zpow_pos (by norm_num) e)
  rw [nearest_signed, nearest_of_multiple hpos m]
  rw [spacing, spacingExponent_of_canonical h]

theorem nearest_of_fits {u : UnpackedFloat} (h : Fits u) : nearest (toRat u) = toRat u := by
  cases u with
  | finite s m e hm => exact nearest_of_canonical h s
  | zero s => exact nearest_zero
  | infinity s => exact absurd h id
  | notANumber => exact absurd h id

/-- Powers of two are numbers of the format. -/
theorem nearest_zpow {e : ℤ} (h : -1022 ≤ e) : nearest (2 ^ e) = 2 ^ e := by
  have hcanonical : Canonical (2 ^ 52) (e - 52) :=
    ⟨by norm_num, by norm_num, by omega, Or.inl le_rfl⟩
  have hpow : signed .positive ((2 ^ 52 : ℕ) * 2 ^ (e - 52)) = (2 : ℚ) ^ e := by
    show ((2 ^ 52 : ℕ) : ℚ) * 2 ^ (e - 52) = 2 ^ e
    rw [Nat.cast_pow, Nat.cast_ofNat, ← zpow_natCast, ← zpow_add₀ two_ne_zero]
    congr 1
    push_cast
    ring
  rw [← hpow]
  exact nearest_of_canonical hcanonical .positive

/-! ### The largest number, and packing -/

/-- The largest number of the format. -/
def maxFinite : ℚ := (2 ^ 53 - 1 : ℕ) * 2 ^ (971 : ℤ)

theorem canonical_maxFinite : Canonical (2 ^ 53 - 1) 971 := by
  refine ⟨?_, ?_, ?_, Or.inl ?_⟩ <;> norm_num

theorem maxFinite_lt : maxFinite < 2 ^ (1024 : ℤ) := by
  have hpow : (2 : ℚ) ^ (1024 : ℤ) = 2 ^ (53 : ℤ) * 2 ^ (971 : ℤ) :=
    zpow_add₀ (by norm_num) 53 971
  rw [hpow, maxFinite]
  refine mul_lt_mul_of_pos_right ?_ (zpow_pos (by norm_num) 971)
  norm_num

theorem isFinite_of_abs_value_le {x : Float} (h : |value x| ≤ maxFinite) : x.isFinite = true :=
  isFinite_of_abs_value_lt (h.trans_lt maxFinite_lt)

theorem abs_nearest (z : ℚ) : |nearest z| = nearest |z| := by
  rcases le_total 0 z with hz | hz
  · rw [abs_of_nonneg hz, abs_of_nonneg (nearest_nonneg hz)]
  · have hneg := nearest_nonneg (neg_nonneg.mpr hz)
    rw [abs_of_nonpos hz, nearest_neg] at *
    rw [abs_of_nonpos (by linarith)]

theorem abs_nearest_lt {z : ℚ} (h : |z| ≤ maxFinite) : |nearest z| < 2 ^ (1024 : ℤ) := by
  have hmax : nearest maxFinite = maxFinite := nearest_of_canonical canonical_maxFinite .positive
  rw [abs_nearest]
  calc nearest |z| ≤ nearest maxFinite := nearest_mono h
    _ = maxFinite := hmax
    _ < 2 ^ (1024 : ℤ) := maxFinite_lt

theorem fits_unpacked {x : Float} (hx : x.isFinite = true) : Fits (unpacked x) := by
  rw [isFinite_eq] at hx
  cases hu : unpacked x with
  | finite s m e hm => exact (canonical_of_unpacked hu).1
  | zero s => trivial
  | infinity s | notANumber =>
      rw [hu] at hx
      cases hx

theorem nearest_value {x : Float} (hx : x.isFinite = true) : nearest (value x) = value x := by
  rw [value_eq hx]
  exact nearest_of_fits (fits_unpacked hx)

/-- What is small enough survives being packed. -/
theorem repack_of_lt {u : UnpackedFloat} (h : Fits u) (hlt : |toRat u| < 2 ^ (1024 : ℤ)) :
    repack u = u := by
  cases u with
  | zero s => exact repack_zero s
  | infinity s | notANumber => exact absurd h id
  | finite s m e hm =>
      rw [repack_finite s h, if_pos]
      by_contra he
      have hnormal : 2 ^ 52 ≤ m := h.normal.resolve_right (by omega)
      have hlarge : (2 : ℚ) ^ (1024 : ℤ) ≤ m * 2 ^ e :=
        calc (2 : ℚ) ^ (1024 : ℤ) ≤ 2 ^ (52 + e) := zpow_le_zpow_right₀ (by norm_num) (by omega)
          _ = 2 ^ 52 * 2 ^ e := by rw [zpow_add₀ (by norm_num)]; norm_cast
          _ ≤ m * 2 ^ e := by
              refine mul_le_mul_of_nonneg_right ?_ (zpow_pos (by norm_num) e).le
              exact_mod_cast hnormal
      have hvalue : |toRat (.finite s m e hm)| = m * 2 ^ e := by
        show |signed s (m * 2 ^ e)| = _
        rw [abs_signed, abs_of_nonneg (by positivity)]
      rw [hvalue] at hlt
      linarith

/-- A result that is rounded before it is packed survives this if it is small enough. -/
theorem finite_of_nearest_lt {x : Float} {u : UnpackedFloat} {z : ℚ} (hx : unpacked x = repack u)
    (hu : Fits u ∧ toRat u = nearest z) (hz : |nearest z| < 2 ^ (1024 : ℤ)) :
    x.isFinite = true ∧ value x = nearest z := by
  have hsame : unpacked x = u := by
    rw [hx, repack_of_lt hu.1]
    rw [hu.2]
    exact hz
  have hfinite : x.isFinite = true := by
    rw [isFinite_eq, hsame]
    cases u with
    | finite s m e hm => rfl
    | zero s => rfl
    | infinity s | notANumber => exact absurd hu.1 id
  refine ⟨hfinite, ?_⟩
  rw [value_eq hfinite, hsame, hu.2]

/-- **A result that is rounded before it is packed is finite if it is not beyond the largest number.** -/
theorem finite_of_rounded {x : Float} {u : UnpackedFloat} {z : ℚ} (hx : unpacked x = repack u)
    (hu : Fits u ∧ toRat u = nearest z) (hz : |z| ≤ maxFinite) :
    x.isFinite = true ∧ value x = nearest z :=
  finite_of_nearest_lt hx hu (abs_nearest_lt hz)

/-- A finite result that was rounded before it was packed is the rounded one. -/
theorem value_of_rounded {x : Float} {u : UnpackedFloat} {z : ℚ} (hx : unpacked x = repack u)
    (hu : Fits u ∧ toRat u = nearest z) (hfinite : x.isFinite = true) : value x = nearest z := by
  rw [value_eq hfinite, ← hu.2, hx]
  rw [isFinite_eq, hx] at hfinite
  cases u with
  | infinity s | notANumber => exact absurd hu.1 id
  | zero s => rw [repack_zero]
  | finite s m e hm =>
      rw [repack_finite s hu.1] at hfinite ⊢
      split at hfinite
      · next he => rw [if_pos he]
      · cases hfinite

/-! ### Sums and differences -/

theorem cast_apply (s : Sign) (m : ℕ) : ((s.apply m : ℤ) : ℚ) = signed s m := by
  cases s with
  | positive => exact Int.cast_natCast m
  | negative => exact (Int.cast_neg _).trans (congrArg Neg.neg (Int.cast_natCast m))

theorem signed_mul (s : Sign) (y z : ℚ) : signed s (y * z) = signed s y * z := by
  cases s with
  | positive => rfl
  | negative => exact neg_mul_eq_neg_mul y z

theorem signed_neg (s : Sign) (z : ℚ) : signed (-s) z = -signed s z := by
  cases s with
  | positive => rfl
  | negative => exact (neg_neg z).symm

/-- A mantissa that is brought to a smaller exponent stands for the same number. -/
theorem decreaseExponent_value (m : ℕ) {e t : ℤ} (h : t ≤ e) :
    ((UnpackedFloat.decreaseExponent m e t).1 : ℚ) * 2 ^ t = m * 2 ^ e := by
  obtain ⟨n, hn⟩ : ∃ n : ℕ, (e - t).toNat = n := ⟨_, rfl⟩
  have he : e = t + n := by omega
  have hm : (UnpackedFloat.decreaseExponent m e t).1 = m * 2 ^ n := by
    rw [UnpackedFloat.decreaseExponent, hn]
    exact Nat.shiftLeft_eq m n
  rw [hm, he, zpow_add₀ (by norm_num), zpow_natCast]
  push_cast
  ring

theorem toRat_zero (s : Sign) : toRat (.zero s) = 0 := rfl

/-- The sum of two numbers is computed exactly, at the smaller of their exponents, and then rounded. -/
theorem add_rounded {a b : UnpackedFloat} (ha : Fits a) (hb : Fits b) :
    Fits (.add .binary64 a b) ∧ toRat (.add .binary64 a b) = nearest (toRat a + toRat b) := by
  cases a with
  | infinity s | notANumber => exact absurd ha id
  | zero s =>
      rw [toRat_zero, zero_add]
      cases b with
      | infinity s' | notANumber => exact absurd hb id
      | zero s' =>
          rw [toRat_zero, nearest_zero, UnpackedFloat.add]
          split <;> exact ⟨trivial, rfl⟩
      | finite s' m e hm => exact ⟨hb, (nearest_of_fits hb).symm⟩
  | finite s m e hm =>
      cases b with
      | infinity s' | notANumber => exact absurd hb id
      | zero s' =>
          rw [toRat_zero, add_zero]
          exact ⟨ha, (nearest_of_fits ha).symm⟩
      | finite s' m' e' hm' =>
          have h := normalize_spec
            (s.apply (UnpackedFloat.decreaseExponent m e (min e e')).1
              + s'.apply (UnpackedFloat.decreaseExponent m' e' (min e e')).1) (min e e') .positive
          rw [Int.cast_add, cast_apply, cast_apply, add_mul, ← signed_mul, ← signed_mul,
            decreaseExponent_value m (min_le_left e e'),
            decreaseExponent_value m' (min_le_right e e')] at h
          exact h

theorem sub_rounded {a b : UnpackedFloat} (ha : Fits a) (hb : Fits b) :
    Fits (.sub .binary64 a b) ∧ toRat (.sub .binary64 a b) = nearest (toRat a - toRat b) := by
  cases a with
  | infinity s | notANumber => exact absurd ha id
  | zero s =>
      rw [toRat_zero, zero_sub, nearest_neg, nearest_of_fits hb]
      cases b with
      | infinity s' | notANumber => exact absurd hb id
      | zero s' =>
          rw [toRat_zero, neg_zero, UnpackedFloat.sub]
          split <;> exact ⟨trivial, rfl⟩
      | finite s' m e hm => exact ⟨hb, signed_neg s' _⟩
  | finite s m e hm =>
      cases b with
      | infinity s' | notANumber => exact absurd hb id
      | zero s' =>
          rw [toRat_zero, sub_zero]
          exact ⟨ha, (nearest_of_fits ha).symm⟩
      | finite s' m' e' hm' =>
          have h := normalize_spec
            (s.apply (UnpackedFloat.decreaseExponent m e (min e e')).1
              - s'.apply (UnpackedFloat.decreaseExponent m' e' (min e e')).1) (min e e') .positive
          rw [Int.cast_sub, cast_apply, cast_apply, sub_mul, ← signed_mul, ← signed_mul,
            decreaseExponent_value m (min_le_left e e'),
            decreaseExponent_value m' (min_le_right e e')] at h
          exact h

/-- **A sum of finite numbers is the nearest number to the exact sum.** -/
theorem add_spec {x y : Float} (hx : x.isFinite = true) (hy : y.isFinite = true)
    (h : |value x + value y| ≤ maxFinite) :
    (x + y).isFinite = true ∧ value (x + y) = nearest (value x + value y) := by
  rw [value_eq hx, value_eq hy] at h ⊢
  exact finite_of_rounded (unpacked_add x y) (add_rounded (fits_unpacked hx) (fits_unpacked hy)) h

/-- **A difference of finite numbers is the nearest number to the exact difference.** -/
theorem sub_spec {x y : Float} (hx : x.isFinite = true) (hy : y.isFinite = true)
    (h : |value x - value y| ≤ maxFinite) :
    (x - y).isFinite = true ∧ value (x - y) = nearest (value x - value y) := by
  rw [value_eq hx, value_eq hy] at h ⊢
  exact finite_of_rounded (unpacked_sub x y) (sub_rounded (fits_unpacked hx) (fits_unpacked hy)) h

/-! ### Products and quotients -/

theorem signed_mul_signed (s s' : Sign) (y z : ℚ) :
    signed (s * s') (y * z) = signed s y * signed s' z := by
  cases s with
  | positive =>
      cases s' with
      | positive => rfl
      | negative => exact neg_mul_eq_mul_neg y z
  | negative =>
      cases s' with
      | positive => exact neg_mul_eq_neg_mul y z
      | negative => exact (neg_mul_neg y z).symm

theorem signed_div_signed (s s' : Sign) (y z : ℚ) :
    signed (s / s') (y / z) = signed s y / signed s' z := by
  cases s with
  | positive =>
      cases s' with
      | positive => rfl
      | negative => exact (div_neg y).symm
  | negative =>
      cases s' with
      | positive => exact (neg_div z y).symm
      | negative => exact (neg_div_neg_eq y z).symm

/-- Two mantissas have all the bits that their product can be rounded to. -/
theorem add_le_spacingExponent {m m' : ℕ} {e e' : ℤ} (h : Canonical m e) (h' : Canonical m' e') :
    e + e' ≤ spacingExponent ((m * m' : ℕ) * 2 ^ (e + e')) := by
  have hone : (0 : ℚ) < (m * m' : ℕ) := by exact_mod_cast Nat.mul_pos h.pos h'.pos
  have hlog : 52 ≤ Int.log 2 ((m * m' : ℕ) : ℚ) ∨ e + e' = -1074 + -1074 := by
    rcases h.normal with hnormal | hsub
    · refine Or.inl ?_
      rw [← Int.zpow_le_iff_le_log Nat.one_lt_two hone]
      exact_mod_cast hnormal.trans (Nat.le_mul_of_pos_right m h'.pos)
    · rcases h'.normal with hnormal' | hsub'
      · refine Or.inl ?_
        rw [← Int.zpow_le_iff_le_log Nat.one_lt_two hone]
        exact_mod_cast hnormal'.trans (Nat.le_mul_of_pos_left m' h.pos)
      · exact Or.inr (by rw [hsub, hsub'])
  rw [spacingExponent, abs_of_pos (mul_pos hone (zpow_pos (by norm_num) _)), log_mul_zpow hone]
  omega

theorem mul_rounded {a b : UnpackedFloat} (ha : Fits a) (hb : Fits b) :
    Fits (.mul .binary64 a b) ∧ toRat (.mul .binary64 a b) = nearest (toRat a * toRat b) := by
  cases a with
  | infinity s | notANumber => exact absurd ha id
  | zero s =>
      rw [toRat_zero, zero_mul, nearest_zero]
      cases b with
      | infinity s' | notANumber => exact absurd hb id
      | zero s' | finite s' m e hm => exact ⟨trivial, rfl⟩
  | finite s m e hm =>
      cases b with
      | infinity s' | notANumber => exact absurd hb id
      | zero s' =>
          rw [toRat_zero, mul_zero, nearest_zero]
          exact ⟨trivial, rfl⟩
      | finite s' m' e' hm' =>
          have hpos : (0 : ℚ) < (m * m' : ℕ) * 2 ^ (e + e') :=
            mul_pos (by exact_mod_cast Nat.mul_pos hm hm') (zpow_pos (by norm_num) _)
          have hproduct : ((m * m' : ℕ) : ℚ) * 2 ^ (e + e') = m * 2 ^ e * (m' * 2 ^ e') := by
            rw [zpow_add₀ (by norm_num)]
            push_cast
            ring
          have h := roundWithAccuracy_spec (s * s') (standsFor_natCast (m * m')) hpos rfl
            (add_le_spacingExponent ha hb)
          rw [hproduct, signed_mul_signed] at h
          exact h

/-- A quotient with the rest of the division stands for the exact quotient. -/
theorem standsFor_quotient (n : ℕ) {d : ℕ} (hd : 0 < d) :
    StandsFor (.ofMantissaAndAccuracy (n / d) (UnpackedFloat.accuracyOfFraction (n % d) d))
      ((n : ℚ) / d) := by
  have hdpos : (0 : ℚ) < d := by exact_mod_cast hd
  have hfloor : ⌊(n : ℚ) / d⌋₊ = n / d := Nat.floor_div_eq_div n d
  have hrest : (n : ℚ) / d - (n / d : ℕ) = (n % d : ℕ) / d := by
    have hsplit : (n : ℚ) = d * (n / d : ℕ) + (n % d : ℕ) := by
      exact_mod_cast (Nat.div_add_mod n d).symm
    field_simp
    linarith
  have hge : 1 / 2 ≤ ((n % d : ℕ) : ℚ) / d ↔ d ≤ 2 * (n % d) := by
    rw [div_le_div_iff₀ two_pos hdpos]
    norm_cast
    rw [one_mul, mul_comm]
  have hhalf : ((n % d : ℕ) : ℚ) / d = 1 / 2 ↔ 2 * (n % d) = d := by
    rw [div_eq_div_iff hdpos.ne' two_ne_zero]
    norm_cast
    rw [one_mul, mul_comm]
  have hzero : ((n % d : ℕ) : ℚ) / d = 0 ↔ n % d = 0 := by
    rw [div_eq_zero_iff, or_iff_left hdpos.ne']
    norm_cast
  -- The two bits say where the rest is with respect to zero and to one half.
  have hbits : ∀ half rest : Bool, (half = true ↔ d ≤ 2 * (n % d)) →
      (rest = true ↔ n % d ≠ 0 ∧ 2 * (n % d) ≠ d) → StandsFor ⟨n / d, half, rest⟩ ((n : ℚ) / d) := by
    intro half rest hhalf' hrest'
    refine ⟨by positivity, hfloor.symm, ?_, ?_⟩
    · rw [hfloor, hrest, hge]
      exact hhalf'
    · rw [hfloor, hrest, Ne, Ne, hzero, hhalf]
      exact hrest'
  unfold UnpackedFloat.accuracyOfFraction
  by_cases hr : n % d = 0
  · rw [if_pos hr]
    exact hbits false false (iff_of_false Bool.false_ne_true (by omega))
      (iff_of_false Bool.false_ne_true (by omega))
  · rw [if_neg hr]
    rcases lt_trichotomy (2 * (n % d)) d with hlt | heq | hgt
    · rw [compare_lt_iff_lt.mpr hlt]
      exact hbits false true (iff_of_false Bool.false_ne_true (by omega)) (iff_of_true rfl (by omega))
    · rw [compare_eq_iff_eq.mpr heq]
      exact hbits true false (iff_of_true rfl (by omega)) (iff_of_false Bool.false_ne_true (by omega))
    · rw [compare_gt_iff_gt.mpr hgt]
      exact hbits true true (iff_of_true rfl (by omega)) (iff_of_true rfl (by omega))

/-- A quotient is at least the power of two that the lengths of its terms ask for. -/
theorem le_log_div {m m' : ℕ} (hm : 0 < m) (hm' : 0 < m') :
    (m.log2 : ℤ) - m'.log2 - 1 ≤ Int.log 2 ((m : ℚ) / m') := by
  have hpos : (0 : ℚ) < m := by exact_mod_cast hm
  have hpos' : (0 : ℚ) < m' := by exact_mod_cast hm'
  rw [← Int.zpow_le_iff_le_log Nat.one_lt_two (div_pos hpos hpos'), le_div_iff₀ hpos', Nat.cast_ofNat]
  have hlower : (2 : ℚ) ^ (m.log2 : ℤ) ≤ m := by
    rw [zpow_natCast]
    exact_mod_cast Nat.log2_self_le hm.ne'
  have hupper : (m' : ℚ) ≤ 2 ^ ((m'.log2 : ℤ) + 1) := by
    have : m' < 2 ^ (m'.log2 + 1) := Nat.lt_log2_self
    exact_mod_cast this.le
  calc (2 : ℚ) ^ ((m.log2 : ℤ) - m'.log2 - 1) * m'
      ≤ 2 ^ ((m.log2 : ℤ) - m'.log2 - 1) * 2 ^ ((m'.log2 : ℤ) + 1) :=
        mul_le_mul_of_nonneg_left hupper (zpow_pos two_pos _).le
    _ = 2 ^ (m.log2 : ℤ) := by
        rw [← zpow_add₀ two_ne_zero]
        congr 1
        ring
    _ ≤ m := hlower

theorem log_quotient {m m' : ℕ} (hm : 0 < m) (hm' : 0 < m') (e e' : ℤ) :
    Int.log 2 ((m : ℚ) * 2 ^ e / (m' * 2 ^ e')) = Int.log 2 ((m : ℚ) / m') + (e - e') := by
  have hpos : (0 : ℚ) < m := by exact_mod_cast hm
  have hpos' : (0 : ℚ) < m' := by exact_mod_cast hm'
  rw [← log_mul_zpow (div_pos hpos hpos'), zpow_sub₀ two_ne_zero, div_mul_div_comm]

/-- The quotient of two mantissas is taken at an exponent that leaves enough bits to round it. -/
theorem divCore_spec {m m' : ℕ} (hm : 0 < m) (hm' : 0 < m') (e e' : ℤ) :
    ∃ c t a q, UnpackedFloat.divCore .binary64 m e m' e' = (c, t, a) ∧
      StandsFor (.ofMantissaAndAccuracy c a) q ∧ (m : ℚ) * 2 ^ e / (m' * 2 ^ e') = q * 2 ^ t ∧
      t ≤ spacingExponent (m * 2 ^ e / (m' * 2 ^ e')) := by
  obtain ⟨target, htarget⟩ : ∃ target, Format.binary64.targetExponent
      (totalExponent m e - totalExponent m' e') = target := ⟨_, rfl⟩
  obtain ⟨t, ht⟩ : ∃ t, min (e - e') target = t := ⟨_, rfl⟩
  obtain ⟨n, hn⟩ : ∃ n : ℕ, (e - e' - t).toNat = n := ⟨_, rfl⟩
  refine ⟨_, t, _, ((m <<< n : ℕ) : ℚ) / m', ?_, standsFor_quotient (m <<< n) hm', ?_, ?_⟩
  · rw [UnpackedFloat.divCore, htarget, ht, hn]
  · have hpos' : (m' : ℚ) ≠ 0 := by exact_mod_cast hm'.ne'
    have htwo : (2 : ℚ) ^ e = 2 ^ e' * (2 ^ t * 2 ^ (n : ℤ)) := by
      rw [← zpow_add₀ two_ne_zero, ← zpow_add₀ two_ne_zero]
      congr 1
      omega
    rw [Nat.shiftLeft_eq, htwo, zpow_natCast]
    push_cast
    field_simp
  · have hpos : 0 < (m : ℚ) * 2 ^ e / (m' * 2 ^ e') := by positivity
    have hle := le_log_div hm hm'
    have hmax : target = max ((m.log2 : ℤ) + 1 + e - (m'.log2 + 1 + e') - 53) (-1074) :=
      htarget.symm
    rw [spacingExponent, abs_of_pos hpos, log_quotient hm hm']
    omega

theorem div_rounded {a b : UnpackedFloat} (ha : Fits a) (hb : Fits b) (hne : toRat b ≠ 0) :
    Fits (.div .binary64 a b) ∧ toRat (.div .binary64 a b) = nearest (toRat a / toRat b) := by
  cases b with
  | infinity s' | notANumber => exact absurd hb id
  | zero s' => exact absurd (toRat_zero s') hne
  | finite s' m' e' hm' =>
      cases a with
      | infinity s | notANumber => exact absurd ha id
      | zero s =>
          rw [toRat_zero, zero_div, nearest_zero]
          exact ⟨trivial, rfl⟩
      | finite s m e hm =>
          obtain ⟨c, t, acc, q, hcore, hstands, hvalue, ht⟩ := divCore_spec hm hm' e e'
          have hpos : 0 < (m : ℚ) * 2 ^ e / (m' * 2 ^ e') := by positivity
          have h := roundWithAccuracy_spec (s / s') hstands hpos hvalue ht
          rw [signed_div_signed] at h
          rw [UnpackedFloat.div, hcore]
          exact h

/-- **A product of finite numbers is the nearest number to the exact product.** -/
theorem mul_spec {x y : Float} (hx : x.isFinite = true) (hy : y.isFinite = true)
    (h : |value x * value y| ≤ maxFinite) :
    (x * y).isFinite = true ∧ value (x * y) = nearest (value x * value y) := by
  rw [value_eq hx, value_eq hy] at h ⊢
  exact finite_of_rounded (unpacked_mul x y) (mul_rounded (fits_unpacked hx) (fits_unpacked hy)) h

/-- **A quotient of finite numbers is the nearest number to the exact quotient.** -/
theorem div_spec {x y : Float} (hx : x.isFinite = true) (hy : y.isFinite = true)
    (hne : value y ≠ 0) (h : |value x / value y| ≤ maxFinite) :
    (x / y).isFinite = true ∧ value (x / y) = nearest (value x / value y) := by
  rw [value_eq hx, value_eq hy] at h ⊢
  rw [value_eq hy] at hne
  exact finite_of_rounded (unpacked_div x y)
    (div_rounded (fits_unpacked hx) (fits_unpacked hy) hne) h

end Binary64

end AdaptiveMtu
