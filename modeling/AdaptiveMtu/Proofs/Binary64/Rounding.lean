/-
The rounding of the arithmetic is rounding to nearest.

A result is computed as a mantissa with two more bits, one for the half and one for anything else that was
shifted out.  `StandsFor` says which rationals such a mantissa stands for; shifting it halves them,
and rounding it takes the nearest whole number.  Rounding a mantissa to the length that its
exponent asks for is therefore `nearest`, and what comes out has a canonical mantissa.
-/
import AdaptiveMtu.Proofs.Binary64.Nearest
import AdaptiveMtu.Proofs.Binary64.Unpacking

namespace AdaptiveMtu

namespace Binary64

open Float.Model
open Float.Model.UnpackedFloat (Sign ExtendedMantissa Accuracy)

/-! ### Extended mantissas -/

/-- What an extended mantissa stands for: a rational with this whole part, at least half a unit more or
not, and in doubt strictly between. -/
structure StandsFor (em : ExtendedMantissa) (q : ℚ) : Prop where
  nonneg : 0 ≤ q
  mantissa : em.mantissa = ⌊q⌋₊
  roundBit : em.roundBit = true ↔ 1 / 2 ≤ q - ⌊q⌋₊
  stickyBit : em.stickyBit = true ↔ q - ⌊q⌋₊ ≠ 0 ∧ q - ⌊q⌋₊ ≠ 1 / 2

theorem standsFor_natCast (m : ℕ) : StandsFor (.ofMantissaAndAccuracy m .exact) m where
  nonneg := Nat.cast_nonneg m
  mantissa := by simp [ExtendedMantissa.ofMantissaAndAccuracy]
  roundBit := by simp [ExtendedMantissa.ofMantissaAndAccuracy]
  stickyBit := by simp [ExtendedMantissa.ofMantissaAndAccuracy]

theorem StandsFor.roundedMantissa {em : ExtendedMantissa} {q : ℚ} (h : StandsFor em q) :
    em.roundedMantissa = roundEven q := by
  obtain ⟨m, half, rest⟩ := em
  obtain ⟨hq, hm, hhalf, hrest⟩ := h
  have hfloor : (⌊q⌋₊ : ℚ) ≤ q := Nat.floor_le hq
  simp only at hm hhalf hrest
  subst hm
  unfold roundEven
  cases half with
  | true =>
      have hge : 1 / 2 ≤ q - ⌊q⌋₊ := hhalf.mp rfl
      rw [if_neg (by linarith)]
      cases rest with
      | true =>
          have hne := (hrest.mp rfl).2
          rw [if_pos (lt_of_le_of_ne hge (Ne.symm hne))]
          rfl
      | false =>
          have heq : q - ⌊q⌋₊ = 1 / 2 := by
            by_contra hne
            exact Bool.false_ne_true (hrest.mpr ⟨by linarith, hne⟩)
          rw [if_neg (by linarith)]
          rfl
  | false =>
      have hlt : q - ⌊q⌋₊ < 1 / 2 := by
        by_contra hge
        exact Bool.false_ne_true (hhalf.mpr (not_lt.mp hge))
      rw [if_pos hlt]
      cases rest <;> rfl

theorem StandsFor.shiftRightOne {em : ExtendedMantissa} {q : ℚ} (h : StandsFor em q) :
    StandsFor em.shiftRightOne (q / 2) := by
  have hfloor : (⌊q⌋₊ : ℚ) ≤ q := Nat.floor_le h.nonneg
  have hlt : q < ⌊q⌋₊ + 1 := Nat.lt_floor_add_one q
  have hhalf : ⌊q / 2⌋₊ = ⌊q⌋₊ / 2 := by exact_mod_cast Nat.floor_div_natCast q 2
  have hsplit : (⌊q⌋₊ : ℚ) = 2 * (⌊q⌋₊ / 2 : ℕ) + (⌊q⌋₊ % 2 : ℕ) := by
    exact_mod_cast (Nat.div_add_mod ⌊q⌋₊ 2).symm
  refine ⟨by linarith [h.nonneg], ?_, ?_, ?_⟩
  · rw [hhalf, ← h.mantissa]
    rfl
  · show (em.mantissa % 2 != 0) = true ↔ _
    rw [hhalf, h.mantissa]
    rcases Nat.mod_two_eq_zero_or_one ⌊q⌋₊ with hmod | hmod
    · rw [hmod] at hsplit ⊢
      push_cast at hsplit
      exact iff_of_false (by decide) (by linarith)
    · rw [hmod] at hsplit ⊢
      push_cast at hsplit
      exact iff_of_true (by decide) (by linarith)
  · show (em.roundBit || em.stickyBit) = true ↔ _
    -- Something was shifted out if the half was set or anything else was.
    have hany : (1 / 2 ≤ q - ⌊q⌋₊ ∨ q - ⌊q⌋₊ ≠ 0 ∧ q - ⌊q⌋₊ ≠ 1 / 2) ↔ q - ⌊q⌋₊ ≠ 0 := by
      constructor
      · rintro (hge | hne)
        · linarith
        · exact hne.1
      · intro hne
        by_cases heq : q - ⌊q⌋₊ = 1 / 2
        · exact Or.inl heq.ge
        · exact Or.inr ⟨hne, heq⟩
    rw [Bool.or_eq_true, h.roundBit, h.stickyBit, hhalf, hany]
    rcases Nat.mod_two_eq_zero_or_one ⌊q⌋₊ with hmod | hmod
    all_goals
      rw [hmod] at hsplit
      push_cast at hsplit
      constructor
      · intro hne
        refine ⟨fun h0 => ?_, fun h2 => ?_⟩
        all_goals exact hne (by linarith)
      · rintro ⟨h0, h2⟩ hzero
        first | exact h0 (by linarith) | exact h2 (by linarith)

theorem StandsFor.shiftRight {em : ExtendedMantissa} {q : ℚ} (h : StandsFor em q) (n : ℕ) :
    StandsFor (em >>> n) (q / 2 ^ n) := by
  induction n with
  | zero =>
      rw [pow_zero, div_one]
      exact h
  | succ n ih =>
      rw [pow_succ, ← div_div]
      exact ih.shiftRightOne

/-! ### Rounding to the length that the exponent asks for -/

/-- The sign put on a magnitude. -/
def signed (s : Sign) (z : ℚ) : ℚ :=
  match s with
  | .positive => z
  | .negative => -z

theorem abs_signed (s : Sign) (z : ℚ) : |signed s z| = |z| := by
  cases s with
  | positive => rfl
  | negative => exact abs_neg z

theorem nearest_signed (s : Sign) (z : ℚ) : nearest (signed s z) = signed s (nearest z) := by
  cases s with
  | positive => rfl
  | negative => exact nearest_neg z

/-- The rational that an unpacked number is; zero for an infinity and for NaN. -/
def toRat : UnpackedFloat → ℚ
  | .finite s m e _ => signed s (m * 2 ^ e)
  | _ => 0

/-- A finite number in the form that it has in the format, however large. -/
def Fits : UnpackedFloat → Prop
  | .zero _ => True
  | .finite _ m e _ => Canonical m e
  | _ => False

theorem log_mul_zpow {q : ℚ} (hq : 0 < q) (e : ℤ) : Int.log 2 (q * 2 ^ e) = Int.log 2 q + e := by
  have htwo : (0 : ℚ) < 2 ^ e := zpow_pos (by norm_num) e
  have hpos : 0 < q * 2 ^ e := mul_pos hq htwo
  refine le_antisymm (Int.lt_add_one_iff.mp ?_) ?_
  · have hlt : q < (2 : ℚ) ^ (Int.log 2 q + 1) := by
      exact_mod_cast Int.lt_zpow_succ_log_self Nat.one_lt_two q
    rw [← Int.lt_zpow_iff_log_lt Nat.one_lt_two hpos, add_right_comm, Nat.cast_ofNat,
      zpow_add₀ (by norm_num)]
    exact mul_lt_mul_of_pos_right hlt htwo
  · have hle : (2 : ℚ) ^ Int.log 2 q ≤ q := by
      exact_mod_cast Int.zpow_log_le_self Nat.one_lt_two hq
    rw [← Int.zpow_le_iff_le_log Nat.one_lt_two hpos, Nat.cast_ofNat, zpow_add₀ (by norm_num)]
    exact mul_le_mul_of_nonneg_right hle htwo.le

theorem targetExponent_of_one_le {q : ℚ} (hq : 1 ≤ q) (e : ℤ) :
    Format.binary64.targetExponent (totalExponent ⌊q⌋₊ e) = spacingExponent (q * 2 ^ e) := by
  have hqpos : 0 < q := one_pos.trans_le hq
  show max ((⌊q⌋₊.log2 : ℤ) + 1 + e - 53) (-1074) = _
  rw [spacingExponent, abs_of_pos (mul_pos hqpos (zpow_pos (by norm_num) e)), log_mul_zpow hqpos,
    Int.log_of_one_le_right 2 hq, ← Nat.log2_eq_log_two]
  congr 1
  ring

/-- The exponent that is asked for is the one of the spacing, if the mantissa has no bits missing. -/
theorem targetExponent_eq {q z : ℚ} {e : ℤ} (hz : 0 < z) (hq : z = q * 2 ^ e)
    (he : e ≤ spacingExponent z) :
    Format.binary64.targetExponent (totalExponent ⌊q⌋₊ e) = spacingExponent z := by
  rcases le_or_gt 1 q with hone | hone
  · rw [hq]
    exact targetExponent_of_one_le hone e
  · -- A number below one unit of its exponent has the smallest spacing there is.
    have hqpos : 0 < q := by
      rw [hq] at hz
      exact pos_of_mul_pos_left hz (zpow_pos (by norm_num) e).le
    have hneg : Int.log 2 q < 0 := by
      rw [← Int.lt_zpow_iff_log_lt Nat.one_lt_two hqpos, zpow_zero]
      exact hone
    show max ((⌊q⌋₊.log2 : ℤ) + 1 + e - 53) (-1074) = _
    unfold spacingExponent at he ⊢
    rw [abs_of_pos hz, hq, log_mul_zpow hqpos] at he ⊢
    rw [Nat.floor_eq_zero.mpr hone, Nat.log2_zero]
    omega

theorem shiftToTargetExponent_eq {m : ℕ} {e t : ℤ} {n : ℕ} (a : Accuracy)
    (ht : Format.binary64.targetExponent (totalExponent m e) = t) (hn : (t - e).toNat = n) :
    UnpackedFloat.shiftToTargetExponent .binary64 m e a
      = (ExtendedMantissa.ofMantissaAndAccuracy m a >>> n, e + n) := by
  subst ht hn
  rfl

/-- A mantissa that rounding has made one bit too long is shifted once more, and nothing is lost. -/
theorem shiftToTargetExponent_rounded {r : ℕ} {t : ℤ} (hr : r ≤ 2 ^ 53) (ht : -1074 ≤ t) :
    UnpackedFloat.shiftToTargetExponent .binary64 r t .exact =
      if r = 2 ^ 53 then (⟨2 ^ 52, false, false⟩, t + 1) else (⟨r, false, false⟩, t) := by
  have htarget : Format.binary64.targetExponent (totalExponent r t)
      = max ((r.log2 : ℤ) + 1 + t - 53) (-1074) := rfl
  by_cases hcarry : r = 2 ^ 53
  · have hlog : r.log2 = 53 := by rw [hcarry, Nat.log2_two_pow]
    have hshift : (max ((r.log2 : ℤ) + 1 + t - 53) (-1074) - t).toNat = 1 := by omega
    rw [if_pos hcarry, shiftToTargetExponent_eq .exact htarget hshift, hcarry]
    rfl
  · have hlog : r.log2 ≤ 52 := by
      by_cases hzero : r = 0
      · rw [hzero, Nat.log2_zero]
        omega
      · have := (Nat.log2_lt hzero).mpr (lt_of_le_of_ne hr hcarry)
        omega
    have hshift : (max ((r.log2 : ℤ) + 1 + t - 53) (-1074) - t).toNat = 0 := by omega
    rw [if_neg hcarry, shiftToTargetExponent_eq .exact htarget hshift, Nat.cast_zero, add_zero]
    rfl

/-- The number with a sign, a mantissa and an exponent, which may be zero. -/
def ofMantissa (s : Sign) (p : ExtendedMantissa × ℤ) : UnpackedFloat :=
  if h : p.1.mantissa = 0 then .zero s else .finite s p.1.mantissa p.2 (Nat.pos_of_ne_zero h)

theorem roundWithAccuracy_eq (s : Sign) (m : ℕ) (e : ℤ) (a : Accuracy) :
    UnpackedFloat.roundWithAccuracy .binary64 s m e a =
      ofMantissa s (UnpackedFloat.shiftToTargetExponent .binary64
        (UnpackedFloat.shiftToTargetExponent .binary64 m e a).1.roundedMantissa
        (UnpackedFloat.shiftToTargetExponent .binary64 m e a).2 .exact) := rfl

/-- A rounded mantissa has the length that its exponent asks for, after a carry as well. -/
theorem ofMantissa_rounded {r : ℕ} {t : ℤ} (s : Sign) (hle : r ≤ 2 ^ 53)
    (hge : 2 ^ 52 ≤ r ∨ t = -1074) (ht : -1074 ≤ t) :
    Fits (ofMantissa s (UnpackedFloat.shiftToTargetExponent .binary64 r t .exact)) ∧
      toRat (ofMantissa s (UnpackedFloat.shiftToTargetExponent .binary64 r t .exact))
        = signed s (r * 2 ^ t) := by
  rw [shiftToTargetExponent_rounded hle ht]
  by_cases hcarry : r = 2 ^ 53
  · rw [if_pos hcarry, hcarry]
    refine ⟨⟨by norm_num, by norm_num, by omega, Or.inl (le_refl _)⟩, ?_⟩
    show signed s ((2 ^ 52 : ℕ) * 2 ^ (t + 1)) = _
    congr 1
    rw [zpow_add_one₀ (by norm_num)]
    push_cast
    ring
  · rw [if_neg hcarry]
    by_cases hzero : r = 0
    · rw [ofMantissa, dif_pos hzero, hzero, Nat.cast_zero, zero_mul]
      refine ⟨trivial, ?_⟩
      cases s with
      | positive => rfl
      | negative => exact neg_zero.symm
    · rw [ofMantissa, dif_neg hzero]
      exact ⟨⟨Nat.pos_of_ne_zero hzero, lt_of_le_of_ne hle hcarry, ht, hge⟩, rfl⟩

/-- **Rounding a mantissa to the length that its exponent asks for is rounding to the nearest number.** -/
theorem roundWithAccuracy_spec {m : ℕ} {e : ℤ} {a : Accuracy} {q z : ℚ} (s : Sign)
    (ha : StandsFor (.ofMantissaAndAccuracy m a) q) (hz : 0 < z) (hq : z = q * 2 ^ e)
    (he : e ≤ spacingExponent z) :
    Fits (UnpackedFloat.roundWithAccuracy .binary64 s m e a) ∧
      toRat (UnpackedFloat.roundWithAccuracy .binary64 s m e a) = nearest (signed s z) := by
  have hm : m = ⌊q⌋₊ := by
    rw [← ha.mantissa]
    cases a with
    | exact => rfl
    | inexact o => cases o <;> rfl
  have htarget : Format.binary64.targetExponent (totalExponent m e) = spacingExponent z := by
    rw [hm]
    exact targetExponent_eq hz hq he
  obtain ⟨n, hn⟩ : ∃ n : ℕ, (spacingExponent z - e).toNat = n := ⟨_, rfl⟩
  have hen : e + n = spacingExponent z := by omega
  have hsmallest : -1074 ≤ spacingExponent z := le_max_right _ _
  -- What is left of the mantissa after shifting stands for the number measured in its spacing.
  have hfirst : StandsFor (ExtendedMantissa.ofMantissaAndAccuracy m a >>> n) (z / spacing z) := by
    have hquot : z / spacing z = q / 2 ^ n := by
      rw [spacing, ← hen, zpow_add₀ (by norm_num), hq, zpow_natCast]
      field_simp
    rw [hquot]
    exact ha.shiftRight n
  have hquot : z / spacing z < 2 ^ 53 := by
    have := abs_div_spacing_lt z
    rwa [abs_of_pos hz] at this
  have hle : roundEven (z / spacing z) ≤ 2 ^ 53 := roundEven_le (by exact_mod_cast hquot.le)
  have hge : 2 ^ 52 ≤ roundEven (z / spacing z) ∨ spacingExponent z = -1074 := by
    by_cases hexp : spacingExponent z = -1074
    · exact Or.inr hexp
    · have := le_abs_div_spacing hz.ne' hexp
      rw [abs_of_pos hz] at this
      exact Or.inl (le_roundEven (by exact_mod_cast this))
  rw [roundWithAccuracy_eq, shiftToTargetExponent_eq a htarget hn, hen, hfirst.roundedMantissa,
    nearest_signed, nearest_of_pos hz]
  exact ofMantissa_rounded s hle hge hsmallest

/-- A mantissa that is too short is filled up with zeros before it is rounded. -/
theorem round_spec (s : Sign) {m : ℕ} (hm : 0 < m) (e : ℤ) :
    Fits (UnpackedFloat.round .binary64 s m e) ∧
      toRat (UnpackedFloat.round .binary64 s m e) = nearest (signed s (m * 2 ^ e)) := by
  have hone : (1 : ℚ) ≤ m := by exact_mod_cast hm
  have htarget := targetExponent_of_one_le hone e
  rw [Nat.floor_natCast] at htarget
  obtain ⟨t, ht⟩ : ∃ t, spacingExponent (m * 2 ^ e) = t := ⟨_, rfl⟩
  obtain ⟨n, hn⟩ : ∃ n : ℕ, (e - t).toNat = n := ⟨_, rfl⟩
  have hround : UnpackedFloat.round .binary64 s m e =
      UnpackedFloat.roundWithAccuracy .binary64 s (m <<< n) (e - n) .exact := by
    rw [UnpackedFloat.round, htarget, ht, UnpackedFloat.decreaseExponent, hn]
  have hvalue : (m : ℚ) * 2 ^ e = (m <<< n : ℕ) * 2 ^ (e - n) := by
    rw [Nat.shiftLeft_eq, zpow_sub₀ (by norm_num), zpow_natCast]
    push_cast
    field_simp
  rw [hround]
  refine roundWithAccuracy_spec s (standsFor_natCast _) ?_ hvalue ?_
  · exact mul_pos (one_pos.trans_le hone) (zpow_pos (by norm_num) e)
  · rw [ht]
    omega

theorem normalize_spec (k : ℤ) (e : ℤ) (s : Sign) :
    Fits (UnpackedFloat.normalize .binary64 k e s) ∧
      toRat (UnpackedFloat.normalize .binary64 k e s) = nearest (k * 2 ^ e) := by
  unfold UnpackedFloat.normalize
  rcases lt_trichotomy k 0 with hneg | rfl | hpos
  · have h := round_spec .negative (m := (-k).toNat) (by omega) e
    have hcast : (((-k).toNat : ℕ) : ℚ) = -k := by
      exact_mod_cast congrArg (Int.cast : ℤ → ℚ) (Int.toNat_of_nonneg (by omega : 0 ≤ -k))
    rw [compare_lt_iff_lt.mpr hneg]
    rw [hcast, signed, neg_mul, neg_neg] at h
    exact h
  · rw [compare_eq_iff_eq.mpr rfl, Int.cast_zero, zero_mul, nearest_zero]
    exact ⟨trivial, rfl⟩
  · have h := round_spec .positive (m := k.toNat) (by omega) e
    have hcast : ((k.toNat : ℕ) : ℚ) = k := by
      exact_mod_cast congrArg (Int.cast : ℤ → ℚ) (Int.toNat_of_nonneg hpos.le)
    rw [compare_gt_iff_gt.mpr hpos]
    rw [hcast] at h
    exact h

end Binary64

end AdaptiveMtu
