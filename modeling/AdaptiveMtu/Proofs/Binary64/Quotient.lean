/-
The number nearest to a quotient.

A quotient of whole numbers is rounded on the bits: its leading bit says how far the significand is
shifted, and adding the shift to the exponent field lets a carry do the rest.  `RoundsTo` is the
interval of rationals around a finite number that are nearer to it than to its neighbours, its ends
included if the significand is even.  Every quotient in that interval is rounded to the fields of the
number; these fields and the sign are the number itself, bit by bit.
-/
import AdaptiveMtu.Proofs.Binary64.Value

namespace AdaptiveMtu

namespace Binary64

theorem unitsPerOne_pos : (0 : ℚ) < unitsPerOne := by
  rw [unitsPerOne_eq]
  exact zpow_pos two_pos _

/-! ### The nearest whole number -/

theorem roundHalfEven_eq {num den : ℕ} (hden : 0 < den) :
    roundHalfEven num den = roundEven (num / den : ℚ) := by
  have hfloor : ⌊(num / den : ℚ)⌋₊ = num / den := Nat.floor_div_eq_div num den
  have hpos : (0 : ℚ) < den := by exact_mod_cast hden
  have hrest : (num / den : ℚ) - (num / den : ℕ) = (num % den : ℕ) / den := by
    have hsplit : (num : ℚ) = den * (num / den : ℕ) + (num % den : ℕ) := by
      exact_mod_cast (Nat.div_add_mod num den).symm
    rw [eq_div_iff hpos.ne', sub_mul, div_mul_cancel₀ _ hpos.ne']
    linarith
  have hbelow : (num / den : ℚ) - (num / den : ℕ) < 1 / 2 ↔ 2 * (num % den) < den := by
    rw [hrest, div_lt_iff₀ hpos, ← @Nat.cast_lt ℚ]
    push_cast
    constructor <;> intro h <;> linarith
  have habove : 1 / 2 < (num / den : ℚ) - (num / den : ℕ) ↔ den < 2 * (num % den) := by
    rw [hrest, lt_div_iff₀ hpos, ← @Nat.cast_lt ℚ]
    push_cast
    constructor <;> intro h <;> linarith
  simp only [roundHalfEven, roundEven, hfloor, hbelow, habove]

/-- A rational within a half of a whole number is rounded to it; at a half away, if it is even. -/
theorem roundEven_eq {q : ℚ} {n : ℕ} (hlow : (n : ℚ) - 1 / 2 ≤ q) (hhigh : q ≤ n + 1 / 2)
    (hodd : n % 2 = 1 → (n : ℚ) - 1 / 2 < q ∧ q < n + 1 / 2) : roundEven q = n := by
  rcases lt_or_ge q n with hlt | hge
  · cases n with
    | zero =>
        have hfloor : ⌊q⌋₊ = 0 := Nat.floor_of_nonpos (by push_cast at hlt; exact hlt.le)
        rw [roundEven, hfloor, if_pos (by push_cast at hlt ⊢; linarith)]
    | succ m =>
        push_cast at hlow hlt hodd
        have hfloor : ⌊q⌋₊ = m := by
          rw [Nat.floor_eq_iff (by have : (0 : ℚ) ≤ m := m.cast_nonneg; linarith)]
          constructor <;> linarith
        rw [roundEven, hfloor, if_neg (by linarith)]
        by_cases hhalf : 1 / 2 < q - m
        · rw [if_pos hhalf]
        · rw [if_neg hhalf]
          -- Half way up to an even number: the number below is odd.
          have : m % 2 = 1 := by
            by_contra heven
            have := (hodd (by omega)).1
            linarith
          omega
  · have hfloor : ⌊q⌋₊ = n := by
      rw [Nat.floor_eq_iff ((n.cast_nonneg).trans hge)]
      exact ⟨hge, by linarith⟩
    rw [roundEven, hfloor]
    by_cases hbelow : q - n < 1 / 2
    · rw [if_pos hbelow]
    · have : n % 2 = 0 := by
        by_contra heven
        have := (hodd (by omega)).2
        linarith
      rw [if_neg hbelow, if_neg (by linarith)]
      omega

/-! ### The interval around a number -/

/-- How much less than its significand is still rounded up to a number, in its own spacing.  Below a
power of two the numbers are twice as close. -/
def slack (x : Float) : ℚ := if fractionField x = 0 ∧ 1 < exponentField x then 1 / 4 else 1 / 2

/-- A number of units is nearest to the magnitude of a number, or half way with an even significand. -/
structure RoundsTo (q : ℚ) (x : Float) : Prop where
  low : (significand x : ℚ) - slack x ≤ q / 2 ^ lift x
  high : q / 2 ^ lift x ≤ significand x + 1 / 2
  odd : significand x % 2 = 1 →
    (significand x : ℚ) - slack x < q / 2 ^ lift x ∧ q / 2 ^ lift x < significand x + 1 / 2

theorem slack_pos (x : Float) : 0 < slack x := by
  unfold slack
  split_ifs <;> norm_num

theorem slack_le (x : Float) : slack x ≤ 1 / 2 := by
  unfold slack
  split_ifs <;> norm_num

theorem significand_lt (x : Float) : significand x < 2 ^ 53 := by
  have : fractionField x < 2 ^ 52 := Nat.mod_lt _ (by norm_num)
  unfold significand
  split_ifs <;> omega

theorem le_significand {x : Float} (h : lift x ≠ 0) : 2 ^ 52 ≤ significand x := by
  have : exponentField x ≠ 0 := by
    unfold lift at h
    omega
  rw [significand, if_neg this]
  omega

/-- Below the least significand, only a quarter counts unless the spacing is the smallest. -/
theorem slack_of_least {x : Float} (h : lift x ≠ 0) (hs : significand x = 2 ^ 52) :
    slack x = 1 / 4 := by
  unfold lift at h
  have hfraction : fractionField x = 0 := by
    rw [significand, if_neg (by omega)] at hs
    omega
  rw [slack, if_pos ⟨hfraction, by omega⟩]

/-! ### Fields -/

/-- The exponent and fraction bits of a number. -/
def fields (x : Float) : ℕ := exponentField x * 2 ^ 52 + fractionField x

theorem fields_eq (x : Float) : fields x = significand x + lift x * 2 ^ 52 := by
  unfold fields significand lift
  by_cases h : exponentField x = 0
  · rw [if_pos h, h]
    omega
  · rw [if_neg h]
    omega

theorem word_eq (x : Float) : word x = (if negative x then 2 ^ 63 else 0) + fields x := by
  have hword : word x < 2 ^ 64 := x.toBits.toBitVec.isLt
  have hfields : fields x = word x % 2 ^ 63 := by
    unfold fields exponentField fractionField
    omega
  rw [hfields]
  by_cases h : negative x
  · have : 2 ^ 63 ≤ word x := by simpa [negative] using h
    rw [if_pos h]
    omega
  · have : word x < 2 ^ 63 := by simpa [negative] using h
    rw [if_neg h]
    omega

/-- A number is its bits. -/
theorem ofBits_toBits (x : Float) : Float.ofBits x.toBits = x := by
  obtain ⟨⟨bits, hvalid⟩⟩ := x
  simp only [Float.ofBits, Float.toBits, Float.Model.ofBits, Float.Model.pack]
  congr 2
  rw [Float.Model.UnpackedFloat.pack_unpack_of_valid hvalid]

/-- A number is put together from its own sign and fields. -/
theorem ofFields_fields (x : Float) : ofFields (negative x) (fields x) = x := by
  have hword : UInt64.ofNat (word x) = x.toBits := UInt64.ofNat_toNat
  have hsum : (if negative x then 0x8000000000000000 else 0) + fields x = word x := (word_eq x).symm
  rw [ofFields, hsum, hword, ofBits_toBits]

/-- A number without magnitude has no bits but its sign. -/
theorem fields_eq_zero {x : Float} (h : units x = 0) : fields x = 0 := by
  have hsignificand : significand x = 0 :=
    (Nat.mul_eq_zero.mp h).resolve_right (Nat.two_pow_pos _).ne'
  have hlift : lift x = 0 := by
    by_contra hne
    have := le_significand hne
    omega
  rw [fields_eq, hsignificand, hlift, Nat.zero_mul]

/-- The numbers whose exponent field is not all ones are the finite ones. -/
theorem isFinite_iff (x : Float) : x.isFinite = true ↔ exponentField x < 2047 := by
  have hbound : exponentField x < 2 ^ 11 := Nat.mod_lt _ (by norm_num)
  have hunpack : unpacked x = _ := unpack_eq_ofParts x.toBits.toBitVec
  have hfield := toNat_unpackExponent x
  rw [isFinite_eq, hunpack, ofParts]
  by_cases hones : @Float.Model.UnpackedFloat.unpackExponent .binary64 x.toBits.toBitVec = -1#11
  · have hall : exponentField x = 2047 := by
      rw [← hfield, hones]
      rfl
    rw [if_pos hones]
    refine iff_of_false ?_ (by omega)
    split_ifs <;> exact Bool.false_ne_true
  · have hnot : exponentField x ≠ 2047 := by
      rw [← hfield]
      exact fun hc => hones (BitVec.eq_of_toNat_eq hc)
    rw [if_neg hones]
    refine iff_of_true ?_ (by omega)
    split_ifs <;> rfl

theorem exponentField_lt {x : Float} (hx : x.isFinite = true) : exponentField x < 2047 :=
  (isFinite_iff x).mp hx

theorem fields_lt {x : Float} (hx : x.isFinite = true) : fields x < infinityFields := by
  have hexponent := exponentField_lt hx
  have hfraction : fractionField x < 2 ^ 52 := Nat.mod_lt _ (by norm_num)
  unfold fields infinityFields
  omega

/-- A number that is put together from fields below those of the infinities has that word. -/
theorem word_ofFields (sign : Bool) {f : ℕ} (hf : f < infinityFields) :
    word (ofFields sign f) = (if sign then 2 ^ 63 else 0) + f := by
  obtain ⟨w, hw⟩ : ∃ w, (if sign then 2 ^ 63 else 0) + f = w := ⟨_, rfl⟩
  have hlt : w < 2 ^ 64 ∧ w / 2 ^ 52 % 2 ^ 11 < 2047 := by
    unfold infinityFields at hf
    split_ifs at hw <;> omega
  have hbits : (UInt64.ofNat w).toBitVec.toNat = w := UInt64.toNat_ofNat_of_lt hlt.1
  have hexponent : @Float.Model.UnpackedFloat.unpackExponent .binary64 (UInt64.ofNat w).toBitVec
      ≠ -1#11 := by
    intro hc
    have htoNat := congrArg BitVec.toNat hc
    rw [Float.Model.UnpackedFloat.unpackExponent_def, BitVec.extractLsb'_toNat, hbits,
      Nat.shiftRight_eq_div_pow] at htoNat
    have : w / 2 ^ 52 % 2 ^ 11 = 2047 := htoNat
    omega
  have hvalid : Float.Model.Format.binary64.Valid (UInt64.ofNat w).toBitVec :=
    ⟨fun hc => absurd hc hexponent⟩
  rw [hw]
  show (Float.Model.UnpackedFloat.pack .binary64 (.unpack .binary64
    (UInt64.ofNat ((if sign then 0x8000000000000000 else 0) + f)).toBitVec)).toNat = w
  rw [show (if sign then 0x8000000000000000 else 0) + f = w from hw,
    Float.Model.UnpackedFloat.pack_unpack_of_valid hvalid, hbits]

theorem fields_ofFields (sign : Bool) {f : ℕ} (hf : f < infinityFields) :
    fields (ofFields sign f) = f := by
  have hword := word_ofFields sign hf
  unfold fields exponentField fractionField
  rw [hword]
  unfold infinityFields at hf
  split_ifs <;> omega

/-! ### Rounding a quotient -/

variable {x : Float} {num den : ℕ}

theorem log2_floor_lt {q : ℚ} {k : ℕ} (hq : 0 ≤ q) (hk : 0 < k) (h : q < 2 ^ k) :
    ⌊q⌋₊.log2 < k := by
  by_cases hzero : ⌊q⌋₊ = 0
  · rwa [hzero, Nat.log2_zero]
  · refine (Nat.log2_lt hzero).mpr ?_
    rw [Nat.floor_lt hq]
    exact_mod_cast h

theorem le_log2_floor {q : ℚ} {k : ℕ} (h : 2 ^ k ≤ q) : k ≤ ⌊q⌋₊.log2 := by
  have hle : 2 ^ k ≤ ⌊q⌋₊ := Nat.le_floor (by exact_mod_cast h)
  exact (Nat.le_log2 (Nat.ne_of_gt ((Nat.two_pow_pos k).trans_le hle))).mpr hle

/-- Less than the least significand, in the spacing of the number: the number is a power of two. -/
theorem RoundsTo.power_of_two {q : ℚ} (h : RoundsTo q x) (hlift : lift x ≠ 0)
    (hlt : q / 2 ^ lift x < 2 ^ 52) : significand x = 2 ^ 52 ∧ 2 ^ 51 ≤ q / 2 ^ lift x := by
  have hlow := h.low
  have hslack := slack_le x
  have hs : significand x = 2 ^ 52 := by
    have hle : (significand x : ℚ) < (2 ^ 52 + 1 : ℕ) := by
      push_cast
      linarith
    exact Nat.le_antisymm (Nat.le_of_lt_succ (by exact_mod_cast hle)) (le_significand hlift)
  refine ⟨hs, ?_⟩
  rw [slack_of_least hlift hs, hs] at hlow
  push_cast at hlow
  linarith

/-- The leading bit of a quotient in the interval is that of the number, or the one below if the number
is a power of two and the quotient is less. -/
theorem RoundsTo.shift (h : RoundsTo (num / den : ℚ) x) :
    (num / den).log2 - 52 = lift x ∨
      ((num / den).log2 - 52 + 1 = lift x ∧ significand x = 2 ^ 52 ∧
        (num / den : ℚ) / 2 ^ lift x < 2 ^ 52) := by
  obtain ⟨q, hq⟩ : ∃ q : ℚ, (num / den : ℚ) = q := ⟨_, rfl⟩
  have hfloor : num / den = ⌊q⌋₊ := by rw [← hq, Nat.floor_div_eq_div]
  have hpow : (0 : ℚ) < 2 ^ lift x := by positivity
  have hqnonneg : 0 ≤ q := by rw [← hq]; positivity
  rw [hq] at h ⊢
  rw [hfloor]
  have hlog : ⌊q⌋₊.log2 < 53 + lift x := by
    have hs : (significand x : ℚ) + 1 ≤ 2 ^ 53 := by exact_mod_cast significand_lt x
    refine log2_floor_lt hqnonneg (by omega) ?_
    rw [pow_add, ← div_lt_iff₀ hpow]
    linarith [h.high]
  by_cases hlift : lift x = 0
  · exact .inl (by omega)
  rcases le_or_gt (2 ^ 52) (q / 2 ^ lift x) with hge | hlt
  · refine .inl ?_
    rw [le_div_iff₀ hpow, ← pow_add] at hge
    have := le_log2_floor hge
    omega
  · obtain ⟨hs, hhalf⟩ := h.power_of_two hlift hlt
    refine .inr ⟨?_, hs, hlt⟩
    rw [le_div_iff₀ hpow, ← pow_add] at hhalf
    have hge := le_log2_floor hhalf
    have hbelow : ⌊q⌋₊.log2 < 52 + lift x := by
      refine log2_floor_lt hqnonneg (by omega) ?_
      rwa [pow_add, ← div_lt_iff₀ hpow]
    omega

/-- **Every quotient in the interval around a number is rounded to its fields.** -/
theorem RoundsTo.nearestFields_eq (hden : 0 < den) (h : RoundsTo (num / den : ℚ) x) :
    nearestFields num den = fields x := by
  have hround : ∀ k, roundHalfEven num (den * Nat.pow 2 k) = roundEven ((num / den : ℚ) / 2 ^ k) := by
    intro k
    have hpos : 0 < den * Nat.pow 2 k := Nat.mul_pos hden (Nat.two_pow_pos k)
    rw [roundHalfEven_eq hpos, div_div, Nat.cast_mul]
    congr 2
    exact congrArg _ (Nat.cast_pow 2 k)
  have hslack := slack_le x
  rw [nearestFields, fields_eq]
  simp only [hround]
  rcases h.shift with hshift | ⟨hshift, hs, hlt⟩
  · have hsame : roundEven ((num / den : ℚ) / 2 ^ lift x) = significand x := by
      refine roundEven_eq (by linarith [h.low]) h.high fun hodd => ?_
      obtain ⟨hlow, hhigh⟩ := h.odd hodd
      exact ⟨by linarith, hhigh⟩
    rw [hshift, hsame]
    rfl
  · -- The significand of the quotient is one bit longer, and rounds up to the next power of two.
    have hquarter := slack_of_least (by omega) hs
    have hlow := h.low
    obtain ⟨k, hk⟩ : ∃ k, (num / den).log2 - 52 = k := ⟨_, rfl⟩
    rw [hk] at hshift ⊢
    rw [← hshift, pow_succ, ← div_div] at hlow hlt
    rw [hquarter, hs] at hlow
    push_cast at hlow
    have hnext : roundEven ((num / den : ℚ) / 2 ^ k) = 2 ^ 53 := by
      refine roundEven_eq ?_ ?_ (fun hodd => by norm_num at hodd)
      · push_cast
        linarith
      · push_cast
        linarith
    rw [hnext, hs, ← hshift]
    omega

/-- **A quotient in the interval around a finite number is rounded to that number.** -/
theorem RoundsTo.ofQuotient?_eq (hx : x.isFinite = true) (hden : 0 < den)
    (h : RoundsTo (num / den : ℚ) x) : ofQuotient? (negative x) num den = some x := by
  have hlt := fields_lt hx
  rw [ofQuotient?, h.nearestFields_eq hden]
  simp only [if_pos hlt, ofFields_fields]

end Binary64

end AdaptiveMtu
