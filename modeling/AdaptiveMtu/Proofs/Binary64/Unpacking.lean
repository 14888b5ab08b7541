/-
Numbers taken apart, and put together again.

Every operation on binary64 numbers takes its arguments apart into sign, mantissa and exponent, computes
with these, and puts the result back into 64 bits.  A result that is taken apart once more is what went
in, as long as its mantissa has the shape that its exponent asks for (`Canonical`) and its exponent is one
that the format has; with a larger exponent it has become an infinity.  What comes out of a number
always has that shape, so the shape is an invariant of all computations.
-/
import AdaptiveMtu.Binary64.Parts
import Mathlib

namespace AdaptiveMtu

namespace Binary64

open Float.Model
open Float.Model.UnpackedFloat (Sign)

/-- A number taken apart. -/
def unpacked (x : Float) : UnpackedFloat := x.toModel.unpack

/-- What becomes of an unpacked number that is packed and taken apart again. -/
def repack (u : UnpackedFloat) : UnpackedFloat := .unpack .binary64 (UnpackedFloat.pack .binary64 u)

theorem isFinite_eq (x : Float) : x.isFinite = (unpacked x).isFinite := rfl

theorem unpacked_add (x y : Float) :
    unpacked (x + y) = repack (.add .binary64 (unpacked x) (unpacked y)) := rfl

theorem unpacked_sub (x y : Float) :
    unpacked (x - y) = repack (.sub .binary64 (unpacked x) (unpacked y)) := rfl

theorem unpacked_mul (x y : Float) :
    unpacked (x * y) = repack (.mul .binary64 (unpacked x) (unpacked y)) := rfl

theorem unpacked_div (x y : Float) :
    unpacked (x / y) = repack (.div .binary64 (unpacked x) (unpacked y)) := rfl

/-! ### The three fields of a packed number -/

/-- What a sign, an exponent field and a fraction field stand for. -/
def ofParts (s : Sign) (E : BitVec 11) (M : BitVec 52) : UnpackedFloat :=
  if E = -1#11 then (if M = 0#52 then .infinity s else .notANumber)
  else if E = 0#11 then
    if h : M = 0#52 then .zero s
    else .finite s M.toNat (-1074) (by simpa [BitVec.toNat_pos, BitVec.pos_iff_ne_zero] using h)
  else .finite s (2 ^ 52 + M.toNat) (E.toNat - 1075) (by omega)

theorem unpack_eq_ofParts (b : BitVec 64) :
    UnpackedFloat.unpack .binary64 b =
      ofParts (.ofBitVec (@UnpackedFloat.unpackSign .binary64 b))
        (@UnpackedFloat.unpackExponent .binary64 b)
        (@UnpackedFloat.unpackMantissa .binary64 b) := by
  have hbias : Format.exponentBias Format.binary64 = 1023 := rfl
  have hM := (@UnpackedFloat.unpackMantissa .binary64 b).isLt
  simp only [UnpackedFloat.unpack, ofParts, hbias]
  by_cases hones : @UnpackedFloat.unpackExponent .binary64 b = -1#11
  · rw [if_pos hones, if_pos hones]
  · by_cases hzero : @UnpackedFloat.unpackExponent .binary64 b = 0#11
    · simp [hzero]
    · rw [if_neg hones, if_neg hones, if_neg hzero, if_neg hzero]
      congr 1
      rw [BitVec.toNat_append, ← Nat.shiftLeft_add_eq_or_of_lt hM]
      rfl

theorem unpack_packComponents (s : Sign) (E : BitVec 11) (M : BitVec 52) :
    UnpackedFloat.unpack .binary64 (UnpackedFloat.packComponents .binary64 s E M) =
      ofParts s E M := by
  have h := unpack_eq_ofParts (UnpackedFloat.packComponents .binary64 s E M)
  rw [UnpackedFloat.unpackSign_packComponents, Sign.ofBitVec_toBitVec,
    UnpackedFloat.unpackExponent_packComponents, UnpackedFloat.unpackMantissa_packComponents] at h
  exact h

/-! ### Infinities and NaN -/

theorem repack_infinity (s : Sign) : repack (.infinity s) = .infinity s := by
  show UnpackedFloat.unpack .binary64 (UnpackedFloat.packComponents .binary64 s (-1#11) 0#52) = _
  rw [unpack_packComponents, ofParts, if_pos rfl, if_pos rfl]

theorem repack_notANumber : repack .notANumber = .notANumber := by
  show UnpackedFloat.unpack .binary64
    (UnpackedFloat.packComponents .binary64 .positive (-1#11) (1#52 <<< 51)) = _
  rw [unpack_packComponents, ofParts, if_pos rfl, if_neg (by decide)]

theorem repack_zero (s : Sign) : repack (.zero s) = .zero s := by
  show UnpackedFloat.unpack .binary64 (UnpackedFloat.packComponents .binary64 s 0#11 0#52) = _
  rw [unpack_packComponents, ofParts, if_neg (by decide), if_pos rfl, dif_pos rfl]

/-- Nothing becomes finite by being packed. -/
theorem isFinite_of_repack {u : UnpackedFloat} (h : (repack u).isFinite = true) :
    u.isFinite = true := by
  cases u with
  | notANumber =>
      rw [repack_notANumber] at h
      cases h
  | infinity s =>
      rw [repack_infinity] at h
      cases h
  | zero _ | finite _ _ _ _ => rfl

/-- An operation on unpacked numbers makes nothing finite of an infinity or of NaN. -/
def Strict (op : UnpackedFloat → UnpackedFloat → UnpackedFloat) : Prop :=
  ∀ a b, (op a b).isFinite = true → a.isFinite = true ∧ b.isFinite = true

theorem strict_add : Strict (.add .binary64) := by
  intro a b h
  cases a with
  | notANumber => cases h
  | infinity s =>
      cases b with
      | infinity s' =>
          rw [UnpackedFloat.add] at h
          split at h <;> cases h
      | notANumber | zero _ | finite _ _ _ _ => cases h
  | zero _ | finite _ _ _ _ =>
      cases b with
      | notANumber | infinity _ => cases h
      | zero _ | finite _ _ _ _ => exact ⟨rfl, rfl⟩

theorem strict_sub : Strict (.sub .binary64) := by
  intro a b h
  cases a with
  | notANumber => cases h
  | infinity s =>
      cases b with
      | infinity s' =>
          rw [UnpackedFloat.sub] at h
          split at h <;> cases h
      | notANumber | zero _ | finite _ _ _ _ => cases h
  | zero _ | finite _ _ _ _ =>
      cases b with
      | notANumber | infinity _ => cases h
      | zero _ | finite _ _ _ _ => exact ⟨rfl, rfl⟩

theorem strict_mul : Strict (.mul .binary64) := by
  intro a b h
  cases a with
  | notANumber => cases h
  | infinity s =>
      cases b with
      | notANumber | infinity _ | zero _ | finite _ _ _ _ => cases h
  | zero _ | finite _ _ _ _ =>
      cases b with
      | notANumber | infinity _ => cases h
      | zero _ | finite _ _ _ _ => exact ⟨rfl, rfl⟩

/-- **A sum that is finite is one of finite numbers.** -/
theorem isFinite_of_add {x y : Float} (h : (x + y).isFinite = true) :
    x.isFinite = true ∧ y.isFinite = true :=
  strict_add _ _ (isFinite_of_repack h)

theorem isFinite_of_sub {x y : Float} (h : (x - y).isFinite = true) :
    x.isFinite = true ∧ y.isFinite = true :=
  strict_sub _ _ (isFinite_of_repack h)

theorem isFinite_of_mul {x y : Float} (h : (x * y).isFinite = true) :
    x.isFinite = true ∧ y.isFinite = true :=
  strict_mul _ _ (isFinite_of_repack h)

/-- Dividing is not strict: a finite number by an infinity is zero. -/
theorem isFinite_of_div {x y : Float} (h : (x / y).isFinite = true) : x.isFinite = true := by
  rw [isFinite_eq, unpacked_div] at h
  replace h := isFinite_of_repack h
  rw [isFinite_eq]
  cases hx : unpacked x with
  | notANumber =>
      rw [hx] at h
      cases h
  | infinity s =>
      rw [hx] at h
      cases hy : unpacked y with
      | notANumber | infinity _ | zero _ | finite _ _ _ _ =>
          rw [hy] at h
          cases h
  | zero _ | finite _ _ _ _ => rfl

/-! ### Finite numbers -/

/-- A mantissa of the length that its exponent asks for. -/
structure Canonical (m : Nat) (e : Int) : Prop where
  pos : 0 < m
  lt : m < 2 ^ 53
  ge_exponent : -1074 ≤ e
  normal : 2 ^ 52 ≤ m ∨ e = -1074

/-- Below the normal numbers the mantissa is the fraction field as it is. -/
theorem ofParts_subnormal (s : Sign) {m : Nat} (hpos : 0 < m) (hlt : m < 2 ^ 52) :
    ofParts s 0#11 (BitVec.ofNat 52 m) = .finite s m (-1074) hpos := by
  have hM : (BitVec.ofNat 52 m).toNat = m := by
    rw [BitVec.toNat_ofNat]
    exact Nat.mod_eq_of_lt hlt
  have hM0 : BitVec.ofNat 52 m ≠ 0#52 := by
    intro hc
    rw [hc] at hM
    exact hpos.ne hM
  rw [ofParts, if_neg (by decide), if_pos rfl, dif_neg hM0]
  congr 1

/-- A normal number leaves its leading bit to the exponent field. -/
theorem ofParts_normal (s : Sign) {m E : Nat} (hm : 2 ^ 52 ≤ m) (hlt : m < 2 ^ 53) (hE : 0 < E)
    (hE' : E < 2047) :
    ofParts s (BitVec.ofNat 11 E) (BitVec.ofNat 52 m)
      = .finite s m ((E : Int) - 1075) (Nat.lt_of_lt_of_le (by decide) hm) := by
  have hEval : (BitVec.ofNat 11 E).toNat = E := by
    rw [BitVec.toNat_ofNat]
    exact Nat.mod_eq_of_lt (by omega)
  have hMval : (BitVec.ofNat 52 m).toNat = m - 2 ^ 52 := by
    rw [BitVec.toNat_ofNat, Nat.mod_eq_sub_mod hm]
    exact Nat.mod_eq_of_lt (by omega)
  have hones : BitVec.ofNat 11 E ≠ -1#11 := by
    intro hc
    rw [hc] at hEval
    have : 2047 = E := hEval
    omega
  have hzero : BitVec.ofNat 11 E ≠ 0#11 := by
    intro hc
    rw [hc] at hEval
    have : 0 = E := hEval
    omega
  rw [ofParts, if_neg hones, if_neg hzero]
  congr 1 <;> omega

/-- A canonical number survives being packed unless its exponent is too large for the format. -/
theorem repack_finite {m : Nat} {e : Int} (s : Sign) (h : Canonical m e) :
    repack (.finite s m e h.pos) = if e ≤ 971 then .finite s m e h.pos else .infinity s := by
  have hbias : Format.exponentBias Format.binary64 = 1023 := rfl
  have hbits : Format.mantissaBits Format.binary64 = 53 := rfl
  have hne : m ≠ 0 := Nat.pos_iff_ne_zero.mp h.pos
  have hlt := h.lt
  have hge := h.ge_exponent
  unfold repack UnpackedFloat.pack
  simp only [hbias, hbits]
  by_cases he : e ≤ 971
  · rw [if_pos he, if_neg (by simp; omega)]
    rcases Nat.lt_or_ge m (2 ^ 52) with hsub | hnormal
    · have hlog : m.log2 + 1 ≠ 53 := by
        have := (Nat.log2_lt hne).mpr hsub
        omega
      obtain rfl : e = -1074 := h.normal.resolve_left (by omega)
      rw [if_neg hlog, unpack_packComponents, ofParts_subnormal s h.pos hsub]
    · have hlog : m.log2 + 1 = 53 := by
        have h1 := (Nat.le_log2 hne).mpr hnormal
        have h2 := (Nat.log2_lt hne).mpr hlt
        omega
      obtain ⟨E, hE⟩ : ∃ E : Nat, (e + (1023 : Nat) + (52 : Nat)).toNat = E := ⟨_, rfl⟩
      rw [if_pos hlog, hE, unpack_packComponents,
        ofParts_normal s hnormal hlt (by omega) (by omega)]
      congr 1
      omega
  · rw [if_neg he, if_pos (by simp; omega)]
    exact repack_infinity s

theorem canonical_of_ofParts {s s' : Sign} {E : BitVec 11} {M : BitVec 52} {m : Nat} {e : Int}
    {hm : 0 < m} (h : ofParts s E M = .finite s' m e hm) : Canonical m e ∧ e ≤ 971 := by
  have hE : E.toNat < 2 ^ 11 := E.isLt
  have hM : M.toNat < 2 ^ 52 := M.isLt
  unfold ofParts at h
  by_cases hones : E = -1#11
  · rw [if_pos hones] at h
    split at h <;> cases h
  · rw [if_neg hones] at h
    have hE1 : E.toNat ≠ 2047 := fun hc => hones (BitVec.eq_of_toNat_eq hc)
    by_cases hzero : E = 0#11
    · rw [if_pos hzero] at h
      split at h
      · cases h
      · injection h with _ hmantissa hexponent
        exact ⟨⟨hm, by omega, by omega, Or.inr (by omega)⟩, by omega⟩
    · rw [if_neg hzero] at h
      have hE0 : E.toNat ≠ 0 := fun hc => hzero (BitVec.eq_of_toNat_eq hc)
      injection h with _ hmantissa hexponent
      exact ⟨⟨hm, by omega, by omega, Or.inl (by omega)⟩, by omega⟩

/-- **Taken apart, a finite number has a canonical mantissa and an exponent within the format.** -/
theorem canonical_of_unpacked {x : Float} {s : Sign} {m : Nat} {e : Int} {hm : 0 < m}
    (h : unpacked x = .finite s m e hm) : Canonical m e ∧ e ≤ 971 :=
  canonical_of_ofParts ((unpack_eq_ofParts _).symm.trans h)

end Binary64

end AdaptiveMtu
