/-
The parts of a binary64 number, read off its 64 bits.

The smallest positive number is 2⁻¹⁰⁷⁴, and every finite number is a whole multiple of it. This
module calls that spacing the unit and reads a finite number as

    ± significand · 2 ^ lift   units,

with a significand below 2⁵³. All exact work on finite numbers (remainders, decimals, rounding a
quotient) is then arithmetic on natural numbers, with no negative powers in sight.
-/
namespace AdaptiveMtu

namespace Binary64

/-- How many units make one: 2¹⁰⁷⁴. -/
def unitsPerOne : Nat := Nat.pow 2 1074

/-- The 64 bits as a natural number. -/
def word (x : Float) : Nat := x.toBits.toNat

/-- Whether the sign bit is set. -/
def negative (x : Float) : Bool := 0x8000000000000000 ≤ word x

/-- The eleven exponent bits; 2047 marks the infinities and NaN. -/
def exponentField (x : Float) : Nat := word x / 0x10000000000000 % 0x800

/-- The fifty-two fraction bits. -/
def fractionField (x : Float) : Nat := word x % 0x10000000000000

/-- The fraction with its leading bit, which numbers of exponent field zero do not have. -/
def significand (x : Float) : Nat :=
  if exponentField x = 0 then fractionField x else 0x10000000000000 + fractionField x

/-- The power of two that scales the significand to units. -/
def lift (x : Float) : Nat := exponentField x - 1

/-- The magnitude of a finite number, in units. -/
def units (x : Float) : Nat := significand x * Nat.pow 2 (lift x)

/-- The exponent and fraction bits of the infinities. -/
def infinityFields : Nat := 0x7ff0000000000000

/-- The quiet NaN. -/
def nan : Float := Float.ofBits 0x7ff8000000000000

/-! ### Putting a number together -/

/-- The number whose sign bit is `sign` and whose other bits are `magnitude`. -/
def ofFields (sign : Bool) (magnitude : Nat) : Float :=
  Float.ofBits (UInt64.ofNat ((if sign then 0x8000000000000000 else 0) + magnitude))

/-- The whole number nearest to `num / den`, a half going to the even neighbour. -/
def roundHalfEven (num den : Nat) : Nat :=
  let below := num / den
  let rest := num % den
  if 2 * rest < den then below
  else if den < 2 * rest then below + 1
  else below + below % 2

/--
The exponent and fraction bits of the number nearest to `num / den` units. The significand is
rounded to the spacing that the quotient's leading bit asks for; adding it to the lift in the
exponent field lets a carry out of the significand raise the exponent by itself.
-/
def nearestFields (num den : Nat) : Nat :=
  let shift := (num / den).log2 - 52
  roundHalfEven num (den * Nat.pow 2 shift) + shift * 0x10000000000000

/-- The number nearest to `num / den` units, or nothing when that is beyond the finite range. -/
def ofQuotient? (sign : Bool) (num den : Nat) : Option Float :=
  let fields := nearestFields num den
  if fields < infinityFields then some (ofFields sign fields) else none

end Binary64

end AdaptiveMtu
