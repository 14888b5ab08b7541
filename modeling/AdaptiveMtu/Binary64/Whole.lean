/-
Whole numbers and binary64: the conversions between them, the remainder that keeps an hour within
a day, and the two ways of forcing a number into a range.

The whole numbers here are counts below 2⁶⁴. A number that does not fit such a count saturates: below
zero it becomes 0, above it becomes the largest count, and NaN becomes 0.
-/
import AdaptiveMtu.Binary64.Parts

namespace AdaptiveMtu

/-- The largest count: 2⁶⁴ - 1. -/
def largestCount : Nat := 0xffffffffffffffff

/-- The first number that is too large for thirty-two bits: 2³². -/
def wordLimit : Nat := 0x100000000

namespace Binary64

/-- The number nearest to a count. -/
def ofCount (n : Nat) : Float := (UInt64.ofNat n).toFloat

/-- The whole part of a number, as a count. -/
def truncate (x : Float) : Nat := x.toUInt64.toNat

/-- The count nearest to a number, a half going up. -/
def nearestCount (x : Float) : Nat :=
  if x.isNaN || negative x then 0
  else if x.isInf then largestCount
  else min ((units x + unitsPerOne / 2) / unitsPerOne) largestCount

/-! ### Ranges -/

/-- The number itself if it is above zero, else zero; NaN becomes zero. -/
def atLeastZero (x : Float) : Float := if 0 < x then x else 0

/-- The nearest end of `low ... high` for a number outside it; NaN stays. -/
def clamp (low high x : Float) : Float :=
  if x < low then low else if high < x then high else x

/-! ### Remainders -/

/-- What is left of a finite number after taking off whole multiples of `d`, with the number's own
sign; it is exact, because the remainder of a multiple of a unit is one too. -/
def remainder (x : Float) (d : Nat) : Float :=
  if x.isFinite then
    (ofQuotient? (negative x) (units x % (d * unitsPerOne)) 1).getD nan
  else nan

/-- The hour of the day that a number of hours comes to: a negative remainder is moved up by one day. -/
def wrapDay (x : Float) : Float :=
  let hours := remainder x 24
  if hours < 0 then hours + 24 else hours

end Binary64

end AdaptiveMtu
