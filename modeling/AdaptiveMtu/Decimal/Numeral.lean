/-
Decimal numerals as they are written: an optional minus, whole digits, fraction digits and an
exponent.

A numeral keeps what stands on the page, so that writing one and reading it again gives the same
numeral. What number it denotes is a second question, answered by `toFloat?`: the binary64 number
nearest to the decimal, or nothing when the decimal is beyond the finite range. In the other direction,
a `NumberStyle` says how the shortest digits of a number are laid out.

Reading is exact here, which it need not be elsewhere. A reader that makes do with machine arithmetic finds
the nearest number for most numerals, but may miss it in the last place for one of more than seventeen digits and
at both ends of the range: such a reader refuses 1.7976931348623158e308, to which the largest number is nearest,
and takes 2.4703282292062330e-324 for zero, though the smallest positive number is nearer. Whatever is proved
of numbers that are read from a text is proved for exact reading.
-/
import AdaptiveMtu.Decimal.Shortest

namespace AdaptiveMtu

/-- A decimal numeral; each member of `fraction` is one digit. -/
structure Numeral where
  negative : Bool
  whole : Nat
  fraction : List Nat
  exponent : Option Int
deriving DecidableEq, Repr

namespace Numeral

/-! ### Digits -/

/-- The character of a digit below ten. -/
def digitChar (d : Nat) : Char := Char.ofNat ('0'.toNat + d)

/-- The decimal digits of a natural number, without leading zeros. -/
def digitsOf (n : Nat) : List Char := Nat.toDigits 10 n

/-- The last `places` digits of `n`, with leading zeros. -/
def padded : (places : Nat) → (n : Nat) → List Nat
  | 0, _ => []
  | places + 1, n => padded places (n / 10) ++ [n % 10]

/-! ### Writing -/

/-- The written exponent: its sign always stands. -/
def exponentChars (e : Int) : List Char :=
  'e' :: (if e < 0 then '-' else '+') :: digitsOf e.natAbs

/-- The numeral's characters. -/
def chars (n : Numeral) : List Char :=
  (if n.negative then ['-'] else []) ++ digitsOf n.whole
    ++ (if n.fraction = [] then [] else '.' :: n.fraction.map digitChar)
    ++ (match n.exponent with
        | none => []
        | some e => exponentChars e)

/-- A natural number as a numeral. -/
def ofNat (n : Nat) : Numeral := ⟨false, n, [], none⟩

/-! ### Denotation -/

/-- All digits of a numeral, read as one natural number. -/
def allDigits (n : Numeral) : Nat := n.fraction.foldl (fun acc d => 10 * acc + d) n.whole

/-- The power of ten that scales all digits to the value. -/
def scale (n : Numeral) : Int := n.exponent.getD 0 - n.fraction.length

/-- The natural number below `limit` that a numeral without sign, fraction and exponent denotes. -/
def toNat? (limit : Nat) (n : Numeral) : Option Nat :=
  if !n.negative && n.fraction = [] && n.exponent = none && n.whole < limit then some n.whole
  else none

/--
The binary64 number nearest to a numeral, or nothing when it is beyond the finite range. A decimal
of at least 10⁴⁰⁰ is beyond it, and one below 10⁻⁴⁰⁰ is nearest to zero; only between the two is
the quotient formed.
-/
def toFloat? (n : Numeral) : Option Float :=
  let digits := n.allDigits
  if digits = 0 then some (Binary64.ofFields n.negative 0)
  else if 400 < n.scale then none
  else if n.scale + digits.log2 + 1 < -400 then some (Binary64.ofFields n.negative 0)
  else Binary64.ofQuotient? n.negative (digits * Nat.pow 10 n.scale.toNat * Binary64.unitsPerOne)
    (Nat.pow 10 (-n.scale).toNat)

end Numeral

/-! ### Layout of shortest digits -/

/-- How the shortest digits of a number are laid out. -/
structure NumberStyle where
  /-- Which of two equally near digit strings is taken. -/
  tie : Tie
  /-- Whether a number whose point stands at `k`, so that it reads 0.d₁d₂… · 10ᵏ, is written out in full. -/
  positional : Int → Bool
  /-- The fraction written for a whole number. -/
  wholeFraction : List Nat

namespace Numeral

/-- The digits `digits · 10 ^ exponent` written out in full. -/
def positional (sign : Bool) (d : Decimal) (wholeFraction : List Nat) : Numeral :=
  if 0 ≤ d.exponent then ⟨sign, d.digits * Nat.pow 10 d.exponent.toNat, wholeFraction, none⟩
  else
    let places := (-d.exponent).toNat
    ⟨sign, d.digits / Nat.pow 10 places, padded places d.digits, none⟩

/-- One digit before the point, the others behind it, and the power of ten. -/
def scientific (sign : Bool) (d : Decimal) : Numeral :=
  let places := (digitsOf d.digits).length - 1
  ⟨sign, d.digits / Nat.pow 10 places, padded places d.digits, some (d.exponent + places)⟩

/-- A finite number's shortest digits in the given style. -/
def ofFloat (style : NumberStyle) (x : Float) : Numeral :=
  let sign := Binary64.negative x
  if Binary64.units x = 0 then ⟨sign, 0, style.wholeFraction, none⟩
  else
    let d := Decimal.shortest style.tie x
    if style.positional ((digitsOf d.digits).length + d.exponent) then
      positional sign d style.wholeFraction
    else scientific sign d

end Numeral

namespace NumberStyle

/-- Numbers in messages and metrics are always written out in full, whole ones without a point. -/
def plain : NumberStyle := ⟨.up, fun _ => true, []⟩

/-- A number's text in messages and metrics. -/
def plainText (x : Float) : String :=
  if x.isNaN then "NaN"
  else if x.isInf then (if Binary64.negative x then "-inf" else "inf")
  else String.ofList (Numeral.ofFloat plain x).chars

end NumberStyle

end AdaptiveMtu
