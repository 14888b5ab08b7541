/-
The fewest decimal digits that read back to a binary64 number.

A decimal reads back to `x` when it lies in the interval of reals that round to `x`: half a spacing
to each side, its ends included when the significand is even. On the grid of multiples of a power
of ten, only the two grid points next to `x` need a look, since any grid point in the interval has one of
them between itself and `x`. Going from coarse grids to fine ones, the first grid with a hit has the
fewest digits; of two hits the nearer one wins, and a tie is settled by the caller's rule.
-/
import AdaptiveMtu.Binary64.Parts

namespace AdaptiveMtu

/-- The decimal `digits · 10 ^ exponent`. -/
structure Decimal where
  digits : Nat
  exponent : Int
deriving DecidableEq, Repr

/-- Which of two equally near decimals is taken. -/
inductive Tie where
  | toEven
  | up
deriving DecidableEq, Repr

namespace Decimal

open Binary64

/-! ### One grid

Lengths are measured in quarter units, so that half a spacing is whole even below a power of two,
where the spacing is half of what it is above.
-/

/-- How far below `x` its rounding interval reaches, in quarter units. -/
def reachBelow (x : Float) : Nat :=
  if fractionField x = 0 && 1 < exponentField x then Nat.pow 2 (lift x) else 2 * Nat.pow 2 (lift x)

/-- How far above `x` its rounding interval reaches, in quarter units. -/
def reachAbove (x : Float) : Nat := 2 * Nat.pow 2 (lift x)

/-- Whether a point `gap` away from `x` is within `reach`, the end counting for even significands. -/
def within (x : Float) (gap reach : Nat) : Bool :=
  if significand x % 2 = 0 then gap ≤ reach else gap < reach

/-- The multiple of `10 ^ exponent` that reads back to `x` and is nearest to it, if there is one. -/
def onGrid? (tie : Tie) (x : Float) (exponent : Int) : Option Nat :=
  let scale := Nat.pow 10 (-exponent).toNat
  let step := 4 * unitsPerOne * Nat.pow 10 exponent.toNat
  let value := 4 * units x * scale
  let below := value / step
  let gapBelow := value - below * step
  let gapAbove := (below + 1) * step - value
  let hitBelow := within x gapBelow (reachBelow x * scale)
  let hitAbove := within x gapAbove (reachAbove x * scale)
  match hitBelow, hitAbove with
  | false, false => none
  | true, false => some below
  | false, true => some (below + 1)
  | true, true =>
    if gapBelow < gapAbove then some below
    else if gapAbove < gapBelow then some (below + 1)
    else match tie with
      | .up => some (below + 1)
      | .toEven => some (below + below % 2)

/-! ### From coarse grids to fine ones -/

/-- A power of ten above every finite `x`: the bit length times a little more than the common
logarithm of two, rounded up. -/
def topExponent (x : Float) : Int :=
  (((units x).log2 + 1 : Int) - 1074) * 30103 / 100000 + 2

/-- How many grids are tried: seventeen digits are always enough, and the first few grids may lie
above the number. -/
def gridCount : Nat := 24

/-- The grids in the order in which they are tried. -/
def grids (x : Float) : List Int :=
  (List.range gridCount).map fun (i : Nat) => topExponent x - i

/-- The shortest decimal that reads back to a finite nonzero `x`, its sign left aside. -/
def shortest (tie : Tie) (x : Float) : Decimal :=
  ((grids x).findSome? fun e => (onGrid? tie x e).map fun digits => ⟨digits, e⟩).getD ⟨0, 0⟩

end Decimal

end AdaptiveMtu
