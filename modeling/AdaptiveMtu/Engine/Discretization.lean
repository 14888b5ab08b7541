/-
What becomes of a model's answer before it is used: it stays a whole hundred, or it moves to one of
the MTUs that links commonly have.

A common size that is out of bounds gives way to the nearest one inside them, and where none is inside to the
nearest bound.
-/
import AdaptiveMtu.Bounds
import AdaptiveMtu.Json.Value

namespace AdaptiveMtu

/-- The MTUs that links commonly have. -/
def standardMtus : List Nat := [576, 1280, 1400, 1500, 3000, 9000]

/-- The common MTU for a prediction: each has a band of numbers, and NaN counts as beyond all of them. -/
def snapToStandard (x : Float) : Nat :=
  if x < 800 then 576
  else if x < 1300 then 1280
  else if x < 1450 then 1400
  else if x < 1550 then 1500
  else if x < 4000 then 3000
  else 9000

/-- The common MTUs inside bounds. -/
def standardInside (bounds : MtuBounds) : List Nat :=
  standardMtus.filter fun s => bounds.min ≤ s && s ≤ bounds.max

/-- The MTU inside bounds that a common MTU moves to. -/
def snapWithin (bounds : MtuBounds) (snapped : Nat) : Nat :=
  if bounds.max < snapped then (standardInside bounds).getLast?.getD (bounds.clamp snapped)
  else if snapped < bounds.min then (standardInside bounds).head?.getD (bounds.clamp snapped)
  else snapped

/-- What becomes of a model's answer. -/
inductive Discretization where
  | nearestHundred
  | standardSizes
deriving DecidableEq

namespace Discretization

/-- The MTU that is used for a model's answer; common sizes go by the raw prediction if there is one. -/
def apply (d : Discretization) (bounds : MtuBounds) (mtu : Nat) (raw : Option Float) : Nat :=
  match d with
  | .nearestHundred => mtu
  | .standardSizes => snapWithin bounds (snapToStandard (raw.getD (Binary64.ofCount mtu)))

/-- The names of both ways in JSON. -/
def names : List (String × Discretization) :=
  [("nearest100", .nearestHundred), ("standard_sizes", .standardSizes)]

/-- The name of a way as a JSON value. -/
def toJson : Discretization → Json
  | .nearestHundred => .ofString "nearest100"
  | .standardSizes => .ofString "standard_sizes"

/-- The way that a JSON value names, as a text or as the only member of an object, whose value is `null`. -/
def ofJson? : Json → Option Discretization
  | .text (some name) => names.lookup name
  | .object [(some name, .null)] => names.lookup name
  | _ => none

end Discretization

end AdaptiveMtu
