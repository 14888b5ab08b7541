/-
Weights of a linear model, its inputs, and the two computations on them.

A model has nine weights: one for a constant input of one, then one for each normalized measurement.
The weighted sum adds its products from left to right; a sum of nothing but negative zeros is a negative
zero, which is why it starts from one.
-/
import AdaptiveMtu.Features.Vector

namespace AdaptiveMtu

/-- The nine weights of a linear model. -/
structure Weights where
  toList : List Float
  length_eq : toList.length = 9

/-- The nine inputs of a linear model: one, and the normalized measurements. -/
def FeatureVector.inputs (v : FeatureVector) : List Float := 1 :: v.normalized

@[simp] theorem FeatureVector.length_inputs (v : FeatureVector) : v.inputs.length = 9 := rfl

namespace Weights

/-- The weights of a model that has not learned anything. -/
def initial : Weights := ⟨[1200, -100, 50, -200, 30, 0.8, -20, 0, 0], rfl⟩

/-- The weights of a list of nine. -/
def ofList? (ws : List Float) : Option Weights :=
  if h : ws.length = 9 then some ⟨ws, h⟩ else none

/-- Whether all weights are finite. -/
def allFinite (w : Weights) : Bool := w.toList.all Float.isFinite

/-- The weighted sum of a vector's inputs. -/
def dot (w : Weights) (v : FeatureVector) : Float :=
  (List.zipWith (· * ·) w.toList v.inputs).foldl (· + ·) (-0.0)

/-- One step down the gradient of the squared error of a sample. -/
def descend (rate : Float) (w : Weights) (sample : FeatureVector × Nat) : Weights :=
  let error := Binary64.ofCount sample.2 - w.dot sample.1
  ⟨List.zipWith (fun weight x => weight + rate * error * x) w.toList sample.1.inputs, by
    simp [w.length_eq]⟩

/-- One step for each sample, in order. -/
def descendAll (rate : Float) (w : Weights) (samples : List (FeatureVector × Nat)) : Weights :=
  samples.foldl (descend rate) w

end Weights

end AdaptiveMtu
