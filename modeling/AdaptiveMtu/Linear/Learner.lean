/-
The linear model, which keeps learning from observed MTUs.

It remembers its most recent samples. A new sample is remembered first, and then the last samples
are replayed, oldest first, with one step of descent each. If that leaves a weight that is not finite,
the model starts again from the initial weights and says that it diverged.
-/
import AdaptiveMtu.BoundedLog
import AdaptiveMtu.Bounds
import AdaptiveMtu.Error
import AdaptiveMtu.Linear.Weights

namespace AdaptiveMtu

/-- A linear model with what it has learned and the samples it remembers. -/
structure Learner where
  weights : Weights
  rate : Float
  bounds : MtuBounds
  samples : BoundedLog (FeatureVector × Nat)

namespace Learner

/-- How many samples a model remembers. -/
def memory : Nat := 1000

/-- How many samples are replayed for each new one. -/
def replayWindow : Nat := 50

/-- The learning rate of a model that is given none. -/
def defaultRate : Float := 0.01

/-- A model with the given weights and no samples. -/
def withWeights (weights : Weights) (rate : Float) (bounds : MtuBounds) : Learner :=
  ⟨weights, rate, bounds, .empty memory⟩

/-- A model that has not learned anything. -/
def fresh (bounds : MtuBounds) : Learner := withWeights .initial defaultRate bounds

/-- The weighted sum, if it is finite. -/
def raw (m : Learner) (v : FeatureVector) : Option Float :=
  let sum := m.weights.dot v
  if sum.isFinite then some sum else none

/-- The weighted sum brought into the bounds and rounded to a whole hundred. -/
def predict (m : Learner) (v : FeatureVector) : Except Error Nat :=
  let sum := m.weights.dot v
  if sum.isFinite then
    let bounded := Binary64.clamp (Binary64.ofCount m.bounds.min) (Binary64.ofCount m.bounds.max) sum
    .ok (roundToHundred (Binary64.truncate bounded))
  else .error (.prediction (.nonFinite sum))

/-- The model with one more sample in its memory. -/
def remember (m : Learner) (v : FeatureVector) (mtu : Nat) : Learner :=
  { m with samples := m.samples.push (v, mtu) }

/-- The weights after replaying the last samples. -/
def replayed (m : Learner) : Weights :=
  m.weights.descendAll m.rate (m.samples.recent replayWindow)

/-- Learning that an MTU was the best one under the given conditions. -/
def update (m : Learner) (v : FeatureVector) (mtu : Nat) : Except Error Unit × Learner :=
  let m := m.remember v mtu
  if m.replayed.allFinite then (.ok (), { m with weights := m.replayed })
  else (.error (.prediction .diverged), { m with weights := .initial })

end Learner

end AdaptiveMtu
