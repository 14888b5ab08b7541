/-
The rule model: a base MTU scaled by one rule after the other.

Each rule works on what the rules before it have left, so their order matters; bounding and rounding come
last.
-/
import AdaptiveMtu.Heuristic.Conditions

namespace AdaptiveMtu

namespace Rules

/-- A slow or lossy path takes off a tenth. -/
def easeOff (c : Conditions) (mtu : Nat) : Nat :=
  if 100 < c.rtt || 0.01 < c.loss then scaleMtu mtu 0.9 else mtu

/-- A very slow or very lossy path takes off another tenth. -/
def easeOffFurther (c : Conditions) (mtu : Nat) : Nat :=
  if 200 < c.rtt || 0.05 < c.loss then scaleMtu mtu 0.9 else mtu

/-- A fast and clean path adds a tenth. -/
def speedUp (c : Conditions) (mtu : Nat) : Nat :=
  if 5000000 < c.throughput && c.loss < 0.005 then scaleMtu mtu 1.1 else mtu

/-- Wireless networks take off their share. -/
def forNetwork (network : NetworkType) (mtu : Nat) : Nat :=
  match network with
  | .wifi => scaleMtu mtu 0.95
  | .cellular => scaleMtu mtu 0.85
  | .ethernet | .satellite | .unknown => mtu

/-- The base after all rules. -/
def pipeline (base : Nat) (c : Conditions) : Nat :=
  forNetwork c.network
    (reconcileSize (speedUp c (easeOffFurther c (easeOff c base))) c.averageSize)

/-- The MTU that the rules arrive at. -/
def predict (base : Nat) (bounds : MtuBounds) (v : FeatureVector) : Nat :=
  bounds.finalize (pipeline base (Conditions.ofFeatures v))

end Rules

end AdaptiveMtu
