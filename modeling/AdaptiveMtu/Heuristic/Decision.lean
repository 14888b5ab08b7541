/-
The decision model: a base MTU for the kind of network, and one branch on the conditions.
-/
import AdaptiveMtu.Heuristic.Conditions

namespace AdaptiveMtu

namespace Decision

/-- The MTU that a kind of network starts from. -/
def baseline : NetworkType → Nat
  | .ethernet => 1500
  | .wifi => 1400
  | .cellular => 1200
  | .satellite | .unknown => fallbackMtu

/-- A bad path takes off a fifth; an excellent one adds three tenths, up to the largest MTU allowed. -/
def adjust (bounds : MtuBounds) (c : Conditions) (mtu : Nat) : Nat :=
  if 200 < c.rtt || 0.05 < c.loss then scaleMtu mtu 0.8
  else if c.rtt < 20 && c.loss < 0.001 && 50000000 < c.throughput then
    min (scaleMtu mtu 1.3) bounds.max
  else mtu

/-- The MTU before bounding and rounding. -/
def pipeline (bounds : MtuBounds) (c : Conditions) : Nat :=
  reconcileSize (adjust bounds c (baseline c.network)) c.averageSize

/-- The MTU that the branches arrive at. -/
def predict (bounds : MtuBounds) (v : FeatureVector) : Nat :=
  bounds.finalize (pipeline bounds (Conditions.ofFeatures v))

end Decision

end AdaptiveMtu
