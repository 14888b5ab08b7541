/-
What the heuristic models look at, and the two steps they share: scaling an MTU by a factor and
reconciling it with the observed packet size.
-/
import AdaptiveMtu.Bounds
import AdaptiveMtu.Features.Vector

namespace AdaptiveMtu

/-- The conditions of a path as the heuristics see them: a missing measurement is at its mean. -/
structure Conditions where
  rtt : Float
  loss : Float
  throughput : Float
  averageSize : Nat
  network : NetworkType

/-- The conditions that a feature vector describes. -/
def Conditions.ofFeatures (v : FeatureVector) : Conditions where
  rtt := v.valueOrMean .rtt
  loss := v.valueOrMean .loss
  throughput := v.valueOrMean .throughput
  averageSize := Binary64.truncate (v.valueOrMean .averageSize)
  network := v.networkType

/-- An MTU times a factor, cut down to whole bytes. -/
def scaleMtu (mtu : Nat) (factor : Float) : Nat :=
  Binary64.truncate (Binary64.ofCount mtu * factor)

/-- An MTU below the average packet size grows by a twentieth, but not beyond that size and a hundred
bytes; one above twice the size shrinks by a twentieth. -/
def reconcileSize (mtu averageSize : Nat) : Nat :=
  if mtu < averageSize then min (scaleMtu mtu 1.05) (min (averageSize + 100) largestCount)
  else if averageSize < mtu / 2 then scaleMtu mtu 0.95
  else mtu

end AdaptiveMtu
