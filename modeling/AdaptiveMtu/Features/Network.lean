/-
Kinds of network, their names and their numeric codes.
-/
import AdaptiveMtu.Binary64.Whole

namespace AdaptiveMtu

/-- The kind of network that a path runs over. -/
inductive NetworkType where
  | unknown
  | ethernet
  | wifi
  | cellular
  | satellite
deriving DecidableEq, Repr

namespace NetworkType

/-- The code of a kind of network in feature maps. -/
def code : NetworkType → Nat
  | .unknown => 0
  | .ethernet => 1
  | .wifi => 2
  | .cellular => 3
  | .satellite => 4

/-- The kind of network that a number is nearest to the code of; a number near no code is unknown. -/
def ofCode (x : Float) : NetworkType :=
  match Binary64.nearestCount x with
  | 1 => .ethernet
  | 2 => .wifi
  | 3 => .cellular
  | 4 => .satellite
  | _ => .unknown

/-- The name of a kind of network. -/
def name : NetworkType → String
  | .unknown => "unknown"
  | .ethernet => "ethernet"
  | .wifi => "wifi"
  | .cellular => "cellular"
  | .satellite => "satellite"

end NetworkType

end AdaptiveMtu
