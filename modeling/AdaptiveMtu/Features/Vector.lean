/-
Feature vectors: what is known of a path's condition.

Any measurement may be missing. A value that comes in as a number is first brought into its range, and a
missing one normalizes to zero, which is where its mean would normalize to.

As JSON, a vector is an object from keys to numbers. Reading is strict about types, also for keys that name no
measurement, and otherwise passes over what it does not know. Writing lists the known measurements by key, each
as a number with a fraction.
-/
import AdaptiveMtu.Features.Field
import AdaptiveMtu.Features.Network
import AdaptiveMtu.Json.Access

namespace AdaptiveMtu

/-- The measurements of a path, as far as they are known. -/
structure FeatureVector where
  /-- Round-trip time in milliseconds. -/
  rtt : Option Float
  /-- Throughput in bits per second. -/
  throughput : Option Float
  /-- Share of packets lost, from zero to one. -/
  loss : Option Float
  /-- Congestion window in packets. -/
  congestionWindow : Option Nat
  /-- Average packet size in bytes. -/
  averageSize : Option Nat
  /-- Standard deviation of packet sizes. -/
  sizeDeviation : Option Float
  network : Option NetworkType
  /-- Local hour of the day, from zero up to twenty-four. -/
  timeOfDay : Option Float

namespace FeatureVector

/-- Nothing is known. -/
def empty : FeatureVector := ⟨none, none, none, none, none, none, none, none⟩

/-! ### Single measurements -/

/-- The vector with a measurement set from a number, which is brought into range first. -/
def set (v : FeatureVector) (field : Field) (x : Float) : FeatureVector :=
  match field with
  | .rtt => { v with rtt := some (Binary64.atLeastZero x) }
  | .throughput => { v with throughput := some (Binary64.atLeastZero x) }
  | .loss => { v with loss := some (Binary64.clamp 0 1 x) }
  | .congestionWindow => { v with congestionWindow := some (Binary64.nearestCount x) }
  | .averageSize => { v with averageSize := some (Binary64.nearestCount x) }
  | .sizeDeviation => { v with sizeDeviation := some (Binary64.atLeastZero x) }
  | .network => { v with network := some (NetworkType.ofCode x) }
  | .timeOfDay => { v with timeOfDay := some (Binary64.wrapDay x) }

/-- A measurement as a number, if it is known. -/
def get? (v : FeatureVector) : Field → Option Float
  | .rtt => v.rtt
  | .throughput => v.throughput
  | .loss => v.loss
  | .congestionWindow => v.congestionWindow.map Binary64.ofCount
  | .averageSize => v.averageSize.map Binary64.ofCount
  | .sizeDeviation => v.sizeDeviation
  | .network => v.network.map fun n => Binary64.ofCount n.code
  | .timeOfDay => v.timeOfDay

/-- A measurement as a number, or its mean if it is missing. -/
def valueOrMean (v : FeatureVector) (field : Field) : Float := (v.get? field).getD field.mean

/-- The kind of network, unknown if it is missing. -/
def networkType (v : FeatureVector) : NetworkType := v.network.getD .unknown

/-- The vector with a congestion window, which is a count already. -/
def withCongestionWindow (v : FeatureVector) (packets : Nat) : FeatureVector :=
  { v with congestionWindow := some packets }

/-- The vector with an average packet size, which is a count already. -/
def withAverageSize (v : FeatureVector) (bytes : Nat) : FeatureVector :=
  { v with averageSize := some bytes }

/-- The vector with a kind of network. -/
def withNetwork (v : FeatureVector) (network : NetworkType) : FeatureVector :=
  { v with network := some network }

/-! ### Sparse maps -/

/-- One entry of a sparse map: an unknown key or a number that is not finite is passed over. -/
def addEntry (v : FeatureVector) (entry : String × Float) : FeatureVector :=
  match Field.ofKey? entry.1 with
  | some field => if entry.2.isFinite then v.set field entry.2 else v
  | none => v

/-- The vector of a sparse map; of several entries for one measurement the last one counts. -/
def ofEntries (entries : List (String × Float)) : FeatureVector := entries.foldl addEntry empty

/-- The known measurements under their keys, in the order of the given fields. -/
def entriesIn (order : List Field) (v : FeatureVector) : List (String × Float) :=
  order.filterMap fun field => (v.get? field).map fun x => (field.key, x)

/-- The known measurements under their keys, in alphabetical order. -/
def toEntries (v : FeatureVector) : List (String × Float) := entriesIn Field.alphabetical v

/-! ### Normalization -/

/-- How many standard deviations a measurement is away from its mean; zero if it is missing. -/
def normalizedValue (v : FeatureVector) (field : Field) : Float :=
  match v.get? field with
  | some x => (x - field.mean) / field.deviation
  | none => 0

/-- The eight normalized measurements. -/
def normalized (v : FeatureVector) : List Float := Field.all.map v.normalizedValue

@[simp] theorem length_normalized (v : FeatureVector) : v.normalized.length = 8 := rfl

/-! ### JSON -/

/-- The object of the known measurements. -/
def toJson (v : FeatureVector) : Json :=
  Json.ofMembers (v.toEntries.map fun e => (e.1, Json.ofFloat e.2))

/-- The entries of an object whose values are all numbers. -/
def entriesOf? : Json → Option (List (String × Float))
  | .object members => do
    (← Json.namedMembers? members).mapM fun m => m.2.toFloat?.map fun x => (m.1, x)
  | _ => none

/-- The vector that an object of numbers describes. -/
def ofJson? (v : Json) : Option FeatureVector := (entriesOf? v).map ofEntries

end FeatureVector

end AdaptiveMtu
