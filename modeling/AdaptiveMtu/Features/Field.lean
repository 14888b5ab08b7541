/-
The eight measurements that describe a path, in the order in which models see them.

Each has a key, in some cases a second spelling of it, and a fixed mean and standard deviation, which
are never estimated from data.
-/
namespace AdaptiveMtu

/-- A measurement of a path. -/
inductive Field where
  | rtt
  | throughput
  | loss
  | congestionWindow
  | averageSize
  | sizeDeviation
  | network
  | timeOfDay
deriving DecidableEq, Repr

namespace Field

/-- All measurements, in the order of a normalized vector. -/
def all : List Field :=
  [.rtt, .throughput, .loss, .congestionWindow, .averageSize, .sizeDeviation, .network, .timeOfDay]

/-- All measurements, in the alphabetical order of their keys. -/
def alphabetical : List Field :=
  [.averageSize, .congestionWindow, .loss, .network, .sizeDeviation, .rtt, .throughput, .timeOfDay]

/-- The key of a measurement in feature maps. -/
def key : Field → String
  | .rtt => "rtt_ms"
  | .throughput => "throughput_bps"
  | .loss => "loss_rate"
  | .congestionWindow => "congestion_window"
  | .averageSize => "avg_packet_size"
  | .sizeDeviation => "packet_size_stddev"
  | .network => "network_type"
  | .timeOfDay => "time_of_day"

/-- A further spelling of the key. -/
def alias? : Field → Option String
  | .rtt => some "avg_rtt_ms"
  | .throughput => some "avg_throughput_bps"
  | .loss => some "packet_loss_rate"
  | _ => none

/-- The measurement that a key names in either spelling. -/
def ofKey? (key : String) : Option Field :=
  all.find? fun f => f.key = key || f.alias? = some key

/-- The mean that a measurement is normalized by, and that stands for it when it is missing. -/
def mean : Field → Float
  | .rtt => 50
  | .throughput => 5000000
  | .loss => 0.01
  | .congestionWindow => 10
  | .averageSize => 1200
  | .sizeDeviation => 200
  | .network => 1.5
  | .timeOfDay => 12

/-- The standard deviation that a measurement is normalized by. -/
def deviation : Field → Float
  | .rtt => 30
  | .throughput => 3000000
  | .loss => 0.02
  | .congestionWindow => 5
  | .averageSize => 500
  | .sizeDeviation => 100
  | .network => 1
  | .timeOfDay => 7

end Field

end AdaptiveMtu
