/-
What an engine counts and measures.

Four counters only grow; a gauge holds the MTU that was served last; a histogram of model times
has a bucket for each of eight bounds, and a time counts in the first bucket whose bound it does not
exceed. Times beyond all bounds, and NaN, count in the total alone.
-/
import AdaptiveMtu.Binary64.Whole

namespace AdaptiveMtu

/-- How often times fell between bounds, their sum and their number. -/
structure Histogram where
  /-- Each bound, in seconds, with the number of times in its bucket. -/
  buckets : List (Float × Nat)
  sum : Float
  count : Nat

namespace Histogram

/-- Nothing measured yet; the bounds run from a microsecond to five milliseconds. -/
def empty : Histogram :=
  ⟨[0.000001, 0.000005, 0.00001, 0.00005, 0.0001, 0.0005, 0.001, 0.005].map fun b => (b, 0), 0, 0⟩

/-- The buckets after a time was put into the first one that holds it. -/
def place (x : Float) : List (Float × Nat) → List (Float × Nat)
  | [] => []
  | (bound, n) :: rest =>
    if x ≤ bound then (bound, n + 1) :: rest else (bound, n) :: place x rest

/-- The histogram after measuring a time. -/
def observe (h : Histogram) (x : Float) : Histogram :=
  ⟨place x h.buckets, h.sum + x, h.count + 1⟩

/-- Each bound with the number of times that do not exceed it, on top of `below` earlier ones. -/
def cumulative (below : Nat) : List (Float × Nat) → List (Float × Nat)
  | [] => []
  | (bound, n) :: rest => (bound, below + n) :: cumulative (below + n) rest

/-- The mean time, once there is one. -/
def mean? (h : Histogram) : Option Float :=
  if h.count = 0 then none else some (h.sum / Binary64.ofCount h.count)

end Histogram

/-- The counters and measurements of an engine. -/
structure Metrics where
  predictions : Nat
  overrides : Nat
  fallbacks : Nat
  updates : Nat
  /-- The MTU that was served last, as a signed count. -/
  served : Int
  times : Histogram

/-- A measured value in a snapshot. -/
inductive MetricValue where
  | counter (n : Nat)
  | gauge (x : Float)
  | text (s : String)

namespace Metrics

/-- Nothing counted yet. -/
def empty : Metrics := ⟨0, 0, 0, 0, 0, .empty⟩

/-- A count as a signed one of the same sixty-four bits. -/
def signed (n : Nat) : Int := (n : Int).bmod (largestCount + 1)

/-- A signed count as a number. -/
def signedValue (z : Int) : Float :=
  if z < 0 then -Binary64.ofCount z.natAbs else Binary64.ofCount z.natAbs

/-- After a model's prediction that took the given time. -/
def observePrediction (m : Metrics) (mtu : Nat) (inferenceMs : Float) : Metrics :=
  { m with
    predictions := m.predictions + 1
    served := signed mtu
    times := m.times.observe (inferenceMs / 1000) }

/-- After a prediction that the override answered. -/
def observeOverride (m : Metrics) (mtu : Nat) : Metrics :=
  { m with predictions := m.predictions + 1, overrides := m.overrides + 1, served := signed mtu }

/-- After a model failed and something else was served. -/
def observeFallback (m : Metrics) : Metrics := { m with fallbacks := m.fallbacks + 1 }

/-- After a model learned. -/
def observeUpdate (m : Metrics) : Metrics := { m with updates := m.updates + 1 }

/-- All values by name; the mean time in milliseconds is there once a time was measured. -/
def snapshot (m : Metrics) : List (String × MetricValue) :=
  [("ml.predictions", .counter m.predictions),
    ("ml.overrides", .counter m.overrides),
    ("ml.fallbacks", .counter m.fallbacks),
    ("ml.updates", .counter m.updates),
    ("ml.predicted_mtu", .gauge (signedValue m.served))]
  ++ (m.times.mean?.map fun s => ("ml.avg_inference_ms", .gauge (s * 1000))).toList

end Metrics

end AdaptiveMtu
