/-
Metrics in the Prometheus text format.

Families stand in the order of their names. Each begins with its help and its type and then lists its
samples, one to a line; a histogram lists its cumulative buckets, the sum and the count.
-/
import AdaptiveMtu.Decimal.Numeral
import AdaptiveMtu.Engine.Metrics

namespace AdaptiveMtu

namespace Metrics

/-- The value of a family. -/
inductive FamilyValue where
  | counter (n : Nat)
  | gauge (z : Int)
  | histogram (h : Histogram)

/-- A named group of samples. -/
structure Family where
  name : String
  help : String
  value : FamilyValue

/-- One line. -/
def line (text : String) : String := text ++ "\n"

/-- The type of a family. -/
def FamilyValue.typeName : FamilyValue → String
  | .counter _ => "counter"
  | .gauge _ => "gauge"
  | .histogram _ => "histogram"

/-- A line of a histogram's buckets. -/
def bucketLine (name bound : String) (n : Nat) : String :=
  line (name ++ "_bucket\x7ble=\"" ++ bound ++ "\"\x7d " ++ toString n)

/-- The samples of a family. -/
def Family.samples (f : Family) : List String :=
  match f.value with
  | .counter n => [line (f.name ++ " " ++ NumberStyle.plainText (Binary64.ofCount n))]
  | .gauge z => [line (f.name ++ " " ++ NumberStyle.plainText (signedValue z))]
  | .histogram h =>
    (Histogram.cumulative 0 h.buckets).map (fun b =>
      bucketLine f.name (NumberStyle.plainText b.1) b.2)
    ++ [bucketLine f.name "+Inf" h.count,
        line (f.name ++ "_sum " ++ NumberStyle.plainText h.sum),
        line (f.name ++ "_count " ++ toString h.count)]

/-- The text of a family. -/
def Family.text (f : Family) : String :=
  String.join <|
    line ("# HELP " ++ f.name ++ " " ++ f.help)
      :: line ("# TYPE " ++ f.name ++ " " ++ f.value.typeName)
      :: f.samples

/-- The families of an engine's metrics, in the order of their names. -/
def families (m : Metrics) : List Family :=
  [⟨"udcn_ml_prediction_seconds", "Time spent making MTU predictions", .histogram m.times⟩,
    ⟨"udcn_mtu_fallback_predictions_total",
      "MTU predictions that fell back after a model failure", .counter m.fallbacks⟩,
    ⟨"udcn_mtu_model_updates_total", "Observed optimal MTUs fed back to the model",
      .counter m.updates⟩,
    ⟨"udcn_mtu_override_predictions_total", "MTU predictions answered by the operator override",
      .counter m.overrides⟩,
    ⟨"udcn_mtu_prediction", "Most recently predicted MTU", .gauge m.served⟩,
    ⟨"udcn_mtu_predictions_total", "MTU predictions served, including overrides",
      .counter m.predictions⟩]

/-- The text exposition. -/
def exposition (m : Metrics) : String := String.join (m.families.map Family.text)

end Metrics

end AdaptiveMtu
