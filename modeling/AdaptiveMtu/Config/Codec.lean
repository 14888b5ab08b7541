/-
Configurations as JSON, and reading one from a file.

A structure may leave out any field; what it leaves out takes its default.
-/
import AdaptiveMtu.Config.Basic
import AdaptiveMtu.Json.Reader
import AdaptiveMtu.Model.KindCodec

namespace AdaptiveMtu

namespace EngineConfig

/-- The fields of a configuration, in the order in which they are written. -/
def fieldNames : List String :=
  ["model", "min_mtu", "max_mtu", "default_mtu", "history_capacity", "prediction_interval_ms",
    "discretization", "initial_override"]

/-- The JSON value of a configuration. -/
def toJson (c : EngineConfig) : Json :=
  Json.ofMembers
    [("model", c.model.toJson),
      ("min_mtu", .ofNat c.minMtu),
      ("max_mtu", .ofNat c.maxMtu),
      ("default_mtu", .ofNat c.defaultMtu),
      ("history_capacity", .ofNat c.historyCapacity),
      ("prediction_interval_ms", .ofNat c.intervalMs),
      ("discretization", c.discretization.toJson),
      ("initial_override", Json.ofOption Json.ofNat c.initialOverride)]

/-- The configuration that a JSON value describes. -/
def ofJson? (v : Json) : Option EngineConfig := do
  let fields ← v.fields? fieldNames
  let model ← Json.withDefault fields "model" (ModelKind.ofJson? 1) standard.model
  let minMtu ← Json.withDefault fields "min_mtu" Json.toCount? standard.minMtu
  let maxMtu ← Json.withDefault fields "max_mtu" Json.toCount? standard.maxMtu
  let defaultMtu ← Json.withDefault fields "default_mtu" Json.toCount? standard.defaultMtu
  let historyCapacity ←
    Json.withDefault fields "history_capacity" Json.toCount? standard.historyCapacity
  let intervalMs ← Json.withDefault fields "prediction_interval_ms" Json.toCount? standard.intervalMs
  let discretization ←
    Json.withDefault fields "discretization" Discretization.ofJson? standard.discretization
  let initialOverride ← Json.withDefault fields "initial_override"
    (Json.optional (Json.toNat? wordLimit)) standard.initialOverride
  return { model, minMtu, maxMtu, defaultMtu, historyCapacity, intervalMs, discretization,
           initialOverride }

/-- The configuration that a text spells. -/
def parse? (text : String) : Option EngineConfig := (Json.read? text).bind ofJson?

/-- The configuration in the file at a path, which has to be acceptable. -/
def load (read : TextReader) (path : String) : Except Error EngineConfig := do
  let text ← (read path).mapError Error.file
  match parse? text with
  | none => .error .json
  | some config =>
    config.validate.mapError Error.config
    return config

end EngineConfig

end AdaptiveMtu
