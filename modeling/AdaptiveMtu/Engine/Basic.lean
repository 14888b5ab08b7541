/-
The prediction engine: an override, a model, bounds and a history in one place.

A prediction never fails. The override answers first; else the model does, and its answer is brought into
bounds; else the last answer of the model that was good, and before there is one the default. Every
prediction leaves exactly one record. What a model has learned changes by `update` alone, and predictions
are never fed back to it.
-/
import AdaptiveMtu.Config.Basic
import AdaptiveMtu.Engine.Metrics
import AdaptiveMtu.Engine.Record
import AdaptiveMtu.Model.Build

namespace AdaptiveMtu

/-! ### The operator's override -/

/-- Whether an MTU is prescribed, and which. -/
inductive OverrideGate where
  | disabled
  | fixed (mtu : Nat)
deriving DecidableEq

namespace OverrideGate

/-- The gate for an optional MTU; any MTU may be prescribed, also one no model would answer. -/
def ofOption : Option Nat → OverrideGate
  | none => .disabled
  | some mtu => .fixed mtu

/-- The prescribed MTU. -/
def value : OverrideGate → Option Nat
  | .disabled => none
  | .fixed mtu => some mtu

@[simp] theorem value_ofOption (mtu : Option Nat) : (ofOption mtu).value = mtu := by
  cases mtu <;> rfl

end OverrideGate

/-! ### Engines -/

/-- When a prediction was made and how long its model took. -/
structure Timing where
  /-- Seconds since the beginning of 1970. -/
  timestamp : Float
  inferenceMs : Float

/-- An answer of the engine. -/
structure Prediction where
  mtu : Nat
  raw : Option Float
  /-- How long the model took; zero for an override. -/
  inferenceMs : Float
  isOverride : Bool

/-- What an engine shows of itself. -/
structure EngineStatus where
  override : Option Nat
  modelType : String
  degraded : Bool
  historySize : Nat
  lastRecord : Option Record

/-- A prediction engine around a model of type `σ`. -/
structure Engine (σ : Type) where
  model : σ
  gate : OverrideGate
  history : History
  /-- The last MTU that the model answered, brought into bounds. -/
  lastGood : Option Nat
  bounds : MtuBounds
  defaultMtu : Nat
  discretization : Discretization
  metrics : Metrics

namespace Engine

variable {σ : Type}

/-- The engine around a given model, with the numbers of a configuration repaired if need be. Whether it can
be made is for `create` to say. -/
def withModel (config : EngineConfig) (model : σ) : Engine σ where
  model := model
  gate := .ofOption config.initialOverride
  history := .empty config.historyCapacity
  lastGood := none
  bounds := config.bounds
  defaultMtu := config.bounds.clamp config.defaultMtu
  discretization := config.discretization
  metrics := .empty

/-- The engine with the model that its configuration asks for. -/
def ofConfig {χ : Type} (read : TextReader) (config : EngineConfig) : Engine (Model χ) :=
  withModel config (Model.build read config.bounds config.model)

/-- Making an engine around a given model, which takes the memory for its history. -/
def create (memory : Memory) (config : EngineConfig) (model : σ) : Except Abort (Engine σ) := do
  let history ← History.create memory config.historyCapacity
  return { withModel config model with history }

/-- Making an engine with the model that its configuration asks for. -/
def createFrom {χ : Type} (memory : Memory) (read : TextReader) (config : EngineConfig) :
    Except Abort (Engine (Model χ)) :=
  create memory config (Model.build read config.bounds config.model)

/-! ### Predicting -/

/-- The answer of an override. -/
def overridePrediction (mtu : Nat) : Prediction := ⟨mtu, none, 0, true⟩

/-- The engine after the override answered. -/
def serveOverride (e : Engine σ) (v : FeatureVector) (timing : Timing) (mtu : Nat) : Engine σ :=
  { e with
    history := e.history.push ⟨timing.timestamp, v, mtu, none, true, none⟩
    metrics := e.metrics.observeOverride mtu }

/-- The MTU that a model's answer comes to. -/
def settle (e : Engine σ) (mtu : Nat) (raw : Option Float) : Nat :=
  e.bounds.clamp (e.discretization.apply e.bounds mtu raw)

/-- The MTU that is served when the model fails. -/
def fallback (e : Engine σ) : Nat := e.lastGood.getD e.defaultMtu

/-- The engine after an answer that the model was asked for. -/
def serveModel (e : Engine σ) (v : FeatureVector) (timing : Timing) (mtu : Nat)
    (raw : Option Float) : Engine σ :=
  { e with
    history :=
      e.history.push ⟨timing.timestamp, v, mtu, raw, false, some timing.inferenceMs⟩
    metrics := e.metrics.observePrediction mtu timing.inferenceMs }

/-- What a model answers: an MTU with its raw prediction, for which it is asked only after a success. -/
def askModel [Predictor σ] (model : σ) (v : FeatureVector) :
    Except Error (Nat × Option Float) × σ :=
  match Predictor.predict model v with
  | (.error e, next) => (.error e, next)
  | (.ok mtu, next) =>
    let (raw, next) := Predictor.raw next v
    (.ok (mtu, raw), next)

/-- The MTU for the given conditions, and the engine afterwards. -/
def predict [Predictor σ] (e : Engine σ) (v : FeatureVector) (timing : Timing) :
    Prediction × Engine σ :=
  match e.gate with
  | .fixed mtu => (overridePrediction mtu, e.serveOverride v timing mtu)
  | .disabled =>
    match askModel e.model v with
    | (.ok (answer, raw), model) =>
      let mtu := e.settle answer raw
      (⟨mtu, raw, timing.inferenceMs, false⟩,
        { e with model := model, lastGood := some mtu }.serveModel v timing mtu raw)
    | (.error _, model) =>
      let mtu := e.fallback
      (⟨mtu, none, timing.inferenceMs, false⟩,
        { e with model := model, metrics := e.metrics.observeFallback }.serveModel v timing mtu none)

/-! ### Learning and the override -/

/-- Teaching the model that an MTU was the best one under the given conditions. -/
def update [Predictor σ] (e : Engine σ) (v : FeatureVector) (mtu : Nat) :
    Except Error Unit × Engine σ :=
  if mtu < smallestMtu || largestMtu < mtu then (.error (.argument (.observedOutside mtu)), e)
  else
    match Predictor.update e.model v mtu with
    | (.ok (), model) => (.ok (), { e with model := model, metrics := e.metrics.observeUpdate })
    | (.error fault, model) => (.error fault, { e with model := model })

/-- The engine with another override, or with none. -/
def setOverride (e : Engine σ) (mtu : Option Nat) : Engine σ := { e with gate := .ofOption mtu }

/-! ### What an engine shows -/

/-- What the engine shows of itself. -/
def status [Predictor σ] (e : Engine σ) : EngineStatus where
  override := e.gate.value
  modelType := Predictor.typeName e.model
  degraded := Predictor.isDegraded e.model
  historySize := e.history.size
  lastRecord := e.history.last?

/-- The metrics together with the kind of model and the override. -/
def metricsSnapshot [Predictor σ] (e : Engine σ) : List (String × MetricValue) :=
  e.metrics.snapshot
  ++ [("ml.model_type", .text (Predictor.typeName e.model)),
      ("ml.override", .text (e.gate.value.elim "disabled" toString))]

/-- Writing the history to a file: how many records it has, and the directory afterwards. -/
def exportHistory (e : Engine σ) (d : Directory) (path : String) : Except Error (Nat × Directory) :=
  e.history.writeTo d path

end Engine

end AdaptiveMtu
