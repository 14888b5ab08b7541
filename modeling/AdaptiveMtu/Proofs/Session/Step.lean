/-
What one call does to an engine.

Only a prediction touches the history and the last good answer, and it does so in one of three ways,
which `predict_asks` and `predict_cases` list: the override answers, the model answers, or the model fails.  Every other
call keeps both (`step_keeps`), only setting the override moves the gate (`gate_step`), and nothing ever
moves the bounds, the default or the discretization.  Invariants of runs are read off these lemmas; no
call is taken apart a second time.
-/
import AdaptiveMtu.Proofs.Session.Run

namespace AdaptiveMtu

/-- The conditions that a call asks a prediction for, and its timing. -/
def Call.asked? : Call → Option (FeatureVector × Timing)
  | .predict v timing => some (v, timing)
  | _ => none

namespace Engine

variable {σ : Type}

/-- What only predictions may change is the same in two engines. -/
structure KeepsLog (e e' : Engine σ) : Prop where
  history : e'.history = e.history
  lastGood : e'.lastGood = e.lastGood

/-- What no call may change is the same in two engines. -/
structure KeepsSetup (e e' : Engine σ) : Prop where
  bounds : e'.bounds = e.bounds
  defaultMtu : e'.defaultMtu = e.defaultMtu
  discretization : e'.discretization = e.discretization

theorem settle_mem (e : Engine σ) (mtu : Nat) (raw : Option Float) :
    e.bounds.min ≤ e.settle mtu raw ∧ e.settle mtu raw ≤ e.bounds.max :=
  ⟨low_le_clampNat e.bounds.min_le_max _, clampNat_le_high e.bounds.min_le_max _⟩

variable [Predictor σ]

/-- What comes of asking a model is what it predicts, with its raw prediction added. -/
theorem map_fst_askModel (m : σ) (v : FeatureVector) :
    (askModel m v).1.map Prod.fst = (Predictor.predict m v).1 := by
  rw [askModel]
  rcases Predictor.predict m v with ⟨answer, next⟩
  cases answer <;> rfl

/-- A prediction is answered by the override, or by what comes of asking the model. -/
theorem predict_asks (e : Engine σ) (v : FeatureVector) (timing : Timing) :
    (∃ mtu, e.gate.value = some mtu ∧
      e.predict v timing = (overridePrediction mtu, e.serveOverride v timing mtu)) ∨
    (∃ answer raw next, e.gate.value = none ∧ askModel e.model v = (.ok (answer, raw), next) ∧
      e.predict v timing = (⟨e.settle answer raw, raw, timing.inferenceMs, false⟩,
        { e with model := next, lastGood := some (e.settle answer raw) }.serveModel v timing
          (e.settle answer raw) raw)) ∨
    (∃ fault next, e.gate.value = none ∧ askModel e.model v = (.error fault, next) ∧
      e.predict v timing = (⟨e.fallback, none, timing.inferenceMs, false⟩,
        { e with model := next, metrics := e.metrics.observeFallback }.serveModel v timing
          e.fallback none)) := by
  cases hgate : e.gate with
  | fixed mtu =>
      refine Or.inl ⟨mtu, rfl, ?_⟩
      simp only [predict, hgate]
  | disabled =>
      refine Or.inr ?_
      rcases hask : askModel e.model v with ⟨outcome, next⟩
      cases outcome with
      | ok outcome =>
          refine Or.inl ⟨outcome.1, outcome.2, next, rfl, rfl, ?_⟩
          simp only [predict, hgate, hask]
      | error fault =>
          refine Or.inr ⟨fault, next, rfl, rfl, ?_⟩
          simp only [predict, hgate, hask]

/-- A prediction is answered by the override, by the model, or in place of a model that failed. -/
theorem predict_cases (e : Engine σ) (v : FeatureVector) (timing : Timing) :
    (∃ mtu, e.gate.value = some mtu ∧
      e.predict v timing = (overridePrediction mtu, e.serveOverride v timing mtu)) ∨
    (∃ answer raw next, e.gate.value = none ∧ (Predictor.predict e.model v).1 = .ok answer ∧
      e.predict v timing = (⟨e.settle answer raw, raw, timing.inferenceMs, false⟩,
        { e with model := next, lastGood := some (e.settle answer raw) }.serveModel v timing
          (e.settle answer raw) raw)) ∨
    (∃ fault next, e.gate.value = none ∧ (Predictor.predict e.model v).1 = .error fault ∧
      e.predict v timing = (⟨e.fallback, none, timing.inferenceMs, false⟩,
        { e with model := next, metrics := e.metrics.observeFallback }.serveModel v timing
          e.fallback none)) := by
  rcases e.predict_asks v timing with hoverride | ⟨answer, raw, next, hgate, hask, heq⟩ |
    ⟨fault, next, hgate, hask, heq⟩
  · exact Or.inl hoverride
  · refine Or.inr (Or.inl ⟨answer, raw, next, hgate, ?_, heq⟩)
    rw [← map_fst_askModel, hask]
    rfl
  · refine Or.inr (Or.inr ⟨fault, next, hgate, ?_, heq⟩)
    rw [← map_fst_askModel, hask]
    rfl

theorem predict_keeps (e : Engine σ) (v : FeatureVector) (timing : Timing) :
    KeepsSetup e (e.predict v timing).2 ∧ (e.predict v timing).2.gate = e.gate := by
  rcases e.predict_cases v timing with ⟨mtu, -, h⟩ | ⟨answer, raw, next, -, -, h⟩ |
    ⟨fault, next, -, -, h⟩
  all_goals
    rw [h]
    exact ⟨⟨rfl, rfl, rfl⟩, rfl⟩

theorem update_keeps (e : Engine σ) (v : FeatureVector) (mtu : Nat) :
    KeepsLog e (e.update v mtu).2 ∧ KeepsSetup e (e.update v mtu).2 ∧
      (e.update v mtu).2.gate = e.gate := by
  unfold update
  split
  · exact ⟨⟨rfl, rfl⟩, ⟨rfl, rfl, rfl⟩, rfl⟩
  · split <;> exact ⟨⟨rfl, rfl⟩, ⟨rfl, rfl, rfl⟩, rfl⟩

end Engine

namespace Session

variable {σ : Type} [Predictor σ]

/-- Exporting the history may change the directory, never the engine. -/
theorem step_exportHistory_engine (s : Session σ) (path : String) :
    (s.step (.exportHistory path)).2.engine = s.engine := by
  simp only [step]
  split <;> rfl

/-- A call that asks for no prediction leaves the history and the last good answer as they are. -/
theorem step_keeps (s : Session σ) {call : Call} (h : call.asked? = none) :
    Engine.KeepsLog s.engine (s.step call).2.engine := by
  cases call with
  | predict v timing => cases h
  | update v mtu => exact (s.engine.update_keeps v mtu).1
  | exportHistory path =>
      rw [step_exportHistory_engine]
      exact ⟨rfl, rfl⟩
  | setOverride _ | history _ | status | metrics => exact ⟨rfl, rfl⟩

theorem setup_step (s : Session σ) (call : Call) :
    Engine.KeepsSetup s.engine (s.step call).2.engine := by
  cases call with
  | predict v timing => exact (s.engine.predict_keeps v timing).1
  | update v mtu => exact (s.engine.update_keeps v mtu).2.1
  | exportHistory path =>
      rw [step_exportHistory_engine]
      exact ⟨rfl, rfl, rfl⟩
  | setOverride _ | history _ | status | metrics => exact ⟨rfl, rfl, rfl⟩

theorem gate_step (s : Session σ) (call : Call) :
    (s.step call).2.engine.gate.value = call.setting?.getD s.engine.gate.value := by
  cases call with
  | predict v timing => exact congrArg OverrideGate.value (s.engine.predict_keeps v timing).2
  | update v mtu => exact congrArg OverrideGate.value (s.engine.update_keeps v mtu).2.2
  | setOverride mtu => exact OverrideGate.value_ofOption mtu
  | exportHistory path => exact congrArg (·.gate.value) (s.step_exportHistory_engine path)
  | history _ | status | metrics => rfl

/-! ### The setup and the override over a whole run -/

theorem setup_after (s : Session σ) (calls : List Call) :
    Engine.KeepsSetup s.engine (s.after calls).engine := by
  induction calls generalizing s with
  | nil => exact ⟨rfl, rfl, rfl⟩
  | cons call rest ih =>
      have hfirst := s.setup_step call
      have hrest := ih (s.step call).2
      exact ⟨hrest.bounds.trans hfirst.bounds, hrest.defaultMtu.trans hfirst.defaultMtu,
        hrest.discretization.trans hfirst.discretization⟩

theorem overrideAfter_cons (initial : Option Nat) (call : Call) (rest : List Call) :
    overrideAfter initial (call :: rest) = overrideAfter (call.setting?.getD initial) rest := by
  unfold overrideAfter
  cases hset : call.setting? with
  | none => rw [List.filterMap_cons_none hset, Option.getD_none]
  | some mtu => rw [List.filterMap_cons_some hset, List.getLast?_cons, Option.getD_some,
      Option.getD_some]

/-- The gate stands at the override that was set last. -/
theorem gate_after (s : Session σ) (calls : List Call) :
    (s.after calls).engine.gate.value = overrideAfter s.engine.gate.value calls := by
  induction calls generalizing s with
  | nil => rfl
  | cons call rest ih => rw [after_cons, ih, gate_step, overrideAfter_cons]

theorem gate_after_start (config : EngineConfig) (model : σ) (directory : Directory)
    (calls : List Call) :
    ((start config model directory).after calls).engine.gate.value
      = overrideAfter config.initialOverride calls := by
  rw [gate_after]
  exact congrArg (overrideAfter · calls) (OverrideGate.value_ofOption config.initialOverride)

end Session

end AdaptiveMtu
