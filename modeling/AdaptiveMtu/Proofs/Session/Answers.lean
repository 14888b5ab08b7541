/-
What an engine answers over a run.

An override that is in force answers by itself, whatever it is.  Else the answer is within the bounds, and
when the model fails it is the last one that the model was good for.  The engine stores that answer
in one place only, so the past has to be read into it: `goods` lists, over a whole run, the answers of the
predictions in which the model was asked and did not fail, and `Recalls` says that the engine knows
the last of them and that all of them are within its bounds.
-/
import AdaptiveMtu.Proofs.Bounds
import AdaptiveMtu.Proofs.Session.Step

namespace AdaptiveMtu

namespace Engine

variable {σ : Type}

/-- What an engine knows of the answers that its model was good for. -/
structure Recalls (e : Engine σ) (past : List Nat) : Prop where
  lastGood : e.lastGood = past.getLast?
  inBounds : ∀ mtu ∈ past, e.bounds.min ≤ mtu ∧ mtu ≤ e.bounds.max
  default : e.bounds.min ≤ e.defaultMtu ∧ e.defaultMtu ≤ e.bounds.max

theorem recalls_withModel (config : EngineConfig) (model : σ) : (withModel config model).Recalls [] where
  lastGood := rfl
  inBounds := by intro mtu h; cases h
  default := config.bounds.clamp_mem config.defaultMtu

theorem Recalls.keep {e e' : Engine σ} {past : List Nat} (h : e.Recalls past)
    (hgood : e'.lastGood = e.lastGood) (hsetup : KeepsSetup e e') : e'.Recalls past where
  lastGood := hgood.trans h.lastGood
  inBounds := by rw [hsetup.bounds]; exact h.inBounds
  default := by rw [hsetup.bounds, hsetup.defaultMtu]; exact h.default

/-- A further answer of the model is recalled if it is within the bounds. -/
theorem Recalls.add {e e' : Engine σ} {past : List Nat} {mtu : Nat} (h : e.Recalls past)
    (hgood : e'.lastGood = some mtu) (hmtu : e.bounds.min ≤ mtu ∧ mtu ≤ e.bounds.max)
    (hsetup : KeepsSetup e e') : e'.Recalls (past ++ [mtu]) where
  lastGood := by rw [hgood, List.getLast?_concat]
  inBounds := by
    rw [hsetup.bounds]
    intro other hother
    rcases List.mem_append.mp hother with hpast | hnew
    · exact h.inBounds other hpast
    · rw [List.mem_singleton.mp hnew]
      exact hmtu
  default := by rw [hsetup.bounds, hsetup.defaultMtu]; exact h.default

/-- What is served for a failing model is the last good answer, or the default before there is one. -/
theorem Recalls.fallback_eq {e : Engine σ} {past : List Nat} (h : e.Recalls past) :
    e.fallback = past.getLast?.getD e.defaultMtu := by
  rw [fallback, h.lastGood]

theorem Recalls.fallback_mem {e : Engine σ} {past : List Nat} (h : e.Recalls past) :
    e.bounds.min ≤ e.fallback ∧ e.fallback ≤ e.bounds.max := by
  rw [h.fallback_eq]
  cases hlast : past.getLast? with
  | none => exact h.default
  | some mtu => exact h.inBounds mtu (List.mem_of_getLast? hlast)

end Engine

namespace Session

variable {σ : Type} [Predictor σ]

/-- The answer of a prediction for which the model was asked and did not fail. -/
def Moment.good? (m : Moment σ) : Option Nat :=
  match m.call, m.reply with
  | .predict v _, .prediction p =>
    match p.isOverride, (Predictor.predict m.found.engine.model v).1 with
    | false, .ok _ => some p.mtu
    | _, _ => none
  | _, _ => none

/-- The answers that the model was good for in the course of a list of calls. -/
def goods (s : Session σ) (calls : List Call) : List Nat :=
  (s.moments calls).filterMap Moment.good?

theorem good?_of_not_asked (s : Session σ) {call : Call} (h : call.asked? = none) :
    (s.moment call).good? = none := by
  cases call with
  | predict v timing => cases h
  | _ => rfl

theorem recalls_predict {s : Session σ} {past : List Nat} (h : s.engine.Recalls past)
    (v : FeatureVector) (timing : Timing) :
    (s.engine.predict v timing).2.Recalls
      (past ++ (s.moment (.predict v timing)).good?.toList) := by
  have hsetup := (s.engine.predict_keeps v timing).1
  rcases s.engine.predict_cases v timing with ⟨mtu, -, heq⟩ | ⟨answer, raw, next, -, hok, heq⟩ |
    ⟨fault, next, -, hfault, heq⟩
  · -- The override answers, and the model is not asked.
    have hgood : (s.moment (.predict v timing)).good? = none := by
      simp only [Moment.good?, moment, step, heq, Engine.overridePrediction]
    rw [hgood, Option.toList_none, List.append_nil]
    refine h.keep ?_ hsetup
    rw [heq]
    rfl
  · -- The model answers.
    have hgood : (s.moment (.predict v timing)).good? = some (s.engine.settle answer raw) := by
      simp only [Moment.good?, moment, step, heq, hok]
    rw [hgood, Option.toList_some]
    refine h.add ?_ (s.engine.settle_mem answer raw) hsetup
    rw [heq]
    rfl
  · -- The model fails.
    have hgood : (s.moment (.predict v timing)).good? = none := by
      simp only [Moment.good?, moment, step, heq, hfault]
    rw [hgood, Option.toList_none, List.append_nil]
    refine h.keep ?_ hsetup
    rw [heq]
    rfl

/-- Every call keeps what an engine knows of its good answers. -/
theorem recalls_step {s : Session σ} {past : List Nat} (h : s.engine.Recalls past) (call : Call) :
    (s.step call).2.engine.Recalls (past ++ (s.moment call).good?.toList) := by
  cases hasked : call.asked? with
  | none =>
      rw [good?_of_not_asked s hasked, Option.toList_none, List.append_nil]
      exact h.keep (s.step_keeps hasked).lastGood (s.setup_step call)
  | some asked =>
      cases call with
      | predict v timing => exact recalls_predict h v timing
      | _ => cases hasked

/-- After any calls, an engine recalls the good answers of all of them. -/
theorem recalls_after (config : EngineConfig) (model : σ) (directory : Directory)
    (calls : List Call) :
    ((start config model directory).after calls).engine.Recalls
      ((start config model directory).goods calls) := by
  refine invariant_run (P := fun past now => now.engine.Recalls (past.filterMap Moment.good?))
    (Engine.recalls_withModel config model) ?_ calls
  intro past now call h
  rw [filterMap_concat]
  exact recalls_step h call

/-- **Every prediction is answered by the override in force, or within the bounds, by the model or by the last
answer that the model was good for.** -/
theorem predict_answers (config : EngineConfig) (model : σ) (directory : Directory)
    (calls more : List Call) (v : FeatureVector) (timing : Timing) :
    let s := start config model directory
    ∃ p, (s.replies (calls ++ .predict v timing :: more))[calls.length]? = some (.prediction p) ∧
      (∀ mtu, overrideAfter config.initialOverride calls = some mtu →
        p.mtu = mtu ∧ p.raw = none ∧ p.isOverride = true) ∧
      (overrideAfter config.initialOverride calls = none →
        p.isOverride = false ∧ config.bounds.min ≤ p.mtu ∧ p.mtu ≤ config.bounds.max ∧
        ∀ fault, (Predictor.predict (s.after calls).engine.model v).1 = .error fault →
          p.raw = none ∧
          p.mtu = (s.goods calls).getLast?.getD (config.bounds.clamp config.defaultMtu)) := by
  intro s
  have hgate : (s.after calls).engine.gate.value = overrideAfter config.initialOverride calls :=
    gate_after_start config model directory calls
  have hsetup : Engine.KeepsSetup s.engine (s.after calls).engine := s.setup_after calls
  have hrecalls : (s.after calls).engine.Recalls (s.goods calls) :=
    recalls_after config model directory calls
  refine ⟨((s.after calls).engine.predict v timing).1, s.replies_getElem? calls more _, ?_⟩
  rw [← hgate]
  rcases (s.after calls).engine.predict_cases v timing with ⟨mtu, hoverride, heq⟩ |
    ⟨answer, raw, next, hnone, hok, heq⟩ | ⟨fault, next, hnone, hfault, heq⟩
  · rw [heq, hoverride]
    refine ⟨?_, by intro h; cases h⟩
    intro mtu' h
    cases h
    exact ⟨rfl, rfl, rfl⟩
  · rw [heq, hnone, hok]
    refine ⟨(by intro mtu' h; cases h), fun _ => ⟨rfl, ?_, ?_, (by intro fault h; cases h)⟩⟩
    · exact hsetup.bounds ▸ ((s.after calls).engine.settle_mem answer raw).1
    · exact hsetup.bounds ▸ ((s.after calls).engine.settle_mem answer raw).2
  · rw [heq, hnone]
    refine ⟨(by intro mtu' h; cases h), fun _ => ⟨rfl, ?_, ?_, fun _ _ => ⟨rfl, ?_⟩⟩⟩
    · exact hsetup.bounds ▸ hrecalls.fallback_mem.1
    · exact hsetup.bounds ▸ hrecalls.fallback_mem.2
    · exact hsetup.defaultMtu ▸ hrecalls.fallback_eq

end Session

end AdaptiveMtu
