/-
What predictions depend on.

Besides its model an engine holds an override, a history, its last good answer and metrics, and all of these
change as it is used.  None of them finds its way into the model.  Asking a built model leaves it as it
was, so after any calls the model is the one that was built, taught the lessons among them and nothing else
(`model_after`).  Two engines that agree in model, bounds and discretization give the same answers
when their models do not fail (`Agree.predict`); together this compares any two runs with the same lessons.
-/
import AdaptiveMtu.Proofs.Model.Range
import AdaptiveMtu.Proofs.Session.Step

namespace AdaptiveMtu

/-- The sample that a call teaches: an observation that an engine takes. -/
def Call.lesson? : Call → Option (FeatureVector × Nat)
  | .update v mtu => if smallestMtu ≤ mtu ∧ mtu ≤ largestMtu then some (v, mtu) else none
  | _ => none

namespace Model

variable {χ : Type} [Predictor χ]

/-! ### Models that stay as they are when they are asked -/

/-- Asking a model leaves it as it is. -/
structure Steady (m : Model χ) : Prop where
  predict : ∀ v, (m.predict v).2 = m
  raw : ∀ v, (m.raw v).2 = m

theorem Basic.steady {bounds : MtuBounds} {m : Model χ} (h : Basic bounds m) : m.Steady := by
  cases h <;> exact ⟨fun _ => rfl, fun _ => rfl⟩

/-- Whichever member fails, all of them are as they were. -/
theorem predictAll_steady {members : List (Model χ)} (h : ∀ m ∈ members, m.Steady)
    (v : FeatureVector) : (predictAll v members).2 = members := by
  induction members with
  | nil => rfl
  | cons first rest ih =>
      have hfirst := (h first List.mem_cons_self).predict v
      have hrest := ih fun m hm => h m (List.mem_cons_of_mem _ hm)
      rw [predictAll]
      rcases hanswer : first.predict v with ⟨answer, next⟩
      rw [hanswer] at hfirst
      cases answer with
      | error fault => exact congrArg (· :: rest) hfirst
      | ok mtu => exact congrArg₂ List.cons hfirst hrest

theorem steady_ensemble {members : List (Model χ)} (h : ∀ m ∈ members, m.Steady) :
    (ensemble members).Steady :=
  ⟨fun v => congrArg ensemble (predictAll_steady h v),
    fun v => congrArg ensemble (predictAll_steady h v)⟩

/-- **Asking a built model never changes it, whatever it has been taught.** -/
theorem steady_build (read : TextReader) (bounds : MtuBounds) (kind : ModelKind)
    (samples : List (FeatureVector × Nat)) :
    ((build read bounds kind).learnAll samples : Model χ).Steady :=
  built_induct kind samples (fun _ h => h.steady) (fun _ _ _ h => steady_ensemble h)

end Model

namespace Engine

/-! ### What one call does to the model -/

section Learning

variable {χ : Type} [Predictor χ]

theorem askModel_steady {m : Model χ} (h : m.Steady) (v : FeatureVector) : (askModel m v).2 = m := by
  have hpredict : (Predictor.predict m v).2 = m := h.predict v
  have hraw : (Predictor.raw m v).2 = m := h.raw v
  rw [askModel]
  rcases hanswer : Predictor.predict m v with ⟨answer, next⟩
  rw [hanswer] at hpredict
  cases hpredict
  cases answer with
  | error fault => rfl
  | ok mtu => exact hraw

theorem model_predict {e : Engine (Model χ)} (h : e.model.Steady) (v : FeatureVector)
    (timing : Timing) : (e.predict v timing).2.model = e.model := by
  have hsteady := askModel_steady h v
  rcases e.predict_asks v timing with ⟨mtu, -, heq⟩ | ⟨answer, raw, next, -, hask, heq⟩ |
    ⟨fault, next, -, hask, heq⟩
  · rw [heq]
    rfl
  · rw [heq, ← hsteady, hask]
    rfl
  · rw [heq, ← hsteady, hask]
    rfl

/-- An update teaches the model its sample if the observation is taken, also when it then fails. -/
theorem model_update (e : Engine (Model χ)) (v : FeatureVector) (mtu : Nat) :
    (e.update v mtu).2.model = e.model.learnAll (Call.update v mtu).lesson?.toList := by
  have hguard : (mtu < smallestMtu || largestMtu < mtu) = true ↔
      ¬(smallestMtu ≤ mtu ∧ mtu ≤ largestMtu) := by
    simp only [Bool.or_eq_true, decide_eq_true_eq]
    omega
  rw [update, Call.lesson?]
  by_cases hmtu : smallestMtu ≤ mtu ∧ mtu ≤ largestMtu
  · rw [if_neg (fun h => hguard.mp h hmtu), if_pos hmtu]
    rcases hreport : Predictor.update e.model v mtu with ⟨report, next⟩
    have hnext : e.model.learn (v, mtu) = next := congrArg Prod.snd hreport
    cases report <;> exact hnext.symm
  · rw [if_pos (hguard.mpr hmtu), if_neg hmtu]
    rfl

end Learning

/-! ### Engines that agree -/

variable {σ : Type}

/-- Two engines agree in everything that goes into an answer of the model. -/
structure Agree (e e' : Engine σ) : Prop where
  model : e.model = e'.model
  bounds : e.bounds = e'.bounds
  discretization : e.discretization = e'.discretization

variable [Predictor σ]

theorem askModel_ok {m : σ} {v : FeatureVector} {answer : Nat}
    (h : (Predictor.predict m v).1 = .ok answer) : ∃ raw, (askModel m v).1 = .ok (answer, raw) := by
  rw [← map_fst_askModel] at h
  cases hask : (askModel m v).1 with
  | error fault => simp [hask, Except.map] at h
  | ok outcome =>
      have hanswer : outcome.1 = answer := by simpa [hask, Except.map] using h
      exact ⟨outcome.2, by rw [← hanswer]⟩

/-- When no override is in force and the model does not fail, its answer is served. -/
theorem predict_of_ok {e : Engine σ} (hgate : e.gate.value = none) {v : FeatureVector}
    {answer : Nat} {raw : Option Float} (hok : (askModel e.model v).1 = .ok (answer, raw))
    (timing : Timing) :
    (e.predict v timing).1 = ⟨e.settle answer raw, raw, timing.inferenceMs, false⟩ := by
  rcases e.predict_asks v timing with ⟨mtu, hoverride, -⟩ | ⟨answer', raw', next, -, hask, heq⟩ |
    ⟨fault, next, -, hask, -⟩
  · simp [hgate] at hoverride
  · obtain ⟨rfl, rfl⟩ : answer' = answer ∧ raw' = raw := by simpa [hask] using hok
    rw [heq]
  · simp [hask] at hok

/-- Engines that agree give the same answer, unless an override is in force or the model fails. -/
theorem Agree.predict {e e' : Engine σ} (h : Agree e e') (hgate : e.gate.value = none)
    (hgate' : e'.gate.value = none) {v : FeatureVector} {answer : Nat}
    (hok : (Predictor.predict e.model v).1 = .ok answer) (timing timing' : Timing) :
    (e.predict v timing).1.mtu = (e'.predict v timing').1.mtu ∧
      (e.predict v timing).1.raw = (e'.predict v timing').1.raw := by
  obtain ⟨raw, hask⟩ := askModel_ok hok
  have hask' : (askModel e'.model v).1 = .ok (answer, raw) := h.model ▸ hask
  rw [predict_of_ok hgate hask, predict_of_ok hgate' hask', settle, settle, h.bounds,
    h.discretization]
  exact ⟨rfl, rfl⟩

end Engine

namespace Session

variable {χ : Type} [Predictor χ]

/-! ### The model over a run -/

theorem model_step {s : Session (Model χ)} (h : s.engine.model.Steady) (call : Call) :
    (s.step call).2.engine.model = s.engine.model.learnAll call.lesson?.toList := by
  cases call with
  | predict v timing => exact Engine.model_predict h v timing
  | update v mtu => exact s.engine.model_update v mtu
  | exportHistory path => exact congrArg Engine.model (s.step_exportHistory_engine path)
  | setOverride _ | history _ | status | metrics => rfl

/-- **After any calls a built model is what the lessons among them make of it.** -/
theorem model_after {read : TextReader} {bounds : MtuBounds} {kind : ModelKind}
    {past : List (FeatureVector × Nat)} {s : Session (Model χ)}
    (h : s.engine.model = (Model.build read bounds kind).learnAll past) (calls : List Call) :
    (s.after calls).engine.model
      = (Model.build read bounds kind).learnAll (past ++ calls.filterMap Call.lesson?) := by
  induction calls generalizing s past with
  | nil =>
      rw [List.filterMap_nil, List.append_nil]
      exact h
  | cons call rest ih =>
      have hsteady : s.engine.model.Steady := h ▸ Model.steady_build read bounds kind past
      have hstep : (s.step call).2.engine.model
          = (Model.build read bounds kind).learnAll (past ++ call.lesson?.toList) := by
        rw [model_step hsteady, h, Model.learnAll_append]
      -- The lesson of the first call, if it has one, moves from the remaining calls to the past.
      rw [after_cons, ih hstep, List.append_assoc]
      cases hlesson : call.lesson? with
      | none => rw [List.filterMap_cons_none hlesson, Option.toList_none, List.nil_append]
      | some lesson =>
          rw [List.filterMap_cons_some hlesson, Option.toList_some, List.singleton_append]

/-! ### Two runs -/

/-- Engines for the same kind of model agree after any calls with the same lessons among them. -/
theorem agree_after {read read' : TextReader} {config config' : EngineConfig}
    {calls calls' : List Call} (hkind : config.model = config'.model)
    (hbounds : config.bounds = config'.bounds)
    (hdiscretization : config.discretization = config'.discretization)
    (hartifacts : ∀ path ∈ config.model.artifacts, read path = read' path)
    (hlessons : calls.filterMap Call.lesson? = calls'.filterMap Call.lesson?) (d d' : Directory) :
    let s : Session (Model χ) := ⟨Engine.ofConfig read config, d⟩
    let s' : Session (Model χ) := ⟨Engine.ofConfig read' config', d'⟩
    Engine.Agree (s.after calls).engine (s'.after calls').engine := by
  intro s s'
  have hsetup := s.setup_after calls
  have hsetup' := s'.setup_after calls'
  refine ⟨?_, ?_, ?_⟩
  · have hstart : s.engine.model = (Model.build read config.bounds config.model).learnAll [] := rfl
    have hstart' : s'.engine.model = (Model.build read' config'.bounds config'.model).learnAll [] :=
      rfl
    rw [model_after hstart, model_after hstart', hlessons, ← hkind, ← hbounds,
      Model.build_congr hartifacts]
  · rw [hsetup.bounds, hsetup'.bounds]
    exact hbounds
  · rw [hsetup.discretization, hsetup'.discretization]
    exact hdiscretization

/-- **Nothing but the lessons decides what the model of an engine answers.**  Two engines for the same kind
of model, bounds and discretization, whose runs have the same lessons, agree on whether the model
fails, and if it does not, on the MTU and the raw prediction. -/
theorem predict_noninterference (read read' : TextReader) (config config' : EngineConfig)
    (calls calls' : List Call) (hkind : config.model = config'.model)
    (hbounds : config.bounds = config'.bounds)
    (hdiscretization : config.discretization = config'.discretization)
    (hartifacts : ∀ path ∈ config.model.artifacts, read path = read' path)
    (hlessons : calls.filterMap Call.lesson? = calls'.filterMap Call.lesson?)
    (hgate : overrideAfter config.initialOverride calls = none)
    (hgate' : overrideAfter config'.initialOverride calls' = none)
    (d d' : Directory) (more more' : List Call) (v : FeatureVector) (timing timing' : Timing) :
    let s : Session (Model χ) := ⟨Engine.ofConfig read config, d⟩
    let s' : Session (Model χ) := ⟨Engine.ofConfig read' config', d'⟩
    ∃ p p' : Prediction,
      (s.replies (calls ++ .predict v timing :: more))[calls.length]? = some (.prediction p) ∧
      (s'.replies (calls' ++ .predict v timing' :: more'))[calls'.length]?
        = some (.prediction p') ∧
      ((∃ mtu, ((s.after calls).engine.model.predict v).1 = .ok mtu) ↔
        ∃ mtu, ((s'.after calls').engine.model.predict v).1 = .ok mtu) ∧
      ((∃ mtu, ((s.after calls).engine.model.predict v).1 = .ok mtu) →
        p.mtu = p'.mtu ∧ p.raw = p'.raw) := by
  intro s s'
  have hagree : Engine.Agree (s.after calls).engine (s'.after calls').engine :=
    agree_after hkind hbounds hdiscretization hartifacts hlessons d d'
  have hnone : (s.after calls).engine.gate.value = none :=
    (gate_after_start config _ d calls).trans hgate
  have hnone' : (s'.after calls').engine.gate.value = none :=
    (gate_after_start config' _ d' calls').trans hgate'
  refine ⟨_, _, s.replies_getElem? calls more _, s'.replies_getElem? calls' more' _, ?_, ?_⟩
  · rw [hagree.model]
  · rintro ⟨mtu, hok⟩
    exact hagree.predict hnone hnone' hok timing timing'

/-- An engine for the standard model that is set up in the standard way. -/
def quietSession : Session (Model Empty) := ⟨Engine.ofConfig Directory.empty.readText .standard, .empty⟩

/-- Calls that do nothing but teach one lesson. -/
def quietCalls : List Call := [.update .empty 1500]

/-- Another configuration for the standard model. -/
def busyConfig : EngineConfig :=
  { EngineConfig.standard with historyCapacity := 1, defaultMtu := 9000, initialOverride := some 1400 }

/-- An engine for the standard model that is set up in another way. -/
def busySession : Session (Model Empty) := ⟨Engine.ofConfig Directory.empty.readText busyConfig, .empty⟩

/-- Calls that teach the same lesson and do much besides. -/
def busyCalls : List Call :=
  [.predict .empty ⟨0, 0⟩, .update .empty 9001, .setOverride none, .predict .empty ⟨1, 2⟩,
    .update .empty 1500, .history none, .exportHistory "records", .setOverride (some 600),
    .predict .empty ⟨2, 3⟩, .setOverride none]

/-- Both engines answer the same. -/
theorem busy_answers_as_quiet :
    quietCalls.filterMap Call.lesson? = busyCalls.filterMap Call.lesson? ∧
    overrideAfter none quietCalls = none ∧ overrideAfter (some 1400) busyCalls = none ∧
    ∃ p p' : Prediction,
      (quietSession.replies (quietCalls ++ [.predict .empty ⟨3, 4⟩]))[1]? = some (.prediction p) ∧
      (busySession.replies (busyCalls ++ [.predict .empty ⟨5, 6⟩]))[10]? = some (.prediction p') ∧
      p.mtu = p'.mtu ∧ p.raw = p'.raw := by
  have hlessons : quietCalls.filterMap Call.lesson? = busyCalls.filterMap Call.lesson? := rfl
  have hquiet : overrideAfter EngineConfig.standard.initialOverride quietCalls = none := rfl
  have hbusy : overrideAfter busyConfig.initialOverride busyCalls = none := rfl
  have hok : ∃ mtu, ((quietSession.after quietCalls).engine.model.predict .empty).1 = .ok mtu :=
    ⟨1300, Model.eq_ok_of_toOption (by decide +kernel)⟩
  rw [quietSession] at hok ⊢
  obtain ⟨p, p', hreply, hreply', -, hsame⟩ := predict_noninterference (χ := Empty)
    Directory.empty.readText Directory.empty.readText .standard busyConfig quietCalls busyCalls
    rfl rfl rfl (fun _ _ => rfl) hlessons hquiet hbusy .empty .empty [] [] .empty ⟨3, 4⟩ ⟨5, 6⟩
  exact ⟨hlessons, hquiet, hbusy, p, p', hreply, hreply', hsame hok⟩

end Session

end AdaptiveMtu
