/-
What the metrics of an engine say about its past.

The counters are moved in different places: a prediction that the override answers moves two of them, one
that the model fails for moves one before and one after the record is made, and an update moves its own only
if the model took it.  `Accounts` reads all of them against the moments of the run.  One call keeps that
reading, so a snapshot taken at any time tells how many calls of each kind there have been, what was
served last and which override is in force.
-/
import AdaptiveMtu.Model.Scripted
import AdaptiveMtu.Proofs.Binary64.Accuracy
import AdaptiveMtu.Proofs.Session.Answers
import AdaptiveMtu.Proofs.Session.History

namespace AdaptiveMtu

/-! ### Counts that are shown as numbers -/

namespace Metrics

/-- A count that a number can hold is shown as it is. -/
theorem signedValue_signed {n : Nat} (h : n < wordLimit) :
    (signedValue (signed n)).isFinite = true ∧ Binary64.value (signedValue (signed n)) = n := by
  have hsigned : signed n = n := by
    unfold wordLimit at h
    simp only [signed, largestCount, Int.bmod_def]
    omega
  have hvalue : signedValue (signed n) = Binary64.ofCount n := by
    rw [hsigned, signedValue, if_neg (Int.not_lt.mpr (Int.natCast_nonneg n)), Int.natAbs_natCast]
  rw [hvalue]
  refine Binary64.ofCount_spec ?_
  unfold wordLimit at h
  omega

end Metrics

namespace Engine

variable {σ : Type} [Predictor σ] (e : Engine σ)

/-- The mean time is shown once a time was measured. -/
theorem lookup_average : (∃ x, e.metricsSnapshot.lookup "ml.avg_inference_ms" = some (.gauge x))
    ↔ 0 < e.metrics.times.count := by
  by_cases h : e.metrics.times.count = 0
  · simp [metricsSnapshot, Metrics.snapshot, Histogram.mean?, List.lookup, h]
  · simp [metricsSnapshot, Metrics.snapshot, Histogram.mean?, List.lookup, h, Nat.pos_of_ne_zero h]

theorem lookup_override :
    e.metricsSnapshot.lookup "ml.override" = some (.text (e.gate.value.elim "disabled" toString)) := by
  by_cases h : e.metrics.times.count = 0 <;>
    simp [metricsSnapshot, Metrics.snapshot, Histogram.mean?, List.lookup, h]

end Engine

namespace Session

variable {σ : Type} [Predictor σ]

/-! ### What is counted -/

/-- Whether a prediction was asked for. -/
def Moment.asked (m : Moment σ) : Bool := m.call.asked?.isSome

/-- The prediction that was served. -/
def Moment.served? (m : Moment σ) : Option Served := Served.of? (m.call, m.reply)

/-- Whether the override answered a prediction. -/
def Moment.overridden (m : Moment σ) : Bool := m.served?.any (·.answer.isOverride)

/-- Whether the model was asked for a prediction and failed. -/
def Moment.failed (m : Moment σ) : Bool :=
  m.served?.any fun p =>
    !p.answer.isOverride && !(Predictor.predict m.found.engine.model p.features).1.isOk

/-- Whether an observation was taken and the model did not fail to learn it. -/
def Moment.learned (m : Moment σ) : Bool :=
  match m.call, m.reply with
  | .update _ _, .report (.ok ()) => true
  | _, _ => false

/-- The MTU that was served last, zero before there is one. -/
def lastServed (served : List Served) : Nat := served.getLast?.elim 0 (·.answer.mtu)

/-- What the metrics say of everything that happened. -/
structure Accounts (metrics : Metrics) (past : List (Moment σ)) : Prop where
  predictions : metrics.predictions = past.countP Moment.asked
  overrides : metrics.overrides = past.countP Moment.overridden
  fallbacks : metrics.fallbacks = past.countP Moment.failed
  updates : metrics.updates = past.countP Moment.learned
  served : metrics.served = Metrics.signed (lastServed (past.filterMap Moment.served?))
  /-- What the override did not answer was timed. -/
  timed : metrics.times.count + metrics.overrides = metrics.predictions
  answered : metrics.overrides + metrics.fallbacks ≤ metrics.predictions

/-- What a single moment makes of the metrics. -/
structure Moment.Adds (m : Moment σ) (before after : Metrics) : Prop where
  predictions : after.predictions = before.predictions + m.asked.toNat
  overrides : after.overrides = before.overrides + m.overridden.toNat
  fallbacks : after.fallbacks = before.fallbacks + m.failed.toNat
  updates : after.updates = before.updates + m.learned.toNat
  served : after.served = m.served?.elim before.served fun p => Metrics.signed p.answer.mtu
  timed : after.times.count + m.overridden.toNat = before.times.count + m.asked.toNat
  answered : m.overridden.toNat + m.failed.toNat ≤ m.asked.toNat

theorem accounts_empty : Accounts .empty ([] : List (Moment σ)) :=
  ⟨rfl, rfl, rfl, rfl, by simp [Metrics.empty, Metrics.signed, lastServed], rfl, Nat.le_refl _⟩

theorem lastServed_concat (served : List Served) (p : Served) :
    lastServed (served ++ [p]) = p.answer.mtu := by
  simp [lastServed]

theorem countP_concat {α : Type} (p : α → Bool) (l : List α) (a : α) :
    (l ++ [a]).countP p = l.countP p + (p a).toNat := by
  rw [List.countP_append, List.countP_singleton]
  cases p a <;> simp

theorem Accounts.add {before after : Metrics} {past : List (Moment σ)} {m : Moment σ}
    (h : Accounts before past) (hm : m.Adds before after) : Accounts after (past ++ [m]) where
  predictions := by rw [countP_concat, ← h.predictions, hm.predictions]
  overrides := by rw [countP_concat, ← h.overrides, hm.overrides]
  fallbacks := by rw [countP_concat, ← h.fallbacks, hm.fallbacks]
  updates := by rw [countP_concat, ← h.updates, hm.updates]
  served := by
    rw [hm.served, filterMap_concat]
    cases hserved : m.served? with
    | none => rw [Option.toList_none, List.append_nil, Option.elim_none, h.served]
    | some p => rw [Option.toList_some, lastServed_concat, Option.elim_some]
  timed := by
    have := h.timed
    have := hm.timed
    rw [hm.overrides, hm.predictions]
    omega
  answered := by
    have := h.answered
    have := hm.answered
    rw [hm.overrides, hm.fallbacks, hm.predictions]
    omega

/-! ### One call -/

theorem adds_predict (s : Session σ) (v : FeatureVector) (timing : Timing) :
    (s.moment (.predict v timing)).Adds s.engine.metrics (s.engine.predict v timing).2.metrics := by
  have hasked : (s.moment (.predict v timing)).asked = true := rfl
  have hlearned : (s.moment (.predict v timing)).learned = false := rfl
  have hserved : (s.moment (.predict v timing)).served?
      = some ⟨v, timing, (s.engine.predict v timing).1⟩ := rfl
  have hoverridden : (s.moment (.predict v timing)).overridden
      = (s.engine.predict v timing).1.isOverride := rfl
  have hfailed : (s.moment (.predict v timing)).failed
      = (!(s.engine.predict v timing).1.isOverride && !(Predictor.predict s.engine.model v).1.isOk) :=
    rfl
  rcases s.engine.predict_cases v timing with ⟨mtu, -, heq⟩ | ⟨answer, raw, next, -, hok, heq⟩ |
    ⟨fault, next, -, hfault, heq⟩
  · -- The override answers: two counters move, and there is no time.
    rw [heq] at hserved hoverridden hfailed ⊢
    constructor
    case served =>
      rw [hserved, Option.elim_some]
      simp only [Engine.serveOverride, Metrics.observeOverride, Engine.overridePrediction]
    all_goals simp [hasked, hlearned, hoverridden, hfailed, Engine.serveOverride,
      Engine.overridePrediction, Metrics.observeOverride]
  · -- The model answers: one counter moves, and there is a time.
    rw [heq] at hserved hoverridden hfailed ⊢
    rw [hok] at hfailed
    constructor
    case served =>
      rw [hserved, Option.elim_some]
      simp only [Engine.serveModel, Metrics.observePrediction]
    all_goals simp [hasked, hlearned, hoverridden, hfailed, Engine.serveModel,
      Metrics.observePrediction, Histogram.observe, Except.isOk, Except.toBool]
  · -- The model fails: two counters move, and there is a time.
    rw [heq] at hserved hoverridden hfailed ⊢
    rw [hfault] at hfailed
    constructor
    case served =>
      rw [hserved, Option.elim_some]
      simp only [Engine.serveModel, Metrics.observePrediction, Metrics.observeFallback]
    all_goals simp [hasked, hlearned, hoverridden, hfailed, Engine.serveModel, Metrics.observePrediction,
      Metrics.observeFallback, Histogram.observe, Except.isOk, Except.toBool]

theorem adds_update (s : Session σ) (v : FeatureVector) (mtu : Nat) :
    (s.moment (.update v mtu)).Adds s.engine.metrics (s.engine.update v mtu).2.metrics := by
  have hasked : (s.moment (.update v mtu)).asked = false := rfl
  have hserved : (s.moment (.update v mtu)).served? = none := rfl
  have hoverridden : (s.moment (.update v mtu)).overridden = false := rfl
  have hfailed : (s.moment (.update v mtu)).failed = false := rfl
  have hlearned : (s.moment (.update v mtu)).learned = (s.engine.update v mtu).1.isOk := by
    simp only [Moment.learned, moment, step]
    cases (s.engine.update v mtu).1 <;> rfl
  have hmetrics : (s.engine.update v mtu).2.metrics
      = if (s.engine.update v mtu).1.isOk then s.engine.metrics.observeUpdate else s.engine.metrics := by
    unfold Engine.update
    split
    · rfl
    · split <;> rfl
  rw [hmetrics]
  by_cases hok : (s.engine.update v mtu).1.isOk = true
  · constructor <;> simp [hasked, hserved, hoverridden, hfailed, hlearned, hok, Metrics.observeUpdate]
  · constructor <;> simp [hasked, hserved, hoverridden, hfailed, hlearned, hok]

/-- Every call moves the metrics by what it amounts to. -/
theorem adds_step (s : Session σ) (call : Call) :
    (s.moment call).Adds s.engine.metrics (s.step call).2.engine.metrics := by
  cases call with
  | predict v timing => exact adds_predict s v timing
  | update v mtu => exact adds_update s v mtu
  | exportHistory path =>
      rw [step_exportHistory_engine]
      exact ⟨rfl, rfl, rfl, rfl, rfl, rfl, Nat.le_refl _⟩
  | setOverride _ | history _ | status | metrics =>
      exact ⟨rfl, rfl, rfl, rfl, rfl, rfl, Nat.le_refl _⟩

/-! ### A whole run -/

theorem map_call_moments (s : Session σ) (calls : List Call) :
    (s.moments calls).map Moment.call = calls := by
  induction calls generalizing s with
  | nil => rfl
  | cons call rest ih => exact congrArg (call :: ·) (ih (s.step call).2)

theorem filterMap_served?_moments (s : Session σ) (calls : List Call) :
    (s.moments calls).filterMap Moment.served? = s.served calls := by
  rw [served, zip_replies, List.filterMap_map]
  rfl

theorem countP_asked (s : Session σ) (calls : List Call) :
    (s.moments calls).countP Moment.asked = calls.countP (·.asked?.isSome) := by
  conv_rhs => rw [← s.map_call_moments calls, List.countP_map]
  rfl

theorem countP_overridden (s : Session σ) (calls : List Call) :
    (s.moments calls).countP Moment.overridden = (s.served calls).countP (·.answer.isOverride) := by
  rw [← s.filterMap_served?_moments calls, List.countP_filterMap]
  refine List.countP_congr fun m _ => ?_
  rw [Moment.overridden]
  cases m.served? <;> simp

/-- After any calls, the metrics account for all of them. -/
theorem accounts_after (config : EngineConfig) (model : σ) (directory : Directory)
    (calls : List Call) :
    Accounts ((start config model directory).after calls).engine.metrics
      ((start config model directory).moments calls) := by
  refine invariant_run (P := fun past now => Accounts now.engine.metrics past) accounts_empty ?_ calls
  intro past now call h
  exact h.add (adds_step now call)

/-- Every prediction of a run was served by the engine that the calls before it have left. -/
theorem exists_of_mem_served {s : Session σ} {calls : List Call} {p : Served}
    (h : p ∈ s.served calls) : ∃ past v timing more, calls = past ++ .predict v timing :: more ∧
      p = ⟨v, timing, ((s.after past).engine.predict v timing).1⟩ := by
  induction calls generalizing s with
  | nil => simp [served] at h
  | cons call rest ih =>
      rw [served_cons, List.mem_append] at h
      rcases h with hnow | hlater
      · cases hasked : call.asked? with
        | none => simp [of?_step s hasked] at hnow
        | some asked =>
            cases call with
            | predict v timing =>
                refine ⟨[], v, timing, rest, rfl, ?_⟩
                simpa [Served.of?, step] using hnow
            | _ => cases hasked
      · obtain ⟨past, v, timing, more, hcalls, hp⟩ := ih hlater
        exact ⟨call :: past, v, timing, more, by rw [hcalls, List.cons_append], hp⟩

theorem mem_overrideAfter {initial : Option Nat} {calls : List Call} {n : Nat}
    (h : overrideAfter initial calls = some n) : initial = some n ∨ .setOverride (some n) ∈ calls := by
  unfold overrideAfter at h
  cases hlast : (calls.filterMap Call.setting?).getLast? with
  | none =>
      rw [hlast] at h
      exact .inl h
  | some mtu =>
      rw [hlast, Option.getD_some] at h
      obtain ⟨call, hcall, hset⟩ := List.mem_filterMap.mp (List.mem_of_getLast? hlast)
      cases call with
      | setOverride other =>
          obtain rfl : other = mtu := by simpa [Call.setting?] using hset
          exact .inr (h ▸ hcall)
      | _ => cases hset

/-- What is served fits thirty-two bits if all overrides do. -/
theorem served_lt {config : EngineConfig} (hconfig : ∀ mtu ∈ config.initialOverride, mtu < wordLimit)
    (model : σ) (directory : Directory) {calls : List Call}
    (hcalls : ∀ mtu, Call.setOverride (some mtu) ∈ calls → mtu < wordLimit) {p : Served}
    (hp : p ∈ (start config model directory).served calls) : p.answer.mtu < wordLimit := by
  obtain ⟨past, v, timing, more, rfl, rfl⟩ := exists_of_mem_served hp
  have hrecalls := recalls_after config model directory past
  have hmax : ∀ b : MtuBounds, b.max < wordLimit := fun b => b.max_le_largest.trans_lt (by decide)
  rcases ((start config model directory).after past).engine.predict_cases v timing with
    ⟨mtu, hoverride, heq⟩ | ⟨answer, raw, next, -, -, heq⟩ | ⟨fault, next, -, -, heq⟩
  · rw [heq]
    rw [gate_after_start] at hoverride
    rcases mem_overrideAfter hoverride with hinitial | hset
    · exact hconfig mtu hinitial
    · exact hcalls mtu (List.mem_append_left _ hset)
  · rw [heq]
    exact (Engine.settle_mem _ answer raw).2.trans_lt (hmax _)
  · rw [heq]
    exact hrecalls.fallback_mem.2.trans_lt (hmax _)

theorem lastServed_lt {served : List Served} (h : ∀ p ∈ served, p.answer.mtu < wordLimit) :
    lastServed served < wordLimit := by
  unfold lastServed
  cases hlast : served.getLast? with
  | none => decide
  | some p => exact h p (List.mem_of_getLast? hlast)

/-- **The metrics of an engine are an account of all its calls.** -/
theorem metrics_account {config : EngineConfig}
    (hconfig : ∀ mtu ∈ config.initialOverride, mtu < wordLimit) (model : σ) (directory : Directory)
    {calls : List Call} (hcalls : ∀ mtu, Call.setOverride (some mtu) ∈ calls → mtu < wordLimit)
    (more : List Call) :
    let s := start config model directory
    let predictions := calls.countP (·.asked?.isSome)
    let overrides := (s.served calls).countP (·.answer.isOverride)
    let fallbacks := (s.moments calls).countP Moment.failed
    ∃ shown, (s.replies (calls ++ .metrics :: more))[calls.length]? = some (.metrics shown) ∧
      shown.lookup "ml.predictions" = some (.counter predictions) ∧
      shown.lookup "ml.overrides" = some (.counter overrides) ∧
      shown.lookup "ml.fallbacks" = some (.counter fallbacks) ∧
      shown.lookup "ml.updates" = some (.counter ((s.moments calls).countP Moment.learned)) ∧
      (∃ x, shown.lookup "ml.predicted_mtu" = some (.gauge x) ∧ x.isFinite = true ∧
        Binary64.value x = lastServed (s.served calls)) ∧
      ((∃ x, shown.lookup "ml.avg_inference_ms" = some (.gauge x)) ↔ overrides < predictions) ∧
      shown.lookup "ml.override" = some (.text
        ((overrideAfter config.initialOverride calls).elim "disabled" toString)) ∧
      overrides + fallbacks ≤ predictions := by
  intro s predictions overrides fallbacks
  have haccounts : Accounts (s.after calls).engine.metrics (s.moments calls) :=
    accounts_after config model directory calls
  have hpredictions : (s.after calls).engine.metrics.predictions = predictions := by
    rw [haccounts.predictions, s.countP_asked calls]
  have hoverrides : (s.after calls).engine.metrics.overrides = overrides := by
    rw [haccounts.overrides, s.countP_overridden calls]
  have hfallbacks : (s.after calls).engine.metrics.fallbacks = fallbacks := haccounts.fallbacks
  have htimed := haccounts.timed
  have hanswered := haccounts.answered
  rw [hpredictions, hoverrides] at htimed
  rw [hpredictions, hoverrides, hfallbacks] at hanswered
  refine ⟨(s.after calls).engine.metricsSnapshot, s.replies_getElem? calls more _, ?_, ?_, ?_, ?_, ?_, ?_,
    ?_, hanswered⟩
  · rw [← hpredictions]
    rfl
  · rw [← hoverrides]
    rfl
  · rw [← hfallbacks]
    rfl
  · rw [← haccounts.updates]
    rfl
  · refine ⟨_, rfl, ?_⟩
    rw [haccounts.served, s.filterMap_served?_moments calls]
    exact Metrics.signedValue_signed (lastServed_lt fun p hp => served_lt hconfig model directory hcalls hp)
  · rw [Engine.lookup_average]
    omega
  · rw [Engine.lookup_override, gate_after_start]

/-- A model that answers once, fails from then on, and does not learn the first time. -/
def faltering : Scripted :=
  .ofScript [.mtu 1500 none, .failure "no answer"] [some "not learned", none] false

/-- Calls of every kind that is counted. -/
def countedCalls : List Call :=
  [.predict .empty ⟨0, 1⟩, .update .empty 1400, .predict .empty ⟨1, 1⟩, .update .empty 60,
    .update .empty 1400, .setOverride (some 9000), .predict .empty ⟨2, 1⟩]

theorem faltering_accounted :
    (∀ mtu, Call.setOverride (some mtu) ∈ countedCalls → mtu < wordLimit) ∧
    ∃ shown x, ((start .standard faltering .empty).replies (countedCalls ++ [.metrics]))[7]?
        = some (.metrics shown) ∧
      shown.lookup "ml.predictions" = some (.counter 3) ∧
      shown.lookup "ml.overrides" = some (.counter 1) ∧
      shown.lookup "ml.fallbacks" = some (.counter 1) ∧
      shown.lookup "ml.updates" = some (.counter 1) ∧
      shown.lookup "ml.predicted_mtu" = some (.gauge x) ∧ Binary64.value x = 9000 ∧
      (∃ mean, shown.lookup "ml.avg_inference_ms" = some (.gauge mean)) ∧
      shown.lookup "ml.override" = some (.text "9000") := by
  have hcalls : ∀ mtu, Call.setOverride (some mtu) ∈ countedCalls → mtu < wordLimit := by
    intro mtu h
    obtain rfl : mtu = 9000 := by simpa [countedCalls] using h
    decide
  have hconfig : ∀ mtu ∈ EngineConfig.standard.initialOverride, mtu < wordLimit := by
    simp [EngineConfig.standard]
  obtain ⟨shown, hshown, hpredictions, hoverrides, hfallbacks, hupdates, ⟨x, hgauge, -, hx⟩, hmean,
    hoverride, -⟩ := metrics_account hconfig faltering .empty hcalls []
  have hlast : lastServed ((start .standard faltering .empty).served countedCalls) = 9000 := rfl
  rw [hlast] at hx
  exact ⟨hcalls, shown, x, hshown, hpredictions, hoverrides, hfallbacks, hupdates, hgauge,
    mod_cast hx, hmean.mpr (by decide), hoverride⟩

end Session

end AdaptiveMtu
