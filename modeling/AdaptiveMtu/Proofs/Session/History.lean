/-
What an engine remembers of a run.

The history is read against all predictions that were ever served: `served` lists them from the calls and
the replies alone, and `Served.record` is the record that each of them ought to have.  Every prediction
adds its record, whichever of the three ways it is answered, and no other call adds, drops or moves
one, so that the history always holds the last of these records, as many as it has room for.
-/
import AdaptiveMtu.Proofs.BoundedLog
import AdaptiveMtu.Proofs.Session.Step

namespace AdaptiveMtu

/-- A prediction that was served: what was asked, and what was answered. -/
structure Served where
  features : FeatureVector
  timing : Timing
  answer : Prediction

namespace Served

/-- The prediction that a call and its reply served. -/
def of? : Call × Reply → Option Served
  | (.predict v timing, .prediction p) => some ⟨v, timing, p⟩
  | _ => none

/-- The record of a served prediction; only one that was not overridden has an inference time. -/
def record (s : Served) : Record where
  timestamp := s.timing.timestamp
  inputs := s.features
  mtu := s.answer.mtu
  raw := s.answer.raw
  isOverride := s.answer.isOverride
  inferenceMs := if s.answer.isOverride then none else some s.answer.inferenceMs

end Served

namespace Engine

variable {σ : Type} [Predictor σ]

/-- **Each way of answering a prediction leaves the record of that answer.** -/
theorem history_predict (e : Engine σ) (v : FeatureVector) (timing : Timing) :
    (e.predict v timing).2.history
      = e.history.push (Served.mk v timing (e.predict v timing).1).record := by
  rcases e.predict_cases v timing with ⟨mtu, -, heq⟩ | ⟨answer, raw, next, -, -, heq⟩ |
    ⟨fault, next, -, -, heq⟩
  all_goals
    rw [heq]
    rfl

end Engine

namespace Session

variable {σ : Type} [Predictor σ]

/-- The predictions that are served in the course of a list of calls, in order. -/
def served (s : Session σ) (calls : List Call) : List Served :=
  (calls.zip (s.replies calls)).filterMap Served.of?

/-- The records of the predictions that are served in the course of a list of calls. -/
def records (s : Session σ) (calls : List Call) : List Record := (s.served calls).map Served.record

theorem of?_step (s : Session σ) {call : Call} (h : call.asked? = none) :
    Served.of? (call, (s.step call).1) = none := by
  cases call with
  | predict v timing => cases h
  | _ => rfl

theorem served_cons (s : Session σ) (call : Call) (rest : List Call) :
    s.served (call :: rest)
      = (Served.of? (call, (s.step call).1)).toList ++ (s.step call).2.served rest := by
  simp only [served, replies_cons, List.zip_cons_cons, List.filterMap_cons]
  split <;> simp [*]

/-- Exactly the calls that ask for a prediction are served one. -/
theorem map_asked_served (s : Session σ) (calls : List Call) :
    (s.served calls).map (fun p => (p.features, p.timing)) = calls.filterMap Call.asked? := by
  unfold served
  induction calls generalizing s with
  | nil => rfl
  | cons call rest ih =>
      rw [replies_cons, List.zip_cons_cons]
      cases hasked : call.asked? with
      | none =>
          rw [List.filterMap_cons_none (s.of?_step hasked), List.filterMap_cons_none hasked, ih]
      | some asked =>
          cases call with
          | predict v timing =>
              exact congrArg ((v, timing) :: ·) (ih (s.step (.predict v timing)).2)
          | _ => cases hasked

/-! ### The history and the records -/

/-- The history grows by the records of what is served, in order, and by nothing else. -/
theorem history_after (s : Session σ) (calls : List Call) :
    (s.after calls).engine.history
      = (s.served calls).foldl (fun log p => log.push p.record) s.engine.history := by
  induction calls generalizing s with
  | nil => rfl
  | cons call rest ih =>
      rw [after_cons, ih, served_cons, List.foldl_append]
      congr 1
      cases hasked : call.asked? with
      | none =>
          rw [of?_step s hasked]
          exact (s.step_keeps hasked).history
      | some asked =>
          cases call with
          | predict v timing => exact s.engine.history_predict v timing
          | _ => cases hasked

/-- What an engine's history is after predictions with the given records. -/
structure Engine.Logs (e : Engine σ) (capacity : Nat) (records : List Record) : Prop where
  capacity : e.history.capacity = max 1 capacity
  remembers : e.history.Remembers records

/-- Every call keeps the history in step with the records. -/
theorem logs_step {s : Session σ} {capacity : Nat} {records : List Record}
    (h : Engine.Logs s.engine capacity records) (call : Call) :
    Engine.Logs (s.step call).2.engine capacity
      (records ++ ((Served.of? (call, (s.step call).1)).map Served.record).toList) := by
  cases hasked : call.asked? with
  | none =>
      have hkeeps := (s.step_keeps hasked).history
      rw [of?_step s hasked, Option.map_none, Option.toList_none, List.append_nil]
      exact ⟨hkeeps ▸ h.capacity, hkeeps ▸ h.remembers⟩
  | some asked =>
      cases call with
      | predict v timing =>
          have hpush := s.engine.history_predict v timing
          refine ⟨?_, ?_⟩
          · show (s.engine.predict v timing).2.history.capacity = max 1 capacity
            rw [hpush, BoundedLog.capacity_push]
            exact h.capacity
          · show (s.engine.predict v timing).2.history.Remembers _
            rw [hpush]
            exact h.remembers.push _
      | _ => cases hasked

/-- After any calls, the history is in step with the records of all of them. -/
theorem logs_after (config : EngineConfig) (model : σ) (directory : Directory)
    (calls : List Call) :
    Engine.Logs ((start config model directory).after calls).engine config.historyCapacity
      ((start config model directory).records calls) := by
  rw [records, served, zip_replies]
  refine invariant_run (P := fun past (now : Session σ) => Engine.Logs now.engine config.historyCapacity
    (((past.map fun m => (m.call, m.reply)).filterMap Served.of?).map Served.record)) ?_ ?_ calls
  · exact ⟨Nat.max_comm _ _, BoundedLog.remembers_empty config.historyCapacity⟩
  · intro past now call h
    rw [List.map_append, List.map_singleton, filterMap_concat, List.map_append, ← Option.toList_map]
    exact logs_step h call

/-- **The history of a run is the records of its last predictions, and the status tells of them.** -/
theorem history_replies (config : EngineConfig) (model : σ) (directory : Directory)
    (calls more : List Call) :
    let s := start config model directory
    let records := s.records calls
    let kept := min (max 1 config.historyCapacity) records.length
    (s.served calls).map (fun p => (p.features, p.timing)) = calls.filterMap Call.asked? ∧
    (s.replies (calls ++ .history none :: more))[calls.length]?
      = some (.records (records.rtake kept)) ∧
    (∀ limit, (s.replies (calls ++ .history (some limit) :: more))[calls.length]?
      = some (.records (records.rtake (min limit kept)))) ∧
    ∃ status, (s.replies (calls ++ .status :: more))[calls.length]? = some (.status status) ∧
      status.historySize = kept ∧ status.lastRecord = records.getLast? ∧
      status.override = overrideAfter config.initialOverride calls := by
  intro s records kept
  have hlogs : Engine.Logs (s.after calls).engine config.historyCapacity records :=
    logs_after config model directory calls
  refine ⟨s.map_asked_served calls, ?_, ?_, (s.after calls).engine.status, ?_, ?_, ?_, ?_⟩
  · rw [replies_getElem?, rtake_min_length, ← hlogs.capacity]
    exact congrArg (some ∘ Reply.records) hlogs.remembers
  · intro limit
    have hwindow : min limit kept = min (min limit (max 1 config.historyCapacity)) records.length :=
      (Nat.min_assoc _ _ _).symm
    rw [replies_getElem?, hwindow, rtake_min_length, ← hlogs.capacity]
    exact congrArg (some ∘ Reply.records) (hlogs.remembers.recent limit)
  · exact s.replies_getElem? calls more .status
  · show (s.after calls).engine.history.size = kept
    rw [hlogs.remembers.size, hlogs.capacity]
  · exact hlogs.remembers.last?
  · exact gate_after_start config model directory calls

end Session

end AdaptiveMtu
