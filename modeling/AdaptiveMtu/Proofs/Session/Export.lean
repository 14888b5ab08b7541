/-
Exported histories.

What is exported is the text of the history, and the file that it is written to holds just that text
afterwards.  The records in it have a time and an MTU that can be read back whatever the run was, so
the text can be read back exactly if no measurement in it is an infinity or NaN.  Setting a
measurement does not keep these out, and a single one in the history makes all of the file unreadable.
-/
import AdaptiveMtu.Model.Scripted
import AdaptiveMtu.Proofs.Engine.RecordCodec
import AdaptiveMtu.Proofs.Features.Building
import AdaptiveMtu.Proofs.Session.Answers
import AdaptiveMtu.Proofs.Session.History
import AdaptiveMtu.Proofs.Storage.Directory

namespace AdaptiveMtu

/-! ### Reading a history back -/

namespace History

/-- A record that can be read back if its measurements can. -/
structure Dated (r : Record) : Prop where
  timestamp : r.timestamp.isFinite = true
  mtu : r.mtu ≤ largestCount

/-- The MTU of a record, and whether it was an override. -/
def answer (r : Record) : Nat × Bool := (r.mtu, r.isOverride)

/-- **A history is read back if all its measurements are finite.** -/
theorem parse?_of_finite {records : List Record} (hdated : ∀ r ∈ records, Dated r)
    (h : ∀ r ∈ records, r.inputs.AllFinite) :
    ∃ read, parse? (textOf records) = some read ∧ read.map answer = records.map answer := by
  refine ⟨records.map fun r => { r with
    inputs := r.inputs.reread
    raw := Record.finiteOnly r.raw
    inferenceMs := Record.finiteOnly r.inferenceMs }, ?_, ?_⟩
  · rw [parse?_textOf]
    refine mapM_eq_some fun r hr => ?_
    rw [Record.ofJson?_toJson r (hdated r hr).timestamp (hdated r hr).mtu,
      FeatureVector.ofJson?_toJson (h r hr)]
    rfl
  · rw [List.map_map]
    rfl

/-- **It is not if one of them is not.** -/
theorem parse?_of_not_finite {records : List Record} {r : Record} (hdated : Dated r)
    (hr : r ∈ records) (h : ¬ r.inputs.AllFinite) : parse? (textOf records) = none := by
  rw [parse?_textOf]
  refine mapM_eq_none hr ?_
  rw [Record.ofJson?_toJson r hdated.timestamp hdated.mtu,
    FeatureVector.ofJson?_toJson_of_not_finite h]
  rfl

theorem parse?_cases {records : List Record} (hdated : ∀ r ∈ records, Dated r) :
    ((∀ r ∈ records, r.inputs.AllFinite) ∧
      ∃ read, parse? (textOf records) = some read ∧ read.map answer = records.map answer) ∨
    ((∃ r ∈ records, ¬ r.inputs.AllFinite) ∧ parse? (textOf records) = none) := by
  by_cases h : ∀ r ∈ records, r.inputs.AllFinite
  · exact .inl ⟨h, parse?_of_finite hdated h⟩
  · push Not at h
    obtain ⟨r, hr, hinfinite⟩ := h
    exact .inr ⟨⟨r, hr, hinfinite⟩, parse?_of_not_finite (hdated r hr) hr hinfinite⟩

end History

/-! ### What is in a history -/

/-- A call with a time that is a number, or with an override that fits its type. -/
def Call.Dated : Call → Prop
  | .predict _ timing => timing.timestamp.isFinite = true
  | .setOverride mtu => ∀ n ∈ mtu, n < wordLimit
  | _ => True

namespace Engine

variable {σ : Type}

/-- Every record and every answer to come has an MTU that is a count. -/
structure Dated (e : Engine σ) : Prop where
  records : ∀ r ∈ e.history.toList, History.Dated r
  override : ∀ n ∈ e.gate.value, n < wordLimit

theorem dated_push {e e' : Engine σ} {r : Record} (h : e.Dated)
    (hhistory : e'.history = e.history.push r) (hr : History.Dated r) (hgate : e'.gate = e.gate) :
    e'.Dated where
  records := by
    intro s hs
    rw [hhistory, BoundedLog.toList_push] at hs
    rcases List.mem_append.mp (List.mem_of_mem_drop hs) with hold | hnew
    · exact h.records s hold
    · rw [List.mem_singleton.mp hnew]
      exact hr
  override := by
    rw [hgate]
    exact h.override

variable [Predictor σ]

theorem dated_predict {e : Engine σ} {past : List Nat} (h : e.Dated) (hrecalls : e.Recalls past)
    (v : FeatureVector) {timing : Timing} (htime : timing.timestamp.isFinite = true) :
    (e.predict v timing).2.Dated := by
  have hmax : e.bounds.max ≤ largestCount := e.bounds.max_le_largest.trans (by decide)
  have hgate := (e.predict_keeps v timing).2
  refine dated_push h (e.history_predict v timing) ⟨htime, ?_⟩ hgate
  rcases e.predict_cases v timing with ⟨mtu, hoverride, heq⟩ | ⟨answer, raw, next, -, -, heq⟩ |
    ⟨fault, next, -, -, heq⟩
  · rw [heq]
    exact (h.override mtu hoverride).le.trans (by decide)
  · rw [heq]
    exact (e.settle_mem answer raw).2.trans hmax
  · rw [heq]
    exact hrecalls.fallback_mem.2.trans hmax

end Engine

namespace Session

variable {σ : Type} [Predictor σ]

theorem dated_step {s : Session σ} {past : List Nat} {call : Call} (h : s.engine.Dated)
    (hrecalls : s.engine.Recalls past) (hcall : call.Dated) : (s.step call).2.engine.Dated := by
  cases hasked : call.asked? with
  | none =>
      refine ⟨?_, ?_⟩
      · rw [(s.step_keeps hasked).history]
        exact h.records
      · rw [s.gate_step call]
        cases call with
        | setOverride mtu => exact hcall
        | predict v timing => cases hasked
        | _ => exact h.override
  | some asked =>
      cases call with
      | predict v timing => exact Engine.dated_predict h hrecalls v hcall
      | _ => cases hasked

theorem dated_after {s : Session σ} {past : List Nat} (h : s.engine.Dated)
    (hrecalls : s.engine.Recalls past) {calls : List Call} (hcalls : ∀ call ∈ calls, call.Dated) :
    (s.after calls).engine.Dated := by
  induction calls generalizing s past with
  | nil => exact h
  | cons call rest ih =>
      exact ih (dated_step h hrecalls (hcalls call List.mem_cons_self)) (recalls_step hrecalls call)
        fun other hother => hcalls other (List.mem_cons_of_mem call hother)

theorem dated_start {config : EngineConfig} (hconfig : ∀ n ∈ config.initialOverride, n < wordLimit)
    (model : σ) (directory : Directory) {calls : List Call} (hcalls : ∀ call ∈ calls, call.Dated) :
    ((start config model directory).after calls).engine.Dated := by
  refine dated_after ⟨?_, ?_⟩ (Engine.recalls_withModel config model) hcalls
  · intro r hr
    cases hr
  · show ∀ n ∈ (OverrideGate.ofOption config.initialOverride).value, n < wordLimit
    rw [OverrideGate.value_ofOption]
    exact hconfig

/-- The measurements in a history are those that predictions were asked for. -/
theorem asked_of_mem_history (config : EngineConfig) (model : σ) (directory : Directory)
    {calls : List Call} {r : Record}
    (hr : r ∈ ((start config model directory).after calls).engine.history.toList) :
    ∃ call ∈ calls, ∃ timing, call.asked? = some (r.inputs, timing) := by
  rw [(logs_after config model directory calls).remembers] at hr
  obtain ⟨served, hserved, rfl⟩ := List.mem_map.mp (List.mem_of_mem_drop hr)
  have hasked := List.mem_map_of_mem (f := fun p : Served => (p.features, p.timing)) hserved
  rw [map_asked_served] at hasked
  obtain ⟨call, hcall, heq⟩ := List.mem_filterMap.mp hasked
  exact ⟨call, hcall, served.timing, heq⟩

/-! ### Exporting -/

/-- A successful export tells how many records there are and leaves their text under its path. -/
theorem step_exportHistory {s : Session σ} {path : String} {written : Nat}
    (h : (s.step (.exportHistory path)).1 = .exported (.ok written)) :
    written = s.engine.history.toList.length ∧
      (s.step (.exportHistory path)).2.directory.readText path
        = .ok (History.textOf s.engine.history.toList) := by
  cases hwrite : s.directory.write path (History.textOf s.engine.history.toList).toUTF8 with
  | error fault =>
      simp only [step, Engine.exportHistory, History.writeTo, hwrite] at h
      cases h
  | ok next =>
      simp only [step, Engine.exportHistory, History.writeTo, hwrite] at h ⊢
      cases h
      exact ⟨s.engine.history.size_eq, Directory.readText_write hwrite⟩

/-- **What was exported can be read back just if all its measurements are finite, and it then answers as
the history does.**  They are finite if all conditions were built by way of finite numbers. -/
theorem exported_text_readable {config : EngineConfig}
    (hconfig : ∀ n ∈ config.initialOverride, n < wordLimit) (model : σ) (directory : Directory)
    {calls more : List Call} (hcalls : ∀ call ∈ calls, call.Dated) {path : String} {written : Nat} :
    let s := start config model directory
    (s.replies (calls ++ .exportHistory path :: more))[calls.length]?
        = some (.exported (.ok written)) →
      ∃ records text,
        (s.replies (calls ++ .history none :: more))[calls.length]? = some (.records records) ∧
        written = records.length ∧
        (s.after (calls ++ [.exportHistory path])).directory.readText path = .ok text ∧
        ((∀ r ∈ records, r.inputs.AllFinite) ∧
            (∃ read, History.parse? text = some read ∧
              read.map History.answer = records.map History.answer) ∨
          (∃ r ∈ records, ¬ r.inputs.AllFinite) ∧ History.parse? text = none) ∧
        ((∀ call ∈ calls, ∀ asked ∈ call.asked?, asked.1.FromNumbers) →
          ∀ r ∈ records, r.inputs.AllFinite) := by
  intro s hexported
  rw [replies_getElem?] at hexported
  obtain ⟨hwritten, htext⟩ := step_exportHistory (Option.some.inj hexported)
  have hdated : ∀ r ∈ (s.after calls).engine.history.toList, History.Dated r :=
    (dated_start hconfig model directory hcalls).records
  refine ⟨(s.after calls).engine.history.toList, History.textOf (s.after calls).engine.history.toList,
    s.replies_getElem? calls more _, hwritten, ?_, ?_, ?_⟩
  · rw [after_append]
    exact htext
  · exact History.parse?_cases hdated
  · intro hbuilt r hr
    obtain ⟨call, hcall, timing, hasked⟩ := asked_of_mem_history config model directory hr
    exact (hbuilt call hcall _ hasked).allFinite

/-! ### Two exports -/

theorem write_log (contents : ByteArray) :
    Directory.empty.write "log" contents = .ok (Directory.empty.put ["log"] contents) := by
  have hnames : Directory.namesToWrite "log" = ["log"] := by cbv
  rw [Directory.write, hnames, Directory.walk]
  rfl

/-- A fresh engine around a model that always answers 1500, next to an empty directory. -/
def rehearsal : Session Scripted := start .standard (.ofScript [.mtu 1500 none] [] false) .empty

/-- Asking for a prediction under the given conditions. -/
def asking (v : FeatureVector) : Call := .predict v ⟨1700000000, 0.5⟩

theorem exports_asked (v : FeatureVector) :
    (rehearsal.replies ([asking v] ++ .exportHistory "log" :: []))[[asking v].length]?
      = some (.exported (.ok 1)) := by
  rw [replies_getElem?]
  simp only [step, Engine.exportHistory, History.writeTo]
  rw [show (rehearsal.after [asking v]).directory = Directory.empty from rfl, write_log]
  rfl

theorem clean_export_readable :
    let calls := [asking (.ofEntries [("loss_rate", 0.25)])]
    ∃ text read,
      (rehearsal.after (calls ++ [.exportHistory "log"])).directory.readText "log" = .ok text ∧
      History.parse? text = some read ∧ read.map History.answer = [(1500, false)] := by
  intro calls
  have hcalls : ∀ call ∈ calls, call.Dated := by
    intro call hcall
    rw [List.mem_singleton.mp hcall]
    show (1700000000 : Float).isFinite = true
    decide +kernel
  obtain ⟨records, text, hrecords, -, htext, hread, hbuilt⟩ :=
    exported_text_readable (by simp [EngineConfig.standard])
      (Scripted.ofScript [.mtu 1500 none] [] false) .empty hcalls (exports_asked _)
  have hanswers : records.map History.answer = [(1500, false)] := by
    rw [replies_getElem?] at hrecords
    cases hrecords
    rfl
  have hfinite : ∀ r ∈ records, r.inputs.AllFinite := by
    refine hbuilt fun call hcall asked hasked => ?_
    rw [List.mem_singleton.mp hcall] at hasked
    cases hasked
    exact .ofEntries _
  rcases hread with ⟨-, read, hparse, hsame⟩ | ⟨⟨r, hr, hinfinite⟩, -⟩
  · exact ⟨text, read, htext, hparse, hsame.trans hanswers⟩
  · exact absurd (hfinite r hr) hinfinite

/-- A loss that is set to NaN is exported without complaint, and the text cannot be read back. -/
theorem undefined_loss_export_unreadable :
    let calls := [asking (FeatureVector.empty.set .loss (0 / 0))]
    (rehearsal.replies (calls ++ [.exportHistory "log"]))[1]? = some (.exported (.ok 1)) ∧
    ∃ text,
      (rehearsal.after (calls ++ [.exportHistory "log"])).directory.readText "log" = .ok text ∧
      History.parse? text = none := by
  intro calls
  have hexported := exports_asked (FeatureVector.empty.set .loss (0 / 0))
  refine ⟨hexported, History.textOf (rehearsal.after calls).engine.history.toList, ?_, ?_⟩
  · rw [replies_getElem?] at hexported
    rw [after_append]
    exact (step_exportHistory (Option.some.inj hexported)).2
  · refine @History.parse?_of_not_finite _ ⟨1700000000, FeatureVector.empty.set .loss (0 / 0), 1500,
      none, false, some 0.5⟩ ⟨?_, ?_⟩ (List.mem_singleton.mpr rfl) ?_
    · show (1700000000 : Float).isFinite = true
      decide +kernel
    · show 1500 ≤ largestCount
      decide
    · intro hfinite
      have hnan : (Binary64.clamp 0 1 (0 / 0)).isFinite = true := hfinite .loss _ rfl
      revert hnan
      decide +kernel

end Session

end AdaptiveMtu
