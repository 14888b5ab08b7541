/-
Ticks, reports and overrides without a loop.

A service keeps four things that have to stay in step: where its source is, what it read last, its
engine's log, and what it has handed over.  Ticks take the readings one by one, so the good readings that the
ticks of a run come upon are known from the start (`samples`), and the run amounts to calls on the
engine (`requests`).  `Followed` says that the service is where these calls leave a session, and has handed
over one answer for each good reading.
-/
import AdaptiveMtu.Model.Scripted
import AdaptiveMtu.Service.Session
import AdaptiveMtu.Proofs.Session.History

namespace AdaptiveMtu

namespace Act

/-- A tick outside the loop, a report, or another override. -/
def IsDirect : Act → Prop
  | .tick _ _ | .reportObserved _ | .setOverride _ => True
  | _ => False

/-- The callback and the timing of a tick. -/
def tick? : Act → Option (Callback × Timing)
  | .tick callback timing => some (callback, timing)
  | _ => none

/-- The act with a callback that never fails. -/
def silent : Act → Act
  | .tick _ timing => .tick (fun _ => .ok ()) timing
  | a => a

end Act

/-- A tick that came upon a good reading. -/
structure Sample where
  callback : Callback
  timing : Timing
  features : FeatureVector

namespace Sample

/-- The tick with a reading, if that is a good one. -/
def of? : (Callback × Timing) × Except Error FeatureVector → Option Sample
  | ((callback, timing), .ok v) => some ⟨callback, timing, v⟩
  | (_, .error _) => none

/-- What a tick hands over. -/
def delivery (x : Sample) (now : Nat) (answer : Prediction) : Delivery :=
  ⟨answer, now, none, x.callback answer⟩

end Sample

namespace Service

variable {σ : Type}

/-- The ticks among some acts that come upon a good reading; each tick takes one reading, in order. -/
def samples (s : Service σ) (acts : List Act) : List Sample :=
  ((acts.filterMap Act.tick?).zip s.readings).filterMap Sample.of?

/-- The call on the engine that an act amounts to. -/
def request? (s : Service σ) : Act → Option Call
  | .tick _ timing => s.takeReading.1.map (.predict · timing)
  | .reportObserved mtu => s.lastFeatures.map (.update · mtu)
  | .setOverride mtu => some (.setOverride mtu)
  | _ => none

theorem exists_reading {s : Service σ} (h : ¬ s.takeReading.1 = none) :
    ∃ v more, s.readings = .ok v :: more := by
  unfold takeReading at h
  split at h
  · exact absurd rfl h
  · exact absurd rfl h
  · exact ⟨_, _, ‹_›⟩

theorem samples_cons_bad {s : Service σ} (h : s.takeReading.1 = none) (callback : Callback)
    (timing : Timing) (rest : List Act) :
    s.samples (.tick callback timing :: rest)
      = { s with readings := s.readings.tail }.samples rest := by
  unfold samples
  cases hreadings : s.readings with
  | nil => simp
  | cons reading more =>
      cases reading with
      | error fault => rfl
      | ok v => simp [takeReading, hreadings] at h

variable [Predictor σ]

/-- The calls on the engine that some acts amount to, each with what the service knows by then. -/
def requests (s : Service σ) : List Act → List Call
  | [] => []
  | a :: rest => (s.request? a).toList ++ (s.act a).2.requests rest

/-! ### One act -/

theorem act_tick_good {s : Service σ} {v : FeatureVector} {rest : List (Except Error FeatureVector)}
    (h : s.readings = .ok v :: rest) (callback : Callback) (timing : Timing) :
    s.act (.tick callback timing) =
      (⟨.ok (), [(Sample.mk callback timing v).delivery s.now (s.engine.predict v timing).1]⟩,
        { s with
          readings := rest
          engine := (s.engine.predict v timing).2
          lastFeatures := some v }) := by
  simp only [act, tick, tickWith, takeReading, h]
  rfl

/-- A tick without a good reading uses the reading up, and that is all. -/
theorem act_tick_bad {s : Service σ} (h : s.takeReading.1 = none) (callback : Callback)
    (timing : Timing) :
    s.act (.tick callback timing) = (⟨.ok (), []⟩, { s with readings := s.readings.tail }) := by
  obtain ⟨engine, readings, period, now, running, loops, handle, starts, last⟩ := s
  cases readings with
  | nil => rfl
  | cons reading rest =>
      cases reading with
      | error fault => rfl
      | ok v => cases h

/-- A report before anything was read is refused. -/
theorem act_report_unread {s : Service σ} (h : s.lastFeatures = none) (mtu : Nat) :
    s.act (.reportObserved mtu) = (⟨.error (.argument .nothingSampled), []⟩, s) := by
  simp only [act, reportObserved, h]

/-- A report is an update for what was read last. -/
theorem act_report_read {s : Service σ} {v : FeatureVector} (h : s.lastFeatures = some v) (mtu : Nat) :
    s.act (.reportObserved mtu) =
      (⟨(s.engine.update v mtu).1, []⟩, { s with engine := (s.engine.update v mtu).2 }) := by
  simp only [act, reportObserved, h]

/-! ### A run of direct acts -/

/-- A service is where the requests of its acts leave a session, and has handed over what the session
served. -/
structure Followed (s : Service σ) (acts : List Act) (session : Session σ) : Prop where
  engine : (s.after acts).engine = (session.after (s.requests acts)).engine
  now : (s.after acts).now = s.now
  readings : (s.after acts).readings = s.readings.drop (acts.filterMap Act.tick?).length
  lastFeatures : (s.after acts).lastFeatures
    = ((s.samples acts).getLast?.map Sample.features).or s.lastFeatures
  asked : (session.served (s.requests acts)).map (fun p => (p.features, p.timing))
    = (s.samples acts).map fun x => (x.features, x.timing)
  deliveries : s.deliveries acts = List.zipWith (fun x p => x.delivery s.now p.answer) (s.samples acts)
    (session.served (s.requests acts))

/-- An act that comes upon no good reading and asks for no prediction. -/
theorem Followed.cons_quiet {s next : Service σ} {a : Act} {rest : List Act} {session : Session σ}
    {call? : Option Call} {report : Except Error Unit} (hact : s.act a = (⟨report, []⟩, next))
    (hrequest : s.request? a = call?) (hcall : ∀ call ∈ call?, call.asked? = none)
    (hsamples : s.samples (a :: rest) = next.samples rest) (hnow : next.now = s.now)
    (hlast : next.lastFeatures = s.lastFeatures)
    (hreadings : next.readings.drop (rest.filterMap Act.tick?).length
      = s.readings.drop ((a :: rest).filterMap Act.tick?).length)
    (h : Followed next rest (session.after call?.toList)) : Followed s (a :: rest) session := by
  have hrequests : s.requests (a :: rest) = call?.toList ++ next.requests rest := by
    rw [requests, hrequest, hact]
  have hserved : session.served (s.requests (a :: rest))
      = (session.after call?.toList).served (next.requests rest) := by
    rw [hrequests]
    cases call? with
    | none => rfl
    | some call =>
        rw [Option.toList_some, List.singleton_append, Session.served_cons,
          session.of?_step (hcall call rfl)]
        rfl
  refine ⟨?_, ?_, ?_, ?_, ?_, ?_⟩
  · rw [after_cons, hact, h.engine, hrequests, Session.after_append]
  · rw [after_cons, hact, h.now, hnow]
  · rw [after_cons, hact, h.readings, hreadings]
  · rw [after_cons, hact, h.lastFeatures, hsamples, hlast]
  · rw [hserved, hsamples, h.asked]
  · rw [deliveries_cons, hact, List.nil_append, h.deliveries, hserved, hsamples, hnow]

/-- A tick that comes upon a good reading. -/
theorem Followed.cons_tick {s : Service σ} {callback : Callback} {timing : Timing} {v : FeatureVector}
    {more : List (Except Error FeatureVector)} {rest : List Act} {session : Session σ}
    (hreadings : s.readings = .ok v :: more) (hengine : session.engine = s.engine)
    (h : Followed (s.act (.tick callback timing)).2 rest (session.step (.predict v timing)).2) :
    Followed s (.tick callback timing :: rest) session := by
  obtain ⟨x, hx⟩ : ∃ x, Sample.mk callback timing v = x := ⟨_, rfl⟩
  have hact := act_tick_good hreadings callback timing
  have hnext : (s.act (.tick callback timing)).2.lastFeatures = some v := by rw [hact]
  have hmore : (s.act (.tick callback timing)).2.readings = more := by rw [hact]
  have hnow : (s.act (.tick callback timing)).2.now = s.now := by rw [hact]
  have hdelivered : (s.act (.tick callback timing)).1.delivered
      = [x.delivery s.now (s.engine.predict v timing).1] := by rw [hact, hx]
  have hsamples : s.samples (.tick callback timing :: rest)
      = x :: (s.act (.tick callback timing)).2.samples rest := by
    rw [← hx, samples, samples, hreadings, hmore]
    rfl
  have hrequests : s.requests (.tick callback timing :: rest)
      = .predict v timing :: (s.act (.tick callback timing)).2.requests rest := by
    rw [requests, request?, takeReading, hreadings]
    rfl
  have hserved : session.served (s.requests (.tick callback timing :: rest))
      = ⟨v, timing, (s.engine.predict v timing).1⟩ ::
        (session.step (.predict v timing)).2.served
          ((s.act (.tick callback timing)).2.requests rest) := by
    rw [hrequests, Session.served_cons, ← hengine]
    rfl
  refine ⟨?_, ?_, ?_, ?_, ?_, ?_⟩
  · rw [after_cons, h.engine, hrequests, Session.after_cons]
  · rw [after_cons, h.now, hnow]
  · rw [after_cons, h.readings, hmore, hreadings]
    rfl
  · rw [after_cons, h.lastFeatures, hsamples, hnext, List.getLast?_cons, ← hx]
    cases ((s.act (.tick callback timing)).2.samples rest).getLast? <;> rfl
  · rw [hserved, hsamples, List.map_cons, List.map_cons, h.asked, ← hx]
  · rw [deliveries_cons, hdelivered, h.deliveries, hserved, hsamples, List.zipWith_cons_cons, hnow]
    rfl

/-- **A run of direct acts is the run of the calls that they amount to.** -/
theorem followed (s : Service σ) {acts : List Act} (hacts : ∀ a ∈ acts, a.IsDirect)
    {session : Session σ} (hengine : session.engine = s.engine) : Followed s acts session := by
  induction acts generalizing s session with
  | nil => exact ⟨hengine.symm, rfl, rfl, rfl, rfl, rfl⟩
  | cons a rest ih =>
      have hrest : ∀ a ∈ rest, a.IsDirect := fun a ha => hacts a (List.mem_cons_of_mem _ ha)
      have hdirect := hacts a List.mem_cons_self
      cases a with
      | tick callback timing =>
          by_cases hbad : s.takeReading.1 = none
          · have hrequest : s.request? (.tick callback timing) = none := by
              rw [request?, hbad, Option.map_none]
            refine Followed.cons_quiet (act_tick_bad hbad callback timing) hrequest (by simp)
              (samples_cons_bad hbad callback timing rest) rfl rfl ?_ (ih _ hrest hengine)
            simp [Act.tick?, Nat.add_comm]
          · obtain ⟨v, more, hreadings⟩ := exists_reading hbad
            refine Followed.cons_tick hreadings hengine (ih _ hrest ?_)
            rw [act_tick_good hreadings]
            simp only [Session.step, hengine]
      | reportObserved mtu =>
          cases hlast : s.lastFeatures with
          | none =>
              have hrequest : s.request? (.reportObserved mtu) = none := by
                rw [request?, hlast, Option.map_none]
              exact Followed.cons_quiet (act_report_unread hlast mtu) hrequest (by simp) rfl rfl rfl rfl
                (ih _ hrest hengine)
          | some v =>
              have hrequest : s.request? (.reportObserved mtu) = some (.update v mtu) := by
                rw [request?, hlast, Option.map_some]
              refine Followed.cons_quiet (act_report_read hlast mtu) hrequest (by simp [Call.asked?]) rfl
                rfl rfl rfl (ih _ hrest ?_)
              simp only [Option.toList_some, Session.after_cons, Session.after_nil, Session.step, hengine]
      | setOverride mtu =>
          have hrequest : s.request? (.setOverride mtu) = some (.setOverride mtu) := rfl
          refine Followed.cons_quiet rfl hrequest (by simp [Call.asked?]) rfl rfl rfl rfl
            (ih _ hrest ?_)
          simp only [Option.toList_some, Session.after_cons, Session.after_nil, Session.step, hengine]
      | _ => exact hdirect.elim

/-! ### What the callbacks answer -/

/-- What a callback answers is of no consequence. -/
theorem act_silent (s : Service σ) (a : Act) :
    (s.act a.silent).2 = (s.act a).2 ∧
      (s.act a.silent).1.delivered.map (·.prediction) = (s.act a).1.delivered.map (·.prediction) := by
  cases a with
  | tick callback timing =>
      by_cases hbad : s.takeReading.1 = none
      · rw [Act.silent, act_tick_bad hbad, act_tick_bad hbad]
        exact ⟨rfl, rfl⟩
      · obtain ⟨v, more, hreadings⟩ := exists_reading hbad
        rw [Act.silent, act_tick_good hreadings, act_tick_good hreadings]
        exact ⟨rfl, rfl⟩
  | _ => exact ⟨rfl, rfl⟩

theorem after_silent (s : Service σ) (acts : List Act) :
    s.after (acts.map Act.silent) = s.after acts ∧
      (s.deliveries (acts.map Act.silent)).map (·.prediction)
        = (s.deliveries acts).map (·.prediction) := by
  induction acts generalizing s with
  | nil => exact ⟨rfl, rfl⟩
  | cons a rest ih =>
      obtain ⟨hafter, hdelivered⟩ := s.act_silent a
      rw [List.map_cons, after_cons, after_cons, deliveries_cons, deliveries_cons, List.map_append,
        List.map_append, hafter, hdelivered, (ih _).2]
      exact ⟨(ih _).1, rfl⟩

/-! ### The control loop -/

/-- **What a service hands over, logs, learns and remembers, over any direct acts.**  Every good reading is
predicted for once, logged and handed over; no other reading and no callback leaves a trace. -/
theorem control_loop (s : Service σ) {acts : List Act} (hacts : ∀ a ∈ acts, a.IsDirect)
    (directory : Directory) :
    let session : Session σ := ⟨s.engine, directory⟩
    let samples := s.samples acts
    let served := session.served (s.requests acts)
    let now := s.after acts
    -- The engine goes through the requests, and its log through what they are served.
    now.engine = (session.after (s.requests acts)).engine ∧
    now.engine.history = served.foldl (fun log p => log.push p.record) s.engine.history ∧
    -- There is one prediction for each good reading, and it is handed over.
    served.map (fun p => (p.features, p.timing)) = samples.map (fun x => (x.features, x.timing)) ∧
    s.deliveries acts = List.zipWith (fun x p => x.delivery s.now p.answer) samples served ∧
    -- What was read last is remembered, and every tick takes one reading.
    now.lastFeatures = (samples.getLast?.map Sample.features).or s.lastFeatures ∧
    now.readings = s.readings.drop (acts.filterMap Act.tick?).length ∧
    -- Callbacks that fail make no difference.
    s.after (acts.map Act.silent) = now ∧
    (s.deliveries (acts.map Act.silent)).map (·.prediction)
      = (s.deliveries acts).map (·.prediction) ∧
    -- A tick whose reading fails does nothing, and a report teaches what was read last.
    (∀ callback timing, now.takeReading.1 = none →
      now.act (.tick callback timing) = (⟨.ok (), []⟩, { now with readings := now.readings.tail })) ∧
    (∀ mtu, now.lastFeatures = none →
      now.act (.reportObserved mtu) = (⟨.error (.argument .nothingSampled), []⟩, now)) ∧
    (∀ mtu v, now.lastFeatures = some v →
      now.act (.reportObserved mtu) =
        (⟨(now.engine.update v mtu).1, []⟩, { now with engine := (now.engine.update v mtu).2 })) := by
  intro session samples served now
  have hfollowed : Followed s acts session := s.followed hacts rfl
  refine ⟨hfollowed.engine, ?_, hfollowed.asked, hfollowed.deliveries, hfollowed.lastFeatures,
    hfollowed.readings, (s.after_silent acts).1, (s.after_silent acts).2, ?_, ?_, ?_⟩
  · rw [hfollowed.engine, Session.history_after]
  · intro callback timing hbad
    exact act_tick_bad hbad callback timing
  · intro mtu hunread
    exact act_report_unread hunread mtu
  · intro mtu v hread
    exact act_report_read hread mtu

/-- A service whose source fails once and then has one reading. -/
def stumbling : Service Scripted :=
  create (Engine.withModel .standard (.ofScript [.mtu 1500 none] [] false))
    [.error (.prediction (.reported "no reading")), .ok .empty] 1000

/-- Ticks before, upon and after the good reading, with a callback that fails, and reports around them. -/
def stumblingActs : List Act :=
  [.reportObserved 1400, .tick (fun _ => .ok ()) ⟨0, 1⟩,
    .tick (fun _ => .error (.prediction (.reported "not taken"))) ⟨1, 1⟩, .setOverride (some 9000),
    .tick (fun _ => .ok ()) ⟨2, 1⟩, .reportObserved 1400]

theorem stumbling_delivers_once :
    (∀ a ∈ stumblingActs, a.IsDirect) ∧
    (stumbling.deliveries stumblingActs).map (fun d => (d.prediction.mtu, d.report.isOk))
      = [(1500, false)] ∧
    (stumbling.after stumblingActs).engine.history.toList.map (·.mtu) = [1500] ∧
    (stumbling.after stumblingActs).lastFeatures = some .empty := by
  have hdirect : ∀ a ∈ stumblingActs, a.IsDirect := by simp [stumblingActs, Act.IsDirect]
  obtain ⟨-, hlog, -, hdeliveries, hlast, -⟩ := stumbling.control_loop hdirect .empty
  refine ⟨hdirect, ?_, ?_, ?_⟩
  · rw [hdeliveries]
    rfl
  · rw [hlog]
    rfl
  · rw [hlast]
    rfl

end Service

end AdaptiveMtu
