/-
Sessions: an engine, the directory that it writes to, and the calls that are made on them.

One call is one step with one reply, and a run is the steps of a list of calls in order. What an engine
does over time is thus a function of the calls, and can be talked about as one.
-/
import AdaptiveMtu.Engine.Basic

namespace AdaptiveMtu

/-- A call on an engine. -/
inductive Call where
  | predict (v : FeatureVector) (timing : Timing)
  | update (v : FeatureVector) (mtu : Nat)
  | setOverride (mtu : Option Nat)
  | history (limit : Option Nat)
  | status
  | metrics
  | exportHistory (path : String)

/-- What an engine replies to a call. -/
inductive Reply where
  | prediction (p : Prediction)
  | report (r : Except Error Unit)
  | override (mtu : Option Nat)
  | records (rs : List Record)
  | status (s : EngineStatus)
  | metrics (ms : List (String × MetricValue))
  /-- How many records were written. -/
  | exported (r : Except Error Nat)

/-- An engine and the directory that it writes to. -/
structure Session (σ : Type) where
  engine : Engine σ
  directory : Directory

namespace Session

variable {σ : Type} [Predictor σ]

/-- One call: the reply, and the session afterwards. -/
def step (s : Session σ) : Call → Reply × Session σ
  | .predict v timing =>
    let (p, e) := s.engine.predict v timing
    (.prediction p, { s with engine := e })
  | .update v mtu =>
    let (r, e) := s.engine.update v mtu
    (.report r, { s with engine := e })
  | .setOverride mtu =>
    let e := s.engine.setOverride mtu
    (.override e.gate.value, { s with engine := e })
  | .history limit => (.records (s.engine.history.select limit), s)
  | .status => (.status s.engine.status, s)
  | .metrics => (.metrics s.engine.metricsSnapshot, s)
  | .exportHistory path =>
    match s.engine.exportHistory s.directory path with
    | .error fault => (.exported (.error fault), s)
    | .ok (written, d) => (.exported (.ok written), { s with directory := d })

/-- The replies to a list of calls, in order, and the session afterwards. -/
def run (s : Session σ) : List Call → List Reply × Session σ
  | [] => ([], s)
  | call :: rest =>
    let (reply, s) := s.step call
    let (replies, s) := s.run rest
    (reply :: replies, s)

end Session

end AdaptiveMtu
