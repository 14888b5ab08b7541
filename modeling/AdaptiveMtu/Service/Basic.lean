/-
The prediction service: an engine driven by a loop on a clock.

At each tick the loop takes one reading from its source, asks the engine and hands the answer to its
callback. A failing source makes the tick do nothing; a failing callback changes nothing at all. The clock
is a number of milliseconds that moves only when it is told to, and a loop gets on only when it is given a
turn, so a run of the service is a function of what it is told.

Starting sets a flag and leaves a new loop and a handle on it behind; stopping clears the flag and ends the
loop that the handle names. A loop looks at the flag only once its timer has come, and nothing in the state
keeps several loops from being alive.
-/
import AdaptiveMtu.Engine.Basic
import AdaptiveMtu.Service.Schedule

namespace AdaptiveMtu

/-- What receives predictions; it may fail. -/
abbrev Callback := Prediction → Except Error Unit

/-- A tick of a loop. -/
structure LoopTick where
  /-- Which start the loop came from, counted from one. -/
  start : Nat
  /-- When the loop's timer began. -/
  startedAt : Nat
  /-- When the tick was due. -/
  deadline : Nat
deriving DecidableEq

/-- A prediction that was handed over. -/
structure Delivery where
  prediction : Prediction
  /-- When it was handed over. -/
  instant : Nat
  /-- The tick of the loop that it came from; nothing for a tick outside the loop. -/
  origin : Option LoopTick
  /-- What the callback answered. -/
  report : Except Error Unit

/-- A loop that has neither ended nor been aborted. -/
structure Loop where
  callback : Callback
  /-- Which start it came from, counted from one; a handle names the loop by it. -/
  start : Nat
  /-- Its timer, which begins with the first turn. -/
  ticker : Option Ticker

namespace Loop

/-- The timer of a loop, or one that begins now. -/
def timer (loop : Loop) (now : Nat) : Ticker := loop.ticker.getD (.beginning now)

/-- Whether the timer has come. -/
def isDue (loop : Loop) (now : Nat) : Bool := (loop.timer now).deadline ≤ now

end Loop

/-- A service around an engine. -/
structure Service (σ : Type) where
  engine : Engine σ
  /-- What the source gives, reading by reading; after the last it fails. -/
  readings : List (Except Error FeatureVector)
  /-- The time between two ticks in milliseconds. -/
  period : Nat
  now : Nat
  /-- Whether the service was started and not stopped since; all loops look at the same flag. -/
  running : Bool
  loops : List Loop
  /-- The loop that stopping will abort. -/
  handle : Option Nat
  /-- How many times the loop was started. -/
  starts : Nat
  /-- The features of the most recent prediction. -/
  lastFeatures : Option FeatureVector

namespace Service

variable {σ : Type}

/-- A service at rest, at time zero. -/
def create (engine : Engine σ) (readings : List (Except Error FeatureVector)) (period : Nat) :
    Service σ :=
  ⟨engine, readings, period, 0, false, [], none, 0, none⟩

/-- Whether the service says that it is running. -/
def isRunning (s : Service σ) : Bool := s.running

/-! ### One tick -/

/-- The next reading, and the service after taking it. -/
def takeReading (s : Service σ) : Option FeatureVector × Service σ :=
  match s.readings with
  | [] => (none, s)
  | .error _ :: rest => (none, { s with readings := rest })
  | .ok v :: rest => (some v, { s with readings := rest })

/-- One tick: the prediction that was handed to the callback, unless the source failed. -/
def tickWith [Predictor σ] (s : Service σ) (callback : Callback) (origin : Option LoopTick)
    (timing : Timing) : Option Delivery × Service σ :=
  match s.takeReading with
  | (none, s) => (none, s)
  | (some v, s) =>
    let (prediction, engine) := s.engine.predict v timing
    (some ⟨prediction, s.now, origin, callback prediction⟩,
      { s with engine := engine, lastFeatures := some v })

/-- One tick outside the loop. -/
def tick [Predictor σ] (s : Service σ) (callback : Callback) (timing : Timing) :
    Option Delivery × Service σ :=
  s.tickWith callback none timing

/-! ### Loops -/

/-- The service without the loop of a start. -/
def dropLoop (s : Service σ) (start : Nat) : Service σ :=
  { s with loops := s.loops.filter (·.start != start) }

/-- The service with another timer for the loop of a start. -/
def setTicker (s : Service σ) (start : Nat) (ticker : Ticker) : Service σ :=
  { s with loops := s.loops.map fun loop =>
      if loop.start = start then { loop with ticker := some ticker } else loop }

/-- One turn of a loop, if it is alive: it waits for its timer, looks at the flag, and then either ticks
or ends. A loop without a period ends at its first turn. -/
def turn [Predictor σ] (s : Service σ) (start : Nat) (timing : Timing) :
    Option Delivery × Service σ :=
  match s.loops.find? (·.start = start) with
  | none => (none, s)
  | some loop =>
    if s.period = 0 then (none, s.dropLoop start)
    else
      let ticker := loop.timer s.now
      if s.now < ticker.deadline then (none, s.setTicker start ticker)
      else if s.running then
        let origin : LoopTick := ⟨start, ticker.startedAt, ticker.deadline⟩
        let (delivery, next) := s.tickWith loop.callback (some origin) timing
        (delivery, next.setTicker start (ticker.next s.period s.now))
      else (none, s.dropLoop start)

/-- Turns of loops that are due, at most `count` of them. -/
def runDue [Predictor σ] (timing : Timing) :
    (count : Nat) → Service σ → List Delivery × Service σ
  | 0, s => ([], s)
  | count + 1, s =>
    match s.loops.find? (·.isDue s.now) with
    | none => ([], s)
    | some loop =>
      let (delivery, s) := s.turn loop.start timing
      let (deliveries, s) := runDue timing count s
      (delivery.toList ++ deliveries, s)

/-- How many turns can be due: each moves a deadline on by at least a millisecond. -/
def dueLimit (s : Service σ) : Nat :=
  s.loops.foldl (fun limit loop => limit + (s.now + 1 - (loop.timer s.now).deadline)) 0

/-- All turns that are due. -/
def catchUp [Predictor σ] (s : Service σ) (timing : Timing) : List Delivery × Service σ :=
  runDue timing s.dueLimit s

/-- When a loop is due next, if one is alive. -/
def nextDeadline? (s : Service σ) : Option Nat :=
  (s.loops.map fun loop => (loop.timer s.now).deadline).min?

/-! ### Starting, stopping and the clock -/

/-- Starting the service: the flag is set, and a new loop waits for its first turn. A service that is
running already goes on as it is. -/
def launch (s : Service σ) (callback : Callback) : Except Error (Service σ) :=
  if s.running then .error (.argument .alreadyRunning)
  else
    let count := s.starts + 1
    .ok { s with
      running := true
      loops := s.loops ++ [⟨callback, count, none⟩]
      handle := some count
      starts := count }

/-- Starting the service, and giving the loop its first turn at once. -/
def start [Predictor σ] (s : Service σ) (callback : Callback) (timing : Timing) :
    Except Error (List Delivery × Service σ) :=
  (s.launch callback).map (·.catchUp timing)

/-- Stopping the service: the flag is cleared, and the loop that the handle names is aborted. -/
def stop (s : Service σ) : Service σ :=
  match s.handle with
  | none => { s with running := false }
  | some start => { s.dropLoop start with running := false, handle := none }

/-- Moving the clock on, while no loop gets a turn. -/
def pass (s : Service σ) (ms : Nat) : Service σ := { s with now := s.now + ms }

/-- Moving the clock on, and then giving all turns that are due. -/
def advance [Predictor σ] (s : Service σ) (ms : Nat) (timing : Timing) :
    List Delivery × Service σ :=
  (s.pass ms).catchUp timing

/-! ### Feedback -/

/-- Teaching the model the best MTU for the conditions that were read last. -/
def reportObserved [Predictor σ] (s : Service σ) (mtu : Nat) : Except Error Unit × Service σ :=
  match s.lastFeatures with
  | none => (.error (.argument .nothingSampled), s)
  | some v =>
    let (report, engine) := s.engine.update v mtu
    (report, { s with engine := engine })

end Service

end AdaptiveMtu
