/-
The program: the prediction service on the machine's clock.

It reads its features from a file before every tick, or makes up the conditions of a wired path where no
file is named, and prints every MTU it decides on. The history file is written anew after each
decision, so that it is complete whenever the program is interrupted.

This is the outer layer. It reads files, the clock and chance, and leaves every decision to the library: the
files that a configuration names are read beforehand, and the library sees a `TextReader` over them.
-/
import AdaptiveMtu.CommandLine.Load
import AdaptiveMtu.Service.Basic
import Std.Time.DateTime.Timestamp

namespace AdaptiveMtu

namespace Program

/-- The models of the program have no leaves from outside. -/
abbrev BuiltModel := Model Empty

/-! ### Files -/

/-- The number of a system error, which comes with either sign. -/
def errorNumber (code : UInt32) : Nat := min code.toNat (wordLimit - code.toNat)

/-- A system error as a fault. -/
def faultOf : IO.Error → FileFault
  | .noFileOrDirectory _ _ _ => .notFound
  | e@(.inappropriateType _ code _) =>
    if errorNumber code = 20 then .notDirectory
    else if errorNumber code = 21 then .isDirectory
    else .other (toString e)
  | e => .other (toString e)

/-- The text of a file. -/
def readFile (path : String) : IO (Except FileFault String) := do
  try
    return decodeText (← IO.FS.readBinFile path)
  catch e =>
    return .error (faultOf e)

/-- What was read of some files. -/
abbrev Texts := List (String × Except FileFault String)

/-- The reader of what was read before. -/
def readerOf (texts : Texts) : TextReader := fun path =>
  (texts.lookup path).getD (.error .notFound)

/-- The texts of several files. -/
def readFiles (paths : List String) : IO Texts :=
  paths.mapM fun path => do return (path, ← readFile path)

/-! ### Readings -/

/-- A number between two bounds, by chance. -/
def between (low high : Float) : IO Float := do
  let part := Binary64.ofCount (← IO.rand 0 999999999) / 1000000000
  return low + part * (high - low)

/-- The jittered conditions of a typical wired path. -/
def syntheticReading : IO FeatureVector := do
  let v := FeatureVector.empty
  let v := v.set .rtt (← between 5 250)
  let v := v.set .throughput (← between 1000000 1000000000)
  let v := v.set .loss (← between 0 0.08)
  let v := v.withCongestionWindow (← IO.rand 4 39)
  let v := v.withAverageSize (← IO.rand 400 1599)
  let v := v.set .sizeDeviation (← between 50 400)
  return v.withNetwork .ethernet

/-- The next reading: from the features file, or made up. -/
def nextReading (o : Options) : IO (Except Error FeatureVector) := do
  match o.features with
  | some path => return FeatureVector.load (readerOf (← readFiles [path])) path
  | none => return .ok (← syntheticReading)

/-! ### Ticks -/

/-- The time now, and how long the model takes for a reading. -/
def timingOf (s : Service BuiltModel) (reading : Except Error FeatureVector) : IO Timing := do
  let since ← Std.Time.Timestamp.now
  let seconds := Binary64.ofCount since.toMillisecondsSinceUnixEpoch.toInt.toNat / 1000
  match reading with
  | .error _ => return ⟨seconds, 0⟩
  | .ok v =>
    let before ← IO.monoNanosNow
    let _ ← IO.lazyPure fun _ => (Engine.askModel s.engine.model v).1.toOption
    let after ← IO.monoNanosNow
    return ⟨seconds, Binary64.ofCount (after - before) / 1000000⟩

/-- One line for a prediction that was handed over. -/
def report (d : Delivery) : IO Unit := do
  IO.println <|
    "MTU decision mtu=" ++ toString d.prediction.mtu
    ++ " raw=" ++ d.prediction.raw.elim "none" NumberStyle.plainText
    ++ " inference_time_ms=" ++ NumberStyle.plainText d.prediction.inferenceMs
    ++ " is_override=" ++ toString d.prediction.isOverride
  (← IO.getStdout).flush

/-- Writing the history to the file that is named for it. -/
def writeHistory (o : Options) (s : Service BuiltModel) : IO Unit :=
  match o.exportPath with
  | none => pure ()
  | some path => do
    try
      IO.FS.writeFile path (History.textOf s.engine.history.toList)
    catch e =>
      IO.eprintln ("failed to export history to " ++ path ++ ": "
        ++ (Error.file (faultOf e)).message)

/-- Reporting what a tick came to. -/
def settle (o : Options) (reading : Except Error FeatureVector) (deliveries : List Delivery)
    (s : Service BuiltModel) : IO Unit := do
  match reading with
  | .error e => IO.eprintln ("failed to sample network features, skipping tick: " ++ e.message)
  | .ok _ => pure ()
  deliveries.forM report
  writeHistory o s

/-- Sleeping until a moment of the machine's clock, at most a minute at a time. -/
partial def sleepUntil (moment : Nat) : IO Unit := do
  let now ← IO.monoMsNow
  if now < moment then
    IO.sleep (UInt32.ofNat (min (moment - now) 60000))
    sleepUntil moment

/-- The ticks of a running service, whose clock began at the moment `origin`. -/
partial def run (o : Options) (origin : Nat) (s : Service BuiltModel) : IO Unit := do
  match s.nextDeadline? with
  | none =>
    -- The loop has ended, and the program waits to be interrupted.
    IO.sleep 60000
    run o origin s
  | some deadline =>
    sleepUntil (origin + deadline)
    let reading ← nextReading o
    let timing ← timingOf s reading
    let elapsed := (← IO.monoMsNow) - origin
    let (deliveries, s) := { s with readings := [reading] }.advance (elapsed - s.now) timing
    settle o reading deliveries s
    run o origin s

/-- Starting the service of an engine and running it until it is interrupted. -/
def serveWith (o : Options) (config : EngineConfig) (engine : Engine BuiltModel) : IO UInt32 := do
  let reading ← nextReading o
  let s := Service.create engine [reading] config.intervalMs
  let timing ← timingOf s reading
  IO.println ("MTU engine running " ++ Predictor.typeName engine.model)
  match s.start (fun _ => .ok ()) timing with
  | .error e =>
    IO.eprintln e.message
    return 1
  | .ok (deliveries, s) =>
    let origin ← IO.monoMsNow
    settle o reading deliveries s
    run o origin s
    return 0

/-- Making the engine and serving it; the program ends at once if there is no memory for its history. -/
def serve (o : Options) (config : EngineConfig) (texts : Texts) : IO UInt32 := do
  match Engine.createFrom .addressable (readerOf texts) config with
  | .ok engine => serveWith o config engine
  | .error abort =>
    IO.eprintln abort.message
    return 134

/-! ### Arguments -/

/-- How the program is called. -/
def usage : String :=
  "Usage: adaptive-mtu [-c|--config FILE] [-m|--model KIND] [-f|--features FILE]\n"
  ++ "                    [-i|--interval-ms MS] [--override-mtu MTU] [-e|--export FILE] [-d|--debug]\n"
  ++ "\n"
  ++ "KIND is one of rule-based, linear, decision, ensemble.\n"

/-- Running the program with the given options. -/
def runWith (o : Options) : IO UInt32 := do
  let texts ← readFiles o.config.toList
  match o.loadConfig (readerOf texts) with
  | .error fault =>
    IO.eprintln ("Error: " ++ fault.message)
    return 1
  | .ok config =>
    if o.debug then IO.eprintln ("Configuration: " ++ config.toJson.compact)
    serve o config (← readFiles config.model.artifacts)

end Program

end AdaptiveMtu

open AdaptiveMtu in
/-- The program. -/
def main (arguments : List String) : IO UInt32 := do
  if arguments.any fun a => a = "-h" || a = "--help" then
    IO.print Program.usage
    return 0
  match Options.parse? arguments with
  | none =>
    IO.eprint Program.usage
    return 2
  | some o => Program.runWith o
