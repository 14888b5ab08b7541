/-
What the command line comes to: a configuration, and the features of a path.

A configuration is read from the file that is named, if one is, and has to be acceptable as it stands
there. Then the command line takes precedence, and the result has to be acceptable again.
-/
import AdaptiveMtu.CommandLine.Options
import AdaptiveMtu.Config.Codec
import AdaptiveMtu.Features.Vector

namespace AdaptiveMtu

/-- Why there is no configuration. -/
inductive LoadFault where
  | file (path : String) (cause : Error)
  | options (cause : ConfigFault)

/-- The words for a failure and for what is behind it, from the outermost in. -/
def Error.chain : Error → String
  | .file cause => (Error.file cause).message ++ ": " ++ cause.message
  | e => e.message

/-- The words for a fault. -/
def LoadFault.message : LoadFault → String
  | .file path cause => "failed to load config " ++ path ++ ": " ++ cause.chain
  | .options cause => (Error.config cause).chain

namespace Options

/-- A configuration with what the command line says put in place. -/
def applyTo (o : Options) (c : EngineConfig) : EngineConfig :=
  { c with
    model := o.model.getD c.model
    intervalMs := o.intervalMs.getD c.intervalMs
    initialOverride := o.overrideMtu.or c.initialOverride }

/-- The configuration before the command line takes precedence. -/
def baseConfig (o : Options) (read : TextReader) : Except LoadFault EngineConfig :=
  match o.config with
  | none => .ok .standard
  | some path => (EngineConfig.load read path).mapError (LoadFault.file path)

/-- The configuration that the command line comes to. -/
def loadConfig (o : Options) (read : TextReader) : Except LoadFault EngineConfig := do
  let config := o.applyTo (← o.baseConfig read)
  config.validate.mapError LoadFault.options
  return config

end Options

/-- The features in the file at a path. -/
def FeatureVector.load (read : TextReader) (path : String) : Except Error FeatureVector := do
  let text ← (read path).mapError Error.file
  match (Json.read? text).bind FeatureVector.ofJson? with
  | none => .error .json
  | some v => .ok v

end AdaptiveMtu
