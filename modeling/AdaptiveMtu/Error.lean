/-
What can go wrong, by cause, and the words for each cause.

Every failure is a constructor with the data that its message needs; the wording is in the functions named
`message` and nowhere else.
-/
import AdaptiveMtu.Decimal.Numeral
import AdaptiveMtu.Storage.Directory

namespace AdaptiveMtu

/-- What is wrong with a configuration. -/
inductive ConfigFault where
  | boundsOutside (min max : Nat)
  | boundsCrossed (min max : Nat)
  | defaultOutside (mtu min max : Nat)
  | noCapacity
  | noInterval
  | unknownModel (spelling : String)

/-- Why a file of learned weights was not taken. -/
inductive ArtifactFault where
  | unreadable (path : String) (cause : FileFault)
  | malformed (path : String)
  | weightCount (found : Nat)
  | nonFiniteWeight
  | learningRate (rate : Float)

/-- Why a model could not predict or learn. -/
inductive PredictionFault where
  | nonFinite (value : Float)
  | diverged
  | noMembers
  | reported (text : String)

/-- Why an argument was refused. -/
inductive ArgumentFault where
  | observedOutside (mtu : Nat)
  | alreadyRunning
  | nothingSampled

/-- A failure of any part of the program. -/
inductive Error where
  | file (cause : FileFault)
  | json
  | config (cause : ConfigFault)
  | artifact (cause : ArtifactFault)
  | prediction (cause : PredictionFault)
  | argument (cause : ArgumentFault)

/-! ### Wording -/

/-- How a message refers to what a JSON reader has to say. -/
def jsonRemark : String := "<json error>"

/-- The words for a configuration fault. -/
def ConfigFault.message : ConfigFault → String
  | .boundsOutside min max =>
    "MTU bounds " ++ toString min ++ "-" ++ toString max ++ " must lie within 576-9000"
  | .boundsCrossed min max => "min_mtu " ++ toString min ++ " exceeds max_mtu " ++ toString max
  | .defaultOutside mtu min max =>
    "default_mtu " ++ toString mtu ++ " is outside " ++ toString min ++ "-" ++ toString max
  | .noCapacity => "history_capacity must be positive"
  | .noInterval => "prediction_interval_ms must be positive"
  | .unknownModel spelling => "unknown model type \x27" ++ spelling ++ "\x27"

/-- The words for an artifact fault. -/
def ArtifactFault.message : ArtifactFault → String
  | .unreadable path cause => path ++ ": " ++ cause.message
  | .malformed path => path ++ ": " ++ jsonRemark
  | .weightCount found => "expected 9 weights, found " ++ toString found
  | .nonFiniteWeight => "non-finite weight in artifact"
  | .learningRate rate => "invalid learning rate " ++ NumberStyle.plainText rate

/-- The words for a prediction fault. -/
def PredictionFault.message : PredictionFault → String
  | .nonFinite value => "linear model produced " ++ NumberStyle.plainText value
  | .diverged => "linear model weights diverged"
  | .noMembers => "ensemble has no members"
  | .reported text => text

/-- The words for an argument fault. -/
def ArgumentFault.message : ArgumentFault → String
  | .observedOutside mtu =>
    "observed MTU " ++ toString mtu ++ " is outside valid range (576-9000)"
  | .alreadyRunning => "MTU prediction service is already running"
  | .nothingSampled => "no features have been sampled yet"

/-- The words for a failure. -/
def Error.message : Error → String
  | .file cause => "I/O error: " ++ cause.message
  | .json => "JSON error: " ++ jsonRemark
  | .config cause => "configuration error: " ++ cause.message
  | .artifact cause => "model artifact error: " ++ cause.message
  | .prediction cause => "prediction error: " ++ cause.message
  | .argument cause => "invalid argument: " ++ cause.message

end AdaptiveMtu
