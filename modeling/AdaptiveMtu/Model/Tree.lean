/-
What a prediction model is to an engine, and models as trees.

A model may change with every question it is asked, so each operation gives back the model to go on with, also
when it fails. Single models stand at the leaves of a tree, ensembles at its inner nodes.

A leaf may also be any other predictor, so that ensembles can mix the models of this library with ones
from outside. An ensemble asks its members in order and stops at the first that fails; it teaches all of
them and reports the first failure.
-/
import AdaptiveMtu.Error
import AdaptiveMtu.Heuristic.Decision
import AdaptiveMtu.Heuristic.Rules
import AdaptiveMtu.Linear.Learner

namespace AdaptiveMtu

/-- A model that predicts the MTU of a path and may learn from observed ones. -/
class Predictor (σ : Type) where
  /-- The MTU for the given conditions. -/
  predict : σ → FeatureVector → Except Error Nat × σ
  /-- The prediction before bounding and rounding, of a model that has one. -/
  raw : σ → FeatureVector → Option Float × σ
  /-- Learning that an MTU was the best one under the given conditions. -/
  update : σ → FeatureVector → Nat → Except Error Unit × σ
  /-- The name of the kind of model. -/
  typeName : σ → String
  /-- Whether the model only stands in for one that could not be built. -/
  isDegraded : σ → Bool

/-- A model that does not exist answers anything. -/
instance : Predictor Empty where
  predict m := nomatch m
  raw m := nomatch m
  update m := nomatch m
  typeName m := nomatch m
  isDegraded m := nomatch m

/-- A prediction model whose outside leaves are of type `χ`. -/
inductive Model (χ : Type) where
  | rules (base : Nat) (bounds : MtuBounds)
  | decision (bounds : MtuBounds)
  | linear (learner : Learner)
  | degraded (reason : String)
  | custom (predictor : χ)
  | ensemble (members : List (Model χ))

namespace Model

/-! ### The mean of several answers -/

/-- The sum of answers; it is one of counts, so it wraps. -/
def total (answers : List Nat) : Nat :=
  answers.foldl (fun sum mtu => (sum + mtu) % (largestCount + 1)) 0

/-- The mean of the answers of an ensemble, which has to have members. -/
def mean (answers : List Nat) : Except Error Float :=
  if answers.isEmpty then .error (.prediction .noMembers)
  else .ok (Binary64.ofCount (total answers) / Binary64.ofCount answers.length)

/-- The MTU that an ensemble answers for a mean. -/
def roundMean (mean : Float) : Nat := MtuBounds.full.clamp (roundToHundred (Binary64.truncate mean))

/-! ### Predicting -/

variable {χ : Type} [Predictor χ]

mutual

/-- The MTU that a model answers. -/
def predict (v : FeatureVector) : Model χ → Except Error Nat × Model χ
  | .rules base bounds => (.ok (Rules.predict base bounds v), .rules base bounds)
  | .decision bounds => (.ok (Decision.predict bounds v), .decision bounds)
  | .linear learner => (learner.predict v, .linear learner)
  | .degraded reason => (.ok fallbackMtu, .degraded reason)
  | .custom predictor =>
    let (answer, next) := Predictor.predict predictor v
    (answer, .custom next)
  | .ensemble members =>
    let (answers, next) := predictAll v members
    (answers.bind fun ns => (mean ns).map roundMean, .ensemble next)

/-- The answers of several models, up to the first that fails. -/
def predictAll (v : FeatureVector) : List (Model χ) → Except Error (List Nat) × List (Model χ)
  | [] => (.ok [], [])
  | m :: rest =>
    match predict v m with
    | (.error e, next) => (.error e, next :: rest)
    | (.ok n, next) =>
      let (answers, nextRest) := predictAll v rest
      (answers.map (n :: ·), next :: nextRest)

end

/-- The prediction before bounding and rounding, of a model that has one. An ensemble asks its members anew. -/
def raw (v : FeatureVector) : Model χ → Option Float × Model χ
  | .linear learner => (learner.raw v, .linear learner)
  | .custom predictor =>
    let (value, next) := Predictor.raw predictor v
    (value, .custom next)
  | .ensemble members =>
    let (answers, next) := predictAll v members
    ((answers.bind mean).toOption, .ensemble next)
  | .rules base bounds => (none, .rules base bounds)
  | .decision bounds => (none, .decision bounds)
  | .degraded reason => (none, .degraded reason)

/-! ### Learning -/

/-- The first of two reports that is a failure. -/
def firstFailure (a b : Except Error Unit) : Except Error Unit :=
  match a with
  | .error e => .error e
  | .ok () => b

mutual

/-- Learning that an MTU was the best one under the given conditions. -/
def update (v : FeatureVector) (mtu : Nat) : Model χ → Except Error Unit × Model χ
  | .linear learner =>
    let (report, next) := learner.update v mtu
    (report, .linear next)
  | .custom predictor =>
    let (report, next) := Predictor.update predictor v mtu
    (report, .custom next)
  | .ensemble members =>
    let (report, next) := updateAll v mtu members
    (report, .ensemble next)
  | .rules base bounds => (.ok (), .rules base bounds)
  | .decision bounds => (.ok (), .decision bounds)
  | .degraded reason => (.ok (), .degraded reason)

/-- Teaching several models: all of them learn, and the first failure is reported. -/
def updateAll (v : FeatureVector) (mtu : Nat) :
    List (Model χ) → Except Error Unit × List (Model χ)
  | [] => (.ok (), [])
  | m :: rest =>
    let (report, next) := update v mtu m
    let (reports, nextRest) := updateAll v mtu rest
    (firstFailure report reports, next :: nextRest)

end

/-! ### What a model says about itself -/

/-- The name of the kind of model. -/
def typeName : Model χ → String
  | .rules _ _ => "RuleBased"
  | .decision _ => "DecisionHeuristic"
  | .linear _ => "LinearRegression"
  | .degraded _ => "Degraded"
  | .custom predictor => Predictor.typeName predictor
  | .ensemble _ => "Ensemble"

mutual

/-- Whether a model, or some member of it, only stands in for one that could not be built. -/
def isDegraded : Model χ → Bool
  | .degraded _ => true
  | .custom predictor => Predictor.isDegraded predictor
  | .ensemble members => anyDegraded members
  | .rules _ _ | .decision _ | .linear _ => false

/-- Whether some model of a list only stands in for one that could not be built. -/
def anyDegraded : List (Model χ) → Bool
  | [] => false
  | m :: rest => isDegraded m || anyDegraded rest

end

instance : Predictor (Model χ) where
  predict m v := m.predict v
  raw m v := m.raw v
  update m v mtu := m.update v mtu
  typeName := typeName
  isDegraded := isDegraded

end Model

end AdaptiveMtu
