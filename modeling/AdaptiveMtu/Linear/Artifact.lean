/-
Files of learned weights.

An artifact is a JSON structure of nine finite weights and, if it likes, a positive learning rate.
Whatever is wrong with one, from a missing file to a rate of zero, is an artifact fault.
-/
import AdaptiveMtu.Json.Access
import AdaptiveMtu.Json.Reader
import AdaptiveMtu.Linear.Learner

namespace AdaptiveMtu

/-- What an artifact says. -/
structure Artifact where
  weights : List Float
  rate : Option Float

namespace Artifact

/-- The artifact that a JSON value describes. -/
def ofJson? (v : Json) : Option Artifact := do
  let fields ← v.fields? ["weights", "learning_rate"]
  let weights ← Json.required fields "weights" fun w => w.toList?.bind (·.mapM Json.toFloat?)
  let rate ← Json.withDefault fields "learning_rate" (Json.optional Json.toFloat?) none
  return ⟨weights, rate⟩

/-- The artifact that a text spells. -/
def parse? (text : String) : Option Artifact := (Json.read? text).bind ofJson?

/-- The model that an artifact describes. -/
def toLearner (a : Artifact) (bounds : MtuBounds) : Except ArtifactFault Learner :=
  match Weights.ofList? a.weights with
  | none => .error (.weightCount a.weights.length)
  | some weights =>
    let rate := a.rate.getD Learner.defaultRate
    if !weights.allFinite then .error .nonFiniteWeight
    else if !rate.isFinite || rate ≤ 0 then .error (.learningRate rate)
    else .ok (Learner.withWeights weights rate bounds)

/-- The model that the artifact at a path describes. -/
def load (read : TextReader) (path : String) (bounds : MtuBounds) : Except ArtifactFault Learner :=
  match read path with
  | .error cause => .error (.unreadable path cause)
  | .ok text =>
    match parse? text with
    | none => .error (.malformed path)
    | some artifact => artifact.toLearner bounds

end Artifact

end AdaptiveMtu
