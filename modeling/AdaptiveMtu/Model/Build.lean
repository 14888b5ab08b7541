/-
From kinds to models.

Building never fails: where an artifact cannot be taken, a model that always answers the same MTU stands
in, and keeps the reason. An ensemble without members gets the default ones.
-/
import AdaptiveMtu.Linear.Artifact
import AdaptiveMtu.Model.Kind
import AdaptiveMtu.Model.Tree

namespace AdaptiveMtu

namespace Model

variable {χ : Type}

/-- The linear model of an artifact, or what stands in for it. -/
def ofArtifact (read : TextReader) (bounds : MtuBounds) (path : String) : Model χ :=
  match Artifact.load read path bounds with
  | .ok learner => .linear learner
  | .error cause => .degraded (Error.artifact cause).message

/-- The members of an ensemble that names none. -/
def defaultMembers (bounds : MtuBounds) : List (Model χ) :=
  [.linear (Learner.fresh bounds), .decision bounds]

mutual

/-- The model of a kind. -/
def build (read : TextReader) (bounds : MtuBounds) : ModelKind → Model χ
  | .rules base => .rules base bounds
  | .linear none => .linear (Learner.fresh bounds)
  | .linear (some path) => ofArtifact read bounds path
  | .decision => .decision bounds
  | .ensemble [] => .ensemble (defaultMembers bounds)
  | .ensemble (kind :: rest) => .ensemble (build read bounds kind :: buildAll read bounds rest)

/-- The models of a list of kinds. -/
def buildAll (read : TextReader) (bounds : MtuBounds) : List ModelKind → List (Model χ)
  | [] => []
  | kind :: rest => build read bounds kind :: buildAll read bounds rest

end

end Model

end AdaptiveMtu
