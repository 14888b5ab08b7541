/-
Kinds of model as JSON: an object whose member `type` says which kind it is.

The tag may stand at any place among the members, so a kind is taken in whole before it is looked at.
That is why all of it has to be sound, also the members that are then passed over: texts without unpaired
surrogates, numbers in range, and no deeper nesting than is left. A kind may also be an
array that begins with the tag and lists the fields by position; inside another kind, where the tag is
looked up in what was taken in already, its number in the list of tags will do as well.
-/
import AdaptiveMtu.Json.Access
import AdaptiveMtu.Model.Kind

namespace AdaptiveMtu

namespace Json

/-- How many containers may stand inside each other in a value that is taken in whole. -/
def nestingLimit : Nat := 127

mutual

/-- Whether a value is sound throughout and at most `room` containers deep. -/
def isSound (room : Nat) : Json → Bool
  | .null | .bool _ => true
  | .number n => n.toFloat?.isSome
  | .text t => t.isSome
  | .array elements => 0 < room && allSound (room - 1) elements
  | .object members => 0 < room && allMembersSound (room - 1) members

/-- Whether all values of a list are sound. -/
def allSound (room : Nat) : List Json → Bool
  | [] => true
  | v :: rest => isSound room v && allSound room rest

/-- Whether all members of an object are sound. -/
def allMembersSound (room : Nat) : List (Literal × Json) → Bool
  | [] => true
  | (name, v) :: rest => name.isSome && isSound room v && allMembersSound room rest

end

end Json

namespace ModelKind

/-! ### Writing -/

mutual

/-- The JSON value of a kind. -/
def toJson : ModelKind → Json
  | .rules base => Json.ofMembers [("type", .ofString "rule_based"), ("base_mtu", .ofNat base)]
  | .linear artifact =>
    Json.ofMembers
      [("type", .ofString "linear_regression"), ("artifact", Json.ofOption Json.ofString artifact)]
  | .decision => Json.ofMembers [("type", .ofString "decision_heuristic")]
  | .ensemble members =>
    Json.ofMembers [("type", .ofString "ensemble"), ("members", .array (toJsonAll members))]

/-- The JSON values of a list of kinds. -/
def toJsonAll : List ModelKind → List Json
  | [] => []
  | kind :: rest => toJson kind :: toJsonAll rest

end

/-! ### Reading -/

/-- A kind without its fields. -/
inductive Tag where
  | rules
  | linear
  | decision
  | ensemble
deriving DecidableEq

/-- The tags with their names, in the order of their numbers. -/
def tags : List (String × Tag) :=
  [("rule_based", .rules), ("linear_regression", .linear), ("decision_heuristic", .decision),
    ("ensemble", .ensemble)]

/-- The tag that a value names; inside another kind its number will do. -/
def tagOf? (inside : Bool) : Json → Option Tag
  | .text (some name) => tags.lookup name
  | .number n => if inside then (n.toNat? tags.length).bind fun i => tags[i]?.map (·.2) else none
  | _ => none

/-- The fields of a tag besides the tag itself. -/
def fieldsOf : Tag → List String
  | .rules => ["base_mtu"]
  | .linear => ["artifact"]
  | .decision => []
  | .ensemble => ["members"]

/-- The tag of a kind and the value that holds its fields. -/
def tagAndBody? (inside : Bool) : Json → Option (Tag × Json)
  | .object members => do
    let fields ← (Json.object members).fields? ["type"]
    let tag ← Json.required fields "type" (tagOf? inside)
    return (tag, .object (members.filter fun m => m.1 != some "type"))
  | .array (first :: rest) => (tagOf? inside first).map fun tag => (tag, .array rest)
  | _ => none

/-- The kind of a tag and its fields; `member` reads the members of an ensemble. -/
def assemble? (member : Json → Option ModelKind) (tag : Tag) (body : Json) : Option ModelKind := do
  let fields ← body.fields? (fieldsOf tag)
  match tag with
  | .rules => (Json.withDefault fields "base_mtu" Json.toCount? defaultBase).map .rules
  | .linear =>
    (Json.withDefault fields "artifact" (Json.optional Json.toString?) none).map .linear
  | .decision => some .decision
  | .ensemble =>
    (Json.withDefault fields "members" (fun v => v.toList?.bind (·.mapM member)) defaultMembers).map
      .ensemble

/-- The kind that a sound value describes, read through at most `levels` nested kinds. -/
def ofSound? : (levels : Nat) → (inside : Bool) → Json → Option ModelKind
  | 0, _, _ => none
  | levels + 1, inside, v => do
    let (tag, body) ← tagAndBody? inside v
    assemble? (ofSound? levels true) tag body

/-- The kind that a value inside `outer` containers describes. -/
def ofJson? (outer : Nat) (v : Json) : Option ModelKind :=
  if v.isSound (Json.nestingLimit - outer) then ofSound? Json.nestingLimit false v else none

end ModelKind

end AdaptiveMtu
