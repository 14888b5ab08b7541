/-
Reading typed data out of a JSON value.

A structure is an object whose known names occur at most once; unknown names are passed over whatever
their values are. It may also be an array, which then lists the fields by position and may stop early.
A field that is missing takes its default where there is one. Numbers are checked only where they
are asked for: a count is a numeral of digits alone, and a float is any numeral in the finite range.
-/
import AdaptiveMtu.Json.Value
import AdaptiveMtu.Binary64.Whole

namespace AdaptiveMtu

namespace Json

/-! ### Scalars -/

/-- A number in the finite range. -/
def toFloat? : Json → Option Float
  | .number n => n.toFloat?
  | _ => none

/-- A natural number below `limit`. -/
def toNat? (limit : Nat) : Json → Option Nat
  | .number n => n.toNat? limit
  | _ => none

/-- A count, which fits sixty-four bits. -/
def toCount? (v : Json) : Option Nat := v.toNat? (largestCount + 1)

/-- A truth value. -/
def toBool? : Json → Option Bool
  | .bool b => some b
  | _ => none

/-- A text. -/
def toString? : Json → Option String
  | .text t => t
  | _ => none

/-- The elements of an array. -/
def toList? : Json → Option (List Json)
  | .array elements => some elements
  | _ => none

/-- A value or `null`. -/
def optional {α : Type} (decode : Json → Option α) : Json → Option (Option α)
  | .null => some none
  | v => (decode v).map some

/-! ### Structures -/

/-- The members of an object, if every name denotes a text. -/
def namedMembers? (members : List (Literal × Json)) : Option (List (String × Json)) :=
  members.mapM fun m => m.1.map fun name => (name, m.2)

/-- The known fields that a structure's value supplies, each at most once. -/
def fields? (known : List String) : Json → Option (List (String × Json))
  | .object members => do
    let named ← namedMembers? members
    let kept := named.filter fun m => known.contains m.1
    if (kept.map (·.1)).Nodup then some kept else none
  | .array elements =>
    if elements.length ≤ known.length then some (known.zip elements) else none
  | _ => none

/-- A field that must be there. -/
def required {α : Type} (fields : List (String × Json)) (name : String)
    (decode : Json → Option α) : Option α :=
  (fields.lookup name).bind decode

/-- A field that has a default. -/
def withDefault {α : Type} (fields : List (String × Json)) (name : String)
    (decode : Json → Option α) (default : α) : Option α :=
  match fields.lookup name with
  | none => some default
  | some v => decode v

end Json

end AdaptiveMtu
