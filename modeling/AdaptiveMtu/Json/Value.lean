/-
JSON values.

A value keeps what its text says and no more is decided here: numbers stay numerals, members stay in
the order of the text, and a repeated name stays repeated. A string literal denotes a text unless one of its
escapes is half of a surrogate pair without the other half; then it denotes no text at all, and a
value may still hold it as long as nobody asks for its content.
-/
import AdaptiveMtu.Decimal.Numeral

namespace AdaptiveMtu

/-- What a string literal denotes: nothing if it holds an unpaired surrogate. -/
abbrev Literal := Option String

/-- A JSON value. -/
inductive Json where
  | null
  | bool (b : Bool)
  | number (n : Numeral)
  | text (t : Literal)
  | array (elements : List Json)
  | object (members : List (Literal × Json))

namespace Json

/-- A text as a JSON value. -/
def ofString (s : String) : Json := .text (some s)

/-- A natural number as a JSON value. -/
def ofNat (n : Nat) : Json := .number (Numeral.ofNat n)

/-- An object with the given names and values. -/
def ofMembers (members : List (String × Json)) : Json :=
  .object (members.map fun m => (some m.1, m.2))

/-- Numbers in JSON are written out in full between 0.00001 and 10¹⁶, always with a fraction, and with a
power of ten elsewhere. -/
def numberStyle : NumberStyle := ⟨.toEven, fun k => -5 < k && k ≤ 16, [0]⟩

/-- A binary64 number as a JSON value; JSON has no infinities and no NaN, so these become `null`. -/
def ofFloat (x : Float) : Json :=
  if x.isFinite then .number (Numeral.ofFloat numberStyle x) else .null

/-- An optional value, `null` when it is missing. -/
def ofOption {α : Type} (encode : α → Json) : Option α → Json
  | none => .null
  | some a => encode a

end Json

end AdaptiveMtu
