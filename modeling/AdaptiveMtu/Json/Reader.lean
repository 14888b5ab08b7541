/-
From JSON tokens to the value they spell.

The reader is a stack machine that takes one token at a time. Its stack holds the containers that
are still open, innermost first, each with what it has gathered so far; its state says what may come next.
There is no bound on nesting here: who reads a value into a type of limited depth checks the depth of the
value.
-/
import AdaptiveMtu.Json.Token

namespace AdaptiveMtu

namespace Json

/-- A container that is still open; what it has gathered stands newest first. -/
inductive Frame where
  | elements (gathered : List Json)
  | members (gathered : List (Literal × Json)) (name : Literal)

/-- What may come next, inside the containers `outer`. -/
inductive Reader where
  /-- A value. -/
  | value (outer : List Frame)
  /-- The first element of an array, or its end. -/
  | elementOrEnd (outer : List Frame)
  /-- The first name of an object, or its end. -/
  | nameOrEnd (outer : List Frame)
  /-- The next name of an object that has gathered some members. -/
  | nextName (outer : List Frame) (gathered : List (Literal × Json))
  /-- The colon behind a name. -/
  | colon (outer : List Frame) (gathered : List (Literal × Json)) (name : Literal)
  /-- A comma or the end of the innermost container; `v` is complete. -/
  | complete (outer : List Frame) (v : Json)

namespace Reader

/-- A token where a value is due. -/
def value? (outer : List Frame) : Token → Option Reader
  | .null => some (.complete outer .null)
  | .bool b => some (.complete outer (.bool b))
  | .number n => some (.complete outer (.number n))
  | .text t => some (.complete outer (.text t))
  | .openBracket => some (.elementOrEnd outer)
  | .openBrace => some (.nameOrEnd outer)
  | _ => none

/-- A token behind a complete value. -/
def afterValue? (v : Json) : List Frame → Token → Option Reader
  | .elements gathered :: outer, .comma => some (.value (.elements (v :: gathered) :: outer))
  | .elements gathered :: outer, .closeBracket =>
    some (.complete outer (.array (v :: gathered).reverse))
  | .members gathered name :: outer, .comma => some (.nextName outer ((name, v) :: gathered))
  | .members gathered name :: outer, .closeBrace =>
    some (.complete outer (.object ((name, v) :: gathered).reverse))
  | _, _ => none

/-- What one token does. -/
def step : Reader → Token → Option Reader
  | .value outer, t => value? outer t
  | .elementOrEnd outer, .closeBracket => some (.complete outer (.array []))
  | .elementOrEnd outer, t => value? (.elements [] :: outer) t
  | .nameOrEnd outer, .closeBrace => some (.complete outer (.object []))
  | .nameOrEnd outer, .text name => some (.colon outer [] name)
  | .nextName outer gathered, .text name => some (.colon outer gathered name)
  | .colon outer gathered name, .colon => some (.value (.members gathered name :: outer))
  | .complete outer v, t => afterValue? v outer t
  | _, _ => none

/-- The value, once it is complete and no container is open. -/
def finish? : Reader → Option Json
  | .complete [] v => some v
  | _ => none

/-- The state after all the given tokens. -/
def run (r : Reader) (ts : List Token) : Option Reader := ts.foldlM step r

end Reader

/-- The value that a token list spells, if it spells exactly one. -/
def ofTokens? (ts : List Token) : Option Json :=
  ((Reader.value []).run ts).bind Reader.finish?

/-- The value of a JSON text. -/
def read? (text : String) : Option Json := (tokens? text.toList).bind ofTokens?

end Json

end AdaptiveMtu
