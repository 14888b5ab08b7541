/-
Kinds of prediction model: what a configuration asks for.

A kind is a tree, because an ensemble names the kinds of its members. It has three written forms: a short
spelling for the command line, a display text, and JSON (`Model/KindCodec`). A spelling is trimmed of blanks,
which are the characters with the Unicode property White_Space, and the case of its letters does not count; letters
are here the twenty-six of ASCII and nothing else.
-/
import AdaptiveMtu.Error

namespace AdaptiveMtu

/-! ### Spellings -/

namespace Text

/-- The ranges of code points with the property White_Space. -/
def blankRanges : List (Nat × Nat) :=
  [(0x09, 0x0d), (0x20, 0x20), (0x85, 0x85), (0xa0, 0xa0), (0x1680, 0x1680), (0x2000, 0x200a),
    (0x2028, 0x2029), (0x202f, 0x202f), (0x205f, 0x205f), (0x3000, 0x3000)]

/-- Whether a character is white space. -/
def isBlank (c : Char) : Bool := blankRanges.any fun r => r.1 ≤ c.toNat && c.toNat ≤ r.2

/-- The characters without the blank ones at both ends. -/
def trim (cs : List Char) : List Char :=
  ((cs.dropWhile isBlank).reverse.dropWhile isBlank).reverse

/-- A text trimmed and with its ASCII letters in lower case. -/
def normalize (s : String) : String := String.ofList ((trim s.toList).map Char.toLower)

end Text

/-! ### Kinds -/

/-- Which model to build. -/
inductive ModelKind where
  | rules (base : Nat)
  | linear (artifact : Option String)
  | decision
  | ensemble (members : List ModelKind)

namespace ModelKind

/-- The base MTU of the rule model when none is given. -/
def defaultBase : Nat := 1500

/-- The members of an ensemble when none are given. -/
def defaultMembers : List ModelKind := [.linear none, .decision]

/-- The kind that is built when none is given. -/
def standard : ModelKind := .ensemble defaultMembers

/-- The display text of a kind. -/
def display : ModelKind → String
  | .rules base => "rule-based(base=" ++ toString base ++ ")"
  | .linear (some path) => "linear(" ++ path ++ ")"
  | .linear none => "linear"
  | .decision => "decision"
  | .ensemble members => "ensemble(" ++ toString members.length ++ " members)"

/-- The kinds that can be spelled on the command line, with their spellings. -/
def spellings : List (String × ModelKind) :=
  [("rule-based", .rules defaultBase), ("rule_based", .rules defaultBase),
    ("linear", .linear none), ("linear-regression", .linear none),
    ("decision", .decision), ("decision-heuristic", .decision), ("decision-tree", .decision),
    ("ensemble", standard)]

/-- The kind that a text spells, blanks around it and the case of its letters left aside. -/
def ofSpelling (text : String) : Except Error ModelKind :=
  let spelling := Text.normalize text
  match spellings.lookup spelling with
  | some kind => .ok kind
  | none => .error (.config (.unknownModel spelling))

mutual

/-- The artifacts that a kind names, in order. -/
def artifacts : ModelKind → List String
  | .linear (some path) => [path]
  | .ensemble members => artifactsOfAll members
  | .rules _ | .linear none | .decision => []

/-- The artifacts that a list of kinds names, in order. -/
def artifactsOfAll : List ModelKind → List String
  | [] => []
  | kind :: rest => artifacts kind ++ artifactsOfAll rest

end

end ModelKind

end AdaptiveMtu
