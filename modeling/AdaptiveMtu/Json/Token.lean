/-
From characters to JSON tokens.

The scanner is a machine that takes one character at a time: `Scanner.step` says what a character
does to its state, and scanning a text is folding that step over its characters. Literals are strict:
no raw control characters, no leading zeros, a digit on both sides of a point, and only the
escapes that JSON knows.
-/
import AdaptiveMtu.Json.Value

namespace AdaptiveMtu

namespace Json

/-- A JSON token. -/
inductive Token where
  | openBrace
  | closeBrace
  | openBracket
  | closeBracket
  | colon
  | comma
  | null
  | bool (b : Bool)
  | number (n : Numeral)
  | text (t : Literal)
deriving DecidableEq

/-! ### String literals -/

/-- One piece of a string literal: a character, or an escape that is half of a surrogate pair. -/
inductive Piece where
  | char (c : Char)
  | half (code : Nat)
deriving DecidableEq

/-- The piece that a four-digit escape stands for. -/
def Piece.ofCode (code : Nat) : Piece :=
  if 0xd800 ≤ code && code < 0xe000 then .half code else .char (Char.ofNat code)

/-- The character that a high and a low half make together. -/
def pairHalves (high low : Nat) : Char :=
  Char.ofNat (0x10000 + (high - 0xd800) * 0x400 + (low - 0xdc00))

/-- The characters of a literal, if every half stands beside its other half. -/
def joinPieces : List Piece → Option (List Char)
  | [] => some []
  | .char c :: rest => (joinPieces rest).map (c :: ·)
  | .half high :: .half low :: rest =>
    if high < 0xdc00 && 0xdc00 ≤ low then (joinPieces rest).map (pairHalves high low :: ·) else none
  | .half _ :: _ => none

/-- The literal made of the given pieces, newest first. -/
def literalOf (newestFirst : List Piece) : Literal :=
  (joinPieces newestFirst.reverse).map String.ofList

/-- The value of a hexadecimal digit. -/
def hexValue? (c : Char) : Option Nat :=
  if c.isDigit then some (c.toNat - '0'.toNat)
  else if 'a' ≤ c && c ≤ 'f' then some (c.toNat - 'a'.toNat + 10)
  else if 'A' ≤ c && c ≤ 'F' then some (c.toNat - 'A'.toNat + 10)
  else none

/-- What a backslash and a letter other than `u` stand for. -/
def escapeTarget? (c : Char) : Option Char :=
  if c = '"' || c = '\\' || c = '/' then some c
  else if c = 'b' then some '\x08'
  else if c = 'f' then some '\x0c'
  else if c = 'n' then some '\n'
  else if c = 'r' then some '\r'
  else if c = 't' then some '\t'
  else none

/-! ### Numerals -/

/-- How far a numeral has been read. -/
inductive NumeralStage where
  | sign
  | zero
  | whole
  | point
  | fraction
  | mark
  | markSign
  | exponent
deriving DecidableEq

/-- A numeral that is being read; its fraction digits stand newest first. -/
structure OpenNumeral where
  stage : NumeralStage
  negative : Bool
  whole : Nat
  fraction : List Nat
  exponentNegative : Bool
  exponent : Nat
deriving DecidableEq

namespace OpenNumeral

/-- The numeral that a first character opens: a minus or a digit. -/
def begin? (c : Char) : Option OpenNumeral :=
  if c = '-' then some ⟨.sign, true, 0, [], false, 0⟩
  else if c = '0' then some ⟨.zero, false, 0, [], false, 0⟩
  else if c.isDigit then some ⟨.whole, false, c.toNat - '0'.toNat, [], false, 0⟩
  else none

/-- A further digit, where the grammar allows one. -/
def digit? (n : OpenNumeral) (d : Nat) : Option OpenNumeral :=
  match n.stage with
  | .sign => some { n with stage := if d = 0 then .zero else .whole, whole := d }
  | .zero => none
  | .whole => some { n with whole := 10 * n.whole + d }
  | .point | .fraction => some { n with stage := .fraction, fraction := d :: n.fraction }
  | .mark | .markSign | .exponent => some { n with stage := .exponent, exponent := 10 * n.exponent + d }

/-- The numeral with one more character, if that character continues it. -/
def next? (n : OpenNumeral) (c : Char) : Option OpenNumeral :=
  if c.isDigit then n.digit? (c.toNat - '0'.toNat)
  else if c = '.' then
    if n.stage = .zero || n.stage = .whole then some { n with stage := .point } else none
  else if c = 'e' || c = 'E' then
    if n.stage = .zero || n.stage = .whole || n.stage = .fraction then some { n with stage := .mark }
    else none
  else if c = '+' || c = '-' then
    if n.stage = .mark then some { n with stage := .markSign, exponentNegative := c = '-' } else none
  else none

/-- The finished numeral, if it may end here. -/
def close? (n : OpenNumeral) : Option Numeral :=
  match n.stage with
  | .zero | .whole | .fraction => some ⟨n.negative, n.whole, n.fraction.reverse, none⟩
  | .exponent =>
    let e : Int := if n.exponentNegative then -(n.exponent : Int) else n.exponent
    some ⟨n.negative, n.whole, n.fraction.reverse, some e⟩
  | .sign | .point | .mark | .markSign => none

end OpenNumeral

/-! ### The scanner -/

/-- What the scanner is in the middle of. -/
inductive ScanMode where
  | between
  | word (rest : List Char) (token : Token)
  | numeral (n : OpenNumeral)
  | literal (pieces : List Piece)
  | escape (pieces : List Piece)
  | code (pieces : List Piece) (digits : Nat) (value : Nat)

/-- The tokens found so far, newest first, and what is being read. -/
structure Scanner where
  found : List Token
  mode : ScanMode

namespace Scanner

/-- Before the first character. -/
def start : Scanner := ⟨[], .between⟩

/-- Whether a character may stand between tokens. -/
def isSpace (c : Char) : Bool := c = ' ' || c = '\t' || c = '\n' || c = '\r'

/-- The token that a character is by itself. -/
def mark? (c : Char) : Option Token :=
  if c = '{' then some .openBrace
  else if c = '}' then some .closeBrace
  else if c = '[' then some .openBracket
  else if c = ']' then some .closeBracket
  else if c = ':' then some .colon
  else if c = ',' then some .comma
  else none

/-- The word that a letter opens: what is still to come of it, and its token. -/
def word? (c : Char) : Option (List Char × Token) :=
  if c = 'n' then some (['u', 'l', 'l'], .null)
  else if c = 't' then some (['r', 'u', 'e'], .bool true)
  else if c = 'f' then some (['a', 'l', 's', 'e'], .bool false)
  else none

/-- A character that stands between tokens or opens one. -/
def opening? (found : List Token) (c : Char) : Option Scanner :=
  if isSpace c then some ⟨found, .between⟩
  else if c = '"' then some ⟨found, .literal []⟩
  else match mark? c with
    | some token => some ⟨token :: found, .between⟩
    | none =>
      match word? c with
      | some (rest, token) => some ⟨found, .word rest token⟩
      | none => (OpenNumeral.begin? c).map fun n => ⟨found, .numeral n⟩

/-- A character inside a string literal. -/
def literal? (found : List Token) (pieces : List Piece) (c : Char) : Option Scanner :=
  if c = '"' then some ⟨.text (literalOf pieces) :: found, .between⟩
  else if c = '\\' then some ⟨found, .escape pieces⟩
  else if c.toNat < 0x20 then none
  else some ⟨found, .literal (.char c :: pieces)⟩

/-- A further hexadecimal digit of an escape that has read `digits` of its four. -/
def code? (found : List Token) (pieces : List Piece) (digits value : Nat) (c : Char) :
    Option Scanner :=
  (hexValue? c).map fun d =>
    let value := 16 * value + d
    if digits = 3 then ⟨found, .literal (Piece.ofCode value :: pieces)⟩
    else ⟨found, .code pieces (digits + 1) value⟩

/-- What one character does. -/
def step (s : Scanner) (c : Char) : Option Scanner :=
  match s.mode with
  | .between => opening? s.found c
  | .word [] _ => none
  | .word [last] token => if c = last then some ⟨token :: s.found, .between⟩ else none
  | .word (letter :: rest) token => if c = letter then some ⟨s.found, .word rest token⟩ else none
  | .numeral n =>
    match n.next? c with
    | some longer => some ⟨s.found, .numeral longer⟩
    | none => n.close?.bind fun whole => opening? (.number whole :: s.found) c
  | .literal pieces => literal? s.found pieces c
  | .escape pieces =>
    if c = 'u' then some ⟨s.found, .code pieces 0 0⟩
    else (escapeTarget? c).map fun target => ⟨s.found, .literal (.char target :: pieces)⟩
  | .code pieces digits value => code? s.found pieces digits value c

/-- The tokens, newest first, if the text may end here. -/
def finish? (s : Scanner) : Option (List Token) :=
  match s.mode with
  | .between => some s.found
  | .numeral n => n.close?.map fun whole => .number whole :: s.found
  | _ => none

/-- The state after all the given characters. -/
def run (s : Scanner) (cs : List Char) : Option Scanner := cs.foldlM step s

end Scanner

/-- The tokens of a text, if it consists of tokens and white space. -/
def tokens? (cs : List Char) : Option (List Token) :=
  (Scanner.start.run cs).bind fun s => s.finish?.map List.reverse

end Json

end AdaptiveMtu
