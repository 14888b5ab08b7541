/-
JSON text: a compact form without white space, and an indented form with one member or element to a
line.

Both forms spell the same tokens and differ in white space alone. In a string only the quote, the
backslash and control characters are escaped; a literal that denotes no text is written as one unpaired
surrogate, so that it denotes none when it is read again.
-/
import AdaptiveMtu.Json.Value

namespace AdaptiveMtu

namespace Json

/-! ### Strings -/

/-- A hexadecimal digit. -/
def hexDigit (d : Nat) : Char :=
  if d < 10 then Char.ofNat ('0'.toNat + d) else Char.ofNat ('a'.toNat + (d - 10))

/-- A character as it stands in a string literal. -/
def escapeChar (c : Char) : List Char :=
  if c = '"' then ['\\', '"']
  else if c = '\\' then ['\\', '\\']
  else if c = '\x08' then ['\\', 'b']
  else if c = '\x0c' then ['\\', 'f']
  else if c = '\n' then ['\\', 'n']
  else if c = '\r' then ['\\', 'r']
  else if c = '\t' then ['\\', 't']
  else if c.toNat < 0x20 then
    ['\\', 'u', '0', '0', hexDigit (c.toNat / 16), hexDigit (c.toNat % 16)]
  else [c]

/-- A string literal. -/
def literalChars : Literal → List Char
  | some s => '"' :: s.toList.flatMap escapeChar ++ ['"']
  | none => ['"', '\\', 'u', 'd', '8', '0', '0', '"']

/-! ### Compact form -/

mutual

/-- The compact form of a value. -/
def compactChars : Json → List Char
  | .null => ['n', 'u', 'l', 'l']
  | .bool true => ['t', 'r', 'u', 'e']
  | .bool false => ['f', 'a', 'l', 's', 'e']
  | .number n => n.chars
  | .text t => literalChars t
  | .array [] => ['[', ']']
  | .array (v :: rest) => '[' :: compactChars v ++ compactElements rest
  | .object [] => ['{', '}']
  | .object ((name, v) :: rest) =>
    '{' :: literalChars name ++ ':' :: compactChars v ++ compactMembers rest

/-- The elements behind the first one, and the closing bracket. -/
def compactElements : List Json → List Char
  | [] => [']']
  | v :: rest => ',' :: compactChars v ++ compactElements rest

/-- The members behind the first one, and the closing brace. -/
def compactMembers : List (Literal × Json) → List Char
  | [] => ['}']
  | (name, v) :: rest =>
    ',' :: literalChars name ++ ':' :: compactChars v ++ compactMembers rest

end

/-- A value's text without white space. -/
def compact (v : Json) : String := String.ofList (compactChars v)

/-! ### Indented form -/

/-- A new line at the given depth, two spaces for each level. -/
def newLine (depth : Nat) : List Char := '\n' :: List.replicate (2 * depth) ' '

mutual

/-- The indented form of a value inside `depth` containers. -/
def indentedChars (depth : Nat) : Json → List Char
  | .array (v :: rest) =>
    '[' :: newLine (depth + 1) ++ indentedChars (depth + 1) v ++ indentedElements depth rest
  | .object ((name, v) :: rest) =>
    '{' :: newLine (depth + 1) ++ literalChars name ++ ':' :: ' ' :: indentedChars (depth + 1) v
      ++ indentedMembers depth rest
  | .null => compactChars .null
  | .bool b => compactChars (.bool b)
  | .number n => compactChars (.number n)
  | .text t => compactChars (.text t)
  | .array [] => compactChars (.array [])
  | .object [] => compactChars (.object [])

/-- The elements behind the first one, and the closing bracket. -/
def indentedElements (depth : Nat) : List Json → List Char
  | [] => newLine depth ++ [']']
  | v :: rest =>
    ',' :: newLine (depth + 1) ++ indentedChars (depth + 1) v ++ indentedElements depth rest

/-- The members behind the first one, and the closing brace. -/
def indentedMembers (depth : Nat) : List (Literal × Json) → List Char
  | [] => newLine depth ++ ['}']
  | (name, v) :: rest =>
    ',' :: newLine (depth + 1) ++ literalChars name ++ ':' :: ' ' :: indentedChars (depth + 1) v
      ++ indentedMembers depth rest

end

/-- A value's text with one member or element to a line. -/
def indented (v : Json) : String := String.ofList (indentedChars 0 v)

end Json

end AdaptiveMtu
