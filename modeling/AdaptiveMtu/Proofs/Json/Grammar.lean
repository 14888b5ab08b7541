/-
What a JSON text may look like.

The grammar stands by itself, with no machine that reads it.  A numeral has an optional minus, whole
digits without a leading zero, at least one digit behind a point, and an exponent with either letter,
with or without a sign.  A string literal has its pieces between two quotes, each a character that stands
for itself or an escape.  A text is tokens one behind the other with white space anywhere between them,
and a value is written as its tokens.
-/
import AdaptiveMtu.Json.Token
import AdaptiveMtu.Json.Writer
import AdaptiveMtu.Proofs.Decimal.Digits

namespace AdaptiveMtu

/-! ### Numerals -/

namespace Numeral

/-- The number that decimal digits make. -/
def ofDigits (ds : List Nat) : Nat := ds.foldl (fun acc d => 10 * acc + d) 0

/-- The letter in front of an exponent. -/
def IsMark (c : Char) : Prop := c = 'e' ∨ c = 'E'

/-- The sign of an exponent, which need not be there, and whether it is a minus. -/
inductive SignText : List Char → Bool → Prop where
  | absent : SignText [] false
  | plus : SignText ['+'] false
  | minus : SignText ['-'] true

/-- A number with a sign. -/
def withSign (negative : Bool) (n : Nat) : Int := if negative then -(n : Int) else n

/-- An exponent, which need not be there; its digits may begin with zeros. -/
inductive ExponentText : List Char → Option Int → Prop where
  | absent : ExponentText [] none
  | written {mark : Char} (hmark : IsMark mark) {sign : List Char} {negative : Bool}
      (hsign : SignText sign negative) {ds : List Nat} (hne : ds ≠ []) (hds : ∀ d ∈ ds, d < 10) :
      ExponentText (mark :: (sign ++ ds.map digitChar)) (some (withSign negative (ofDigits ds)))

/-- The characters of a numeral before its exponent. -/
def mantissa (n : Numeral) : List Char :=
  (if n.negative then ['-'] else []) ++ digitsOf n.whole
    ++ (if n.fraction = [] then [] else '.' :: n.fraction.map digitChar)

/-- The characters are a way of writing the numeral. -/
inductive SpelledAs (n : Numeral) : List Char → Prop where
  | intro (hn : n.Proper) {tail : List Char} (htail : ExponentText tail n.exponent) :
      n.SpelledAs (n.mantissa ++ tail)

theorem ofDigits_append (ds : List Nat) (d : Nat) : ofDigits (ds ++ [d]) = 10 * ofDigits ds + d := by
  rw [ofDigits, List.foldl_append]
  rfl

/-- The digits of a number make this number. -/
theorem exists_digits (n : Nat) :
    ∃ ds : List Nat, ds ≠ [] ∧ (∀ d ∈ ds, d < 10) ∧ digitsOf n = ds.map digitChar ∧
      ofDigits ds = n := by
  induction n using digits_induct with
  | single d hd =>
      refine ⟨[d], List.cons_ne_nil _ _, List.forall_mem_singleton.mpr hd, digitsOf_of_lt hd, ?_⟩
      exact (ofDigits_append [] d).trans (Nat.zero_add d)
  | append n d hn hd ih =>
      obtain ⟨ds, -, hds, hdigits, hvalue⟩ := ih
      refine ⟨ds ++ [d], List.append_ne_nil_of_right_ne_nil _ (List.cons_ne_nil _ _),
        List.forall_mem_append.mpr ⟨hds, List.forall_mem_singleton.mpr hd⟩, ?_, ?_⟩
      · rw [digitsOf_append hn hd, hdigits, List.map_append, List.map_singleton]
      · rw [ofDigits_append, hvalue]

theorem withSign_natAbs (e : Int) : withSign (decide (e < 0)) e.natAbs = e := by
  by_cases he : e < 0
  · rw [withSign, decide_eq_true he, if_pos rfl]
    omega
  · rw [withSign, decide_eq_false he, if_neg Bool.false_ne_true]
    omega

theorem exponentText_exponentChars (e : Int) : ExponentText (exponentChars e) (some e) := by
  obtain ⟨ds, hne, hds, hdigits, hvalue⟩ := exists_digits e.natAbs
  have hsign : SignText [if e < 0 then '-' else '+'] (decide (e < 0)) := by
    by_cases he : e < 0
    · rw [if_pos he, decide_eq_true he]
      exact .minus
    · rw [if_neg he, decide_eq_false he]
      exact .plus
  have h := ExponentText.written (.inl rfl) hsign hne hds
  rwa [hvalue, withSign_natAbs, ← hdigits] at h

/-- A numeral is written as its own characters. -/
theorem spelledAs_chars {n : Numeral} (hn : n.Proper) : n.SpelledAs n.chars := by
  have hchars : n.chars = n.mantissa ++ n.exponent.elim [] exponentChars := by
    rw [chars, mantissa]
    cases n.exponent <;> rfl
  have htail : ExponentText (n.exponent.elim [] exponentChars) n.exponent := by
    cases n.exponent with
    | none => exact .absent
    | some e => exact exponentText_exponentChars e
  rw [hchars]
  exact .intro hn htail

end Numeral

namespace Json

/-! ### String literals -/

/-- The number that hexadecimal digits make. -/
def hexNumber? (cs : List Char) : Option Nat :=
  cs.foldlM (fun acc c => (hexValue? c).map (16 * acc + ·)) 0

/-- The characters are a way of writing one piece of a string literal. -/
inductive Piece.SpelledAs : Piece → List Char → Prop where
  | plain {c : Char} (hquote : c ≠ '"') (hbackslash : c ≠ '\\') (hcontrol : 0x20 ≤ c.toNat) :
      SpelledAs (.char c) [c]
  | escape {letter target : Char} (h : escapeTarget? letter = some target) :
      SpelledAs (.char target) ['\\', letter]
  | code {digits : List Char} (hlength : digits.length = 4) {code : Nat}
      (h : hexNumber? digits = some code) : SpelledAs (.ofCode code) ('\\' :: 'u' :: digits)

/-- The characters are the pieces, one behind the other. -/
inductive PiecesText : List Char → List Piece → Prop where
  | nil : PiecesText [] []
  | snoc {cs ds : List Char} {ps : List Piece} {p : Piece} (h : PiecesText cs ps)
      (hp : p.SpelledAs ds) : PiecesText (cs ++ ds) (ps ++ [p])

/-- What pieces in the order of the text make together. -/
def literalOfPieces (ps : List Piece) : Literal := (joinPieces ps).map String.ofList

theorem PiecesText.append {cs ds : List Char} {ps qs : List Piece} (h : PiecesText cs ps)
    (hds : PiecesText ds qs) : PiecesText (cs ++ ds) (ps ++ qs) := by
  induction hds with
  | nil => rwa [List.append_nil, List.append_nil]
  | snoc _ hp ih =>
      rw [← List.append_assoc, ← List.append_assoc]
      exact ih.snoc hp

theorem piecesText_singleton {p : Piece} {cs : List Char} (h : p.SpelledAs cs) :
    PiecesText cs [p] :=
  PiecesText.nil.snoc h

theorem joinPieces_chars (cs : List Char) : joinPieces (cs.map Piece.char) = some cs := by
  induction cs with
  | nil => rfl
  | cons c rest ih =>
      rw [List.map_cons, joinPieces, ih]
      rfl

/-- A character is written as itself or escaped. -/
theorem spelledAs_escapeChar (c : Char) : (Piece.char c).SpelledAs (escapeChar c) := by
  unfold escapeChar
  split_ifs with h1 h2 h3 h4 h5 h6 h7 h8
  · rw [h1]; exact .escape rfl
  · rw [h2]; exact .escape rfl
  · rw [h3]; exact .escape rfl
  · rw [h4]; exact .escape rfl
  · rw [h5]; exact .escape rfl
  · rw [h6]; exact .escape rfl
  · rw [h7]; exact .escape rfl
  · -- A control character without a letter of its own is written by its number.
    have hcode : ∀ k, k < 0x20 → hexNumber? ['0', '0', hexDigit (k / 16), hexDigit (k % 16)] = some k
        ∧ Piece.ofCode k = .char (Char.ofNat k) := by
      intro k hk
      interval_cases k <;> exact ⟨rfl, rfl⟩
    obtain ⟨hnumber, hpiece⟩ := hcode c.toNat h8
    rw [Char.ofNat_toNat] at hpiece
    rw [← hpiece]
    exact .code rfl hnumber
  · exact .plain h1 h2 (Nat.le_of_not_lt h8)

theorem piecesText_escaped (cs : List Char) :
    PiecesText (cs.flatMap escapeChar) (cs.map Piece.char) := by
  induction cs with
  | nil => exact .nil
  | cons c rest ih => exact (piecesText_singleton (spelledAs_escapeChar c)).append ih

/-! ### Tokens -/

/-- The characters are a way of writing the token. -/
inductive Token.SpelledAs : Token → List Char → Prop where
  | openBrace : SpelledAs .openBrace ['{']
  | closeBrace : SpelledAs .closeBrace ['}']
  | openBracket : SpelledAs .openBracket ['[']
  | closeBracket : SpelledAs .closeBracket [']']
  | colon : SpelledAs .colon [':']
  | comma : SpelledAs .comma [',']
  | null : SpelledAs .null ['n', 'u', 'l', 'l']
  | true : SpelledAs (.bool true) ['t', 'r', 'u', 'e']
  | false : SpelledAs (.bool false) ['f', 'a', 'l', 's', 'e']
  | number {n : Numeral} {cs : List Char} (h : n.SpelledAs cs) : SpelledAs (.number n) cs
  | text {cs : List Char} {ps : List Piece} (h : PiecesText cs ps) :
      SpelledAs (.text (literalOfPieces ps)) ('"' :: cs ++ ['"'])

/-- A literal is written with the escapes that it needs. -/
theorem spelledAs_literalChars (t : Literal) : (Token.text t).SpelledAs (literalChars t) := by
  cases t with
  | none =>
      have hnumber : hexNumber? ['d', '8', '0', '0'] = some 0xd800 := rfl
      have h : (Piece.half 0xd800).SpelledAs ['\\', 'u', 'd', '8', '0', '0'] := .code rfl hnumber
      exact .text (piecesText_singleton h)
  | some s =>
      have hpieces : literalOfPieces (s.toList.map Piece.char) = some s := by
        rw [literalOfPieces, joinPieces_chars]
        exact congrArg some String.ofList_toList
      have h := Token.SpelledAs.text (piecesText_escaped s.toList)
      rwa [hpieces] at h

/-! ### Texts -/

/-- The characters are the tokens, one by one, with white space anywhere between them. -/
inductive Spells : List Char → List Token → Prop where
  | nil : Spells [] []
  | space {c : Char} {cs : List Char} {ts : List Token} (hc : Scanner.isSpace c = true)
      (h : Spells cs ts) : Spells (c :: cs) ts
  | token {t : Token} {ds cs : List Char} {ts : List Token} (ht : t.SpelledAs ds)
      (h : Spells cs ts) : Spells (ds ++ cs) (t :: ts)

theorem Spells.append {cs ds : List Char} {ts us : List Token} (h : Spells cs ts)
    (hds : Spells ds us) : Spells (cs ++ ds) (ts ++ us) := by
  induction h with
  | nil => exact hds
  | space hc _ ih => exact .space hc ih
  | token ht _ ih =>
      rw [List.append_assoc]
      exact .token ht ih

theorem spells_space {c : Char} (hc : Scanner.isSpace c = true) : Spells [c] [] := .space hc .nil

theorem spells_token {t : Token} {cs : List Char} (ht : t.SpelledAs cs) : Spells cs [t] := by
  have h := Spells.token ht .nil
  rwa [List.append_nil] at h

mutual

/-- The tokens of a value. -/
def tokens : Json → List Token
  | .null => [.null]
  | .bool b => [.bool b]
  | .number n => [.number n]
  | .text t => [.text t]
  | .array [] => [.openBracket, .closeBracket]
  | .array (v :: rest) => .openBracket :: tokens v ++ elementTokens rest
  | .object [] => [.openBrace, .closeBrace]
  | .object ((name, v) :: rest) =>
    .openBrace :: .text name :: .colon :: tokens v ++ memberTokens rest

/-- The tokens of the elements behind the first one, and the closing bracket. -/
def elementTokens : List Json → List Token
  | [] => [.closeBracket]
  | v :: rest => .comma :: tokens v ++ elementTokens rest

/-- The tokens of the members behind the first one, and the closing brace. -/
def memberTokens : List (Literal × Json) → List Token
  | [] => [.closeBrace]
  | (name, v) :: rest => .comma :: .text name :: .colon :: tokens v ++ memberTokens rest

end

/-- The text is a way of writing the value. -/
def SpelledAs (v : Json) (text : String) : Prop := Spells text.toList (tokens v)

end Json

end AdaptiveMtu
